import LogicalTable.Proofs.LogicalColumn.Failures
import Mathlib.Data.Set.Card

/-! How many values a column of dictionaries can take. Every chunk draws a key for each of its values, also
for those that an earlier chunk holds, so that the keys last just if there are enough of them for the
different values of all chunks together. -/
namespace LogicalTable

/-- How many different values there are among some that may be missing. -/
noncomputable def presentCount (xs : List (Option Value)) : Nat := {v | some v ∈ xs}.ncard

/-- The keys that a column of chunks of a size needs: one for each different value of each chunk. -/
noncomputable def chunkKeys (n : Nat) (xs : List (Option Value)) : Nat :=
  ((cutEvery n xs).map presentCount).sum

section Pairs

variable {α β : Type _} {R : α → β → Prop} {as : List α} {bs : List β}

theorem forall₂_cutEvery (n : Nat) (h : List.Forall₂ R as bs) :
    List.Forall₂ (List.Forall₂ R) (cutEvery n as) (cutEvery n bs) := by
  rw [cutEvery, cutEvery, h.length_eq, List.forall₂_map_left_iff, List.forall₂_map_right_iff,
    List.forall₂_same]
  exact fun i _ => List.forall₂_take n (List.forall₂_drop (i * n) h)

end Pairs

theorem nodup_distinctValues (vs : List StorageValue) : (distinctValues vs).Nodup := nodup_eraseDups _

theorem keysNeeded_append (us vs : List (List StorageValue)) :
    keysNeeded (us ++ vs) = keysNeeded us + keysNeeded vs := by
  induction us with
  | nil => exact (Nat.zero_add _).symm
  | cons u us ih => rw [List.cons_append, keysNeeded, keysNeeded, ih, Nat.add_assoc]

section Counting

variable {t : LogicalType} {xs : List (Option Value)} {ss : List StorageValue}

def LogicalType.storageOf (t : LogicalType) (v : Value) : StorageValue :=
  match t.converter.factory.encode v with
  | .ok s => s
  | .error _ => .null

theorem LogicalType.Stores.storageOf_eq {v : Value} {s : StorageValue} (h : t.Stores (some v) s) :
    t.storageOf v = s ∧ s ≠ .null ∧ t.converter.factory.decode s = .ok v := by
  cases h with
  | value _ encoded there _ _ decoded => exact ⟨by rw [storageOf, encoded], there, decoded⟩

/-- Different values are stored differently, as they are taken there and back. -/
theorem length_distinctValues_eq (stored : List.Forall₂ t.Stores xs ss) :
    (distinctValues ss).length = presentCount xs := by
  have injective : Set.InjOn t.storageOf {v | some v ∈ xs} := by
    intro v hv w hw same
    obtain ⟨s, _, hs⟩ := exists_right stored hv
    obtain ⟨u, _, hu⟩ := exists_right stored hw
    rw [hs.storageOf_eq.1, hu.storageOf_eq.1] at same
    subst same
    exact Except.ok.inj (hs.storageOf_eq.2.2.symm.trans hu.storageOf_eq.2.2)
  have image : t.storageOf '' {v | some v ∈ xs} = {s | s ∈ distinctValues ss} := by
    ext s
    constructor
    · rintro ⟨v, hv, rfl⟩
      obtain ⟨s, hs, stores⟩ := exists_right stored hv
      obtain ⟨same, there, _⟩ := stores.storageOf_eq
      exact mem_distinctValues.2 ⟨same ▸ hs, same ▸ there⟩
    · intro h
      obtain ⟨hs, there⟩ := mem_distinctValues.1 h
      obtain ⟨x, hx, stores⟩ := exists_right stored.flip hs
      cases x with
      | none =>
        cases stores
        exact (there rfl).elim
      | some v => exact ⟨v, hx, stores.storageOf_eq.1⟩
  have finite : {s | s ∈ distinctValues ss} = ((distinctValues ss).toFinset : Set StorageValue) :=
    (List.coe_toFinset _).symm
  rw [presentCount, ← injective.ncard_image, image, finite, Set.ncard_coe_finset,
    List.toFinset_card_of_nodup (nodup_distinctValues ss)]

theorem keysNeeded_eq (n : Nat) (stored : List.Forall₂ t.Stores xs ss) :
    keysNeeded (cutEvery n ss) = chunkKeys n xs := by
  have pieces := forall₂_cutEvery n stored
  rw [chunkKeys]
  generalize cutEvery n xs = us at pieces
  generalize cutEvery n ss = vs at pieces
  induction pieces with
  | nil => rfl
  | cons head _ ih => rw [keysNeeded, length_distinctValues_eq head, ih, List.map_cons, List.sum_cons]

end Counting

namespace ColumnBuilder

variable {t : LogicalType} {n : Nat} {k : DictKey} {done : List (List StorageValue)}
  {b : ColumnBuilder}

def exhausted (k : DictKey) : Error := .layout (.keysExhausted k.name)

theorem cut_metered {count : Nat} (waits : b.pending ≠ [])
    (admitted : ∀ s ∈ b.pending, b.type.storage.admits s = true)
    (keys : b.keys = some ⟨k, UInt64.ofNat count⟩) (drawn : count ≤ k.maxKey + 1)
    (word : count + (distinctValues b.pending).length ≤ 0x10000000000000000) :
    (count + (distinctValues b.pending).length ≤ k.maxKey + 1 ∧
      ∃ c, b.cut = ({ b with
          keys := some ⟨k, UInt64.ofNat (count + (distinctValues b.pending).length)⟩
          pending := []
          chunks := b.chunks ++ [c] }, .ok ()) ∧ b.type.Takes c b.pending) ∨
    (k.maxKey + 1 < count + (distinctValues b.pending).length ∧
      ∃ d, b.cut = (d, .error (exhausted k))) := by
  have counter : (UInt64.ofNat count).toNat = count % 0x10000000000000000 := UInt64.toNat_ofNat'
  have below := Nat.mod_le count 0x10000000000000000
  rcases KeySource.encode_cases (s := ⟨k, UInt64.ofNat count⟩) admitted (by dsimp only; omega)
    (by dsimp only; omega) with ⟨room, c, hc, takes⟩ | ⟨short, hc, _⟩
  · dsimp only at room hc
    -- The counter is back at zero only behind the last word, when no more keys are needed.
    have enough : count + (distinctValues b.pending).length ≤ k.maxKey + 1 := by omega
    refine Or.inl ⟨enough, c, ?_, takes⟩
    rw [cut_stored waits keys hc, UInt64.ofNat_add, UInt64.ofNat_toNat, ← UInt64.ofNat_add]
  · dsimp only at short
    exact Or.inr ⟨by omega, _, cut_failed waits keys hc⟩

/-- The state of a builder that has cut the pieces `done`, each of which has drawn the keys for its
values. -/
structure Metered (t : LogicalType) (n : Nat) (k : DictKey) (done : List (List StorageValue))
    (b : ColumnBuilder) : Prop where
  type : b.type = t
  size : b.chunkSize = n
  waiting : b.pending.length < n
  admitted : ∀ s ∈ b.pending, t.storage.admits s = true
  takes : List.Forall₂ t.Takes b.chunks done
  drawn : keysNeeded done ≤ k.maxKey + 1
  keys : b.keys = some ⟨k, UInt64.ofNat (keysNeeded done)⟩

/-- Pushing goes on as long as the keys last for the pieces of all that is to be pushed. -/
theorem Metered.push (h : Metered t n k done b) {s : StorageValue} (hs : t.storage.admits s = true)
    (rest : List StorageValue)
    (word : keysNeeded (done ++ cutEvery n (b.pending ++ s :: rest)) ≤ 0x10000000000000000) :
    (∃ d later, b.push s = (d, .ok ()) ∧ Metered t n k later d ∧
      later ++ cutEvery n (d.pending ++ rest) = done ++ cutEvery n (b.pending ++ s :: rest)) ∨
    (k.maxKey + 1 < keysNeeded (done ++ cutEvery n (b.pending ++ s :: rest)) ∧
      ∃ d, b.push s = (d, .error (exhausted k))) := by
  obtain ⟨type, size, pending, chunks, source⟩ := b
  obtain ⟨rfl, rfl, waiting, before, takes, drawn, keys⟩ := h
  dsimp only at waiting before takes keys word ⊢
  have admitted : ∀ u ∈ pending ++ [s], type.storage.admits u = true := by
    intro u hu
    rcases List.mem_append.1 hu with hu | hu
    · exact before u hu
    · rwa [List.mem_singleton.1 hu]
  rw [List.append_cons] at word ⊢
  rw [ColumnBuilder.push]
  by_cases full : (pending ++ [s]).length = size
  · have pos : 0 < size := Nat.zero_lt_of_lt waiting
    have piece : keysNeeded (done ++ cutEvery size (pending ++ [s] ++ rest)) =
        keysNeeded done + (distinctValues (pending ++ [s])).length + keysNeeded (cutEvery size rest) := by
      rw [cutEvery_append pos full, keysNeeded_append, keysNeeded, Nat.add_assoc]
    rcases cut_metered (b := ⟨type, size, pending ++ [s], chunks, source⟩)
      (List.append_ne_nil_of_right_ne_nil _ (List.cons_ne_nil s [])) admitted keys drawn
      (by dsimp only; omega) with ⟨enough, c, hc, last⟩ | ⟨short, d, hd⟩
    · have count : keysNeeded (done ++ [pending ++ [s]]) =
          keysNeeded done + (distinctValues (pending ++ [s])).length := keysNeeded_append _ _
      refine Or.inl ⟨_, done ++ [pending ++ [s]], (if_pos full).trans hc,
        ⟨rfl, rfl, pos, ?_, ?_, ?_, ?_⟩, ?_⟩
      · exact List.forall_mem_nil _
      · exact List.rel_append takes (.cons last .nil)
      · rwa [count]
      · rw [count]
      · rw [cutEvery_append pos full, List.append_assoc]
        rfl
    · dsimp only at short
      exact Or.inr ⟨by omega, d, (if_pos full).trans hd⟩
  · have fewer : (pending ++ [s]).length < size := by
      rw [List.length_append, List.length_singleton] at full ⊢
      omega
    exact Or.inl ⟨_, done, if_neg full, ⟨rfl, rfl, fewer, admitted, takes, drawn, keys⟩, rfl⟩

theorem Metered.extend {xs : List (Option Value)} {ss : List StorageValue} (h : Metered t n k done b)
    (stored : List.Forall₂ t.Stores xs ss)
    (word : keysNeeded (done ++ cutEvery n (b.pending ++ ss)) ≤ 0x10000000000000000) :
    (∃ d later, b.extend xs = (d, .ok ()) ∧ Metered t n k later d ∧
      later ++ cutEvery n d.pending = done ++ cutEvery n (b.pending ++ ss)) ∨
    (k.maxKey + 1 < keysNeeded (done ++ cutEvery n (b.pending ++ ss)) ∧
      ∃ d, b.extend xs = (d, .error (exhausted k))) := by
  induction stored generalizing b done with
  | nil => exact Or.inl ⟨b, done, rfl, h, by rw [List.append_nil]⟩
  | @cons x s xs ss head _ ih =>
    have added := (h.type ▸ head).append_eq (b := b)
    rw [ColumnBuilder.extend, added]
    rcases h.push head.admits ss word with ⟨d, later, hd, next, same⟩ | ⟨short, d, hd⟩
    · rw [hd, ← same]
      exact ih next (same ▸ word)
    · rw [hd]
      exact Or.inr ⟨short, d, rfl⟩

theorem Metered.finish (h : Metered t n k done b)
    (word : keysNeeded (done ++ cutEvery n b.pending) ≤ 0x10000000000000000) :
    (∃ cs, b.finish = .ok cs ∧ List.Forall₂ t.Takes cs (done ++ cutEvery n b.pending) ∧
      keysNeeded (done ++ cutEvery n b.pending) ≤ k.maxKey + 1) ∨
    (b.finish = .error (exhausted k) ∧ k.maxKey + 1 < keysNeeded (done ++ cutEvery n b.pending)) := by
  obtain ⟨rfl, rfl, waiting, admitted, takes, drawn, keys⟩ := h
  rw [ColumnBuilder.finish]
  by_cases waits : b.pending = []
  · have same : b.cut = (b, .ok ()) := if_pos (List.isEmpty_iff.2 waits)
    rw [same, waits, cutEvery_nil (Nat.zero_lt_of_lt waiting), List.append_nil]
    exact Or.inl ⟨_, rfl, takes, drawn⟩
  · have count : keysNeeded (done ++ [b.pending]) =
        keysNeeded done + (distinctValues b.pending).length := keysNeeded_append _ _
    rw [cutEvery_short waits (Nat.le_of_lt waiting), count] at word ⊢
    rcases cut_metered waits admitted keys drawn word with ⟨enough, c, hc, last⟩ | ⟨short, d, hd⟩
    · rw [hc]
      exact Or.inl ⟨_, rfl, List.rel_append takes (.cons last .nil), enough⟩
    · rw [hd]
      exact Or.inr ⟨rfl, short⟩

def empty (t : LogicalType) (n : Nat) : ColumnBuilder := ⟨t, n, [], [], t.converter.dictKey.map .fresh⟩

theorem metered_empty (dictionary : t.converter.dictKey = some k) (pos : 0 < n) :
    Metered t n k [] (empty t n) where
  type := rfl
  size := rfl
  waiting := pos
  admitted := List.forall_mem_nil _
  takes := .nil
  drawn := Nat.zero_le _
  keys := by
    rw [empty, dictionary]
    rfl

variable {xs : List (Option Value)} {ss : List StorageValue}

/-- What building a column from its beginning to its end can do: it gives back the values, or the keys
have run out. -/
theorem column_cases (dictionary : t.converter.dictKey = some k) (pos : 0 < n)
    (stored : List.Forall₂ t.Stores xs ss)
    (word : keysNeeded (cutEvery n ss) ≤ 0x10000000000000000) :
    (keysNeeded (cutEvery n ss) ≤ k.maxKey + 1 ∧ ∃ d c, (empty t n).extend xs = (d, .ok ()) ∧
      d.column = .ok c ∧ c.decodeAll = .ok xs) ∨
    (k.maxKey + 1 < keysNeeded (cutEvery n ss) ∧
      ((∃ d, (empty t n).extend xs = (d, .error (exhausted k))) ∨
        ∃ d, (empty t n).extend xs = (d, .ok ()) ∧ d.column = .error (exhausted k))) := by
  rcases (metered_empty dictionary pos).extend stored word with
    ⟨d, later, hd, metered, same⟩ | ⟨short, failed⟩
  · rw [List.nil_append] at same
    rcases metered.finish (same ▸ word) with ⟨cs, hcs, takes, enough⟩ | ⟨hcs, short⟩
    · obtain ⟨c, column, type, holds⟩ := column_eq metered.type hcs takes
      have all : (later ++ cutEvery n d.pending).flatten = ss := by
        rw [same]
        exact flatten_cutEvery pos ss
      refine Or.inl ⟨same ▸ enough, d, c, hd, column, ?_⟩
      rw [LogicalColumn.decodeAll_eq holds, all, type, LogicalColumn.mapM_decode? stored]
    · refine Or.inr ⟨same ▸ short, Or.inr ⟨d, hd, ?_⟩⟩
      rw [ColumnBuilder.column, hcs]
      rfl
  · exact Or.inr ⟨short, Or.inl failed⟩

theorem keysNeeded_cutEvery_le (pos : 0 < n) (ss : List StorageValue) :
    keysNeeded (cutEvery n ss) ≤ ss.length := by
  have rows : ((cutEvery n ss).map List.length).foldr (· + ·) 0 = ss.length := by
    rw [← List.sum_eq_foldr, ← List.length_flatten, flatten_cutEvery pos]
  exact rows ▸ keysNeeded_le (cutEvery n ss)

/-- A column of dictionaries takes any values that its factory takes there and back, as long as there are
keys for the different values of each chunk. Otherwise they run out in the middle or at the end, if there
are no more rows than words. -/
theorem column_of_chunkKeys (dictionary : t.converter.dictKey = some k) (pos : 0 < n)
    (room : n ≤ maxChunkSize) (encodable : ∀ x ∈ xs, ∃ s, t.Stores x s) :
    ∃ b, new t.dataType t.converter.valueType n = .ok b ∧
      (chunkKeys n xs ≤ k.maxKey + 1 →
        ∃ d c, b.extend xs = (d, .ok ()) ∧ d.column = .ok c ∧ c.decodeAll = .ok xs) ∧
      (k.maxKey + 1 < chunkKeys n xs → xs.length ≤ 0x10000000000000000 →
        (∃ d, b.extend xs = (d, .error (exhausted k))) ∨
        ∃ d, b.extend xs = (d, .ok ()) ∧ d.column = .error (exhausted k)) := by
  obtain ⟨ss, stored⟩ := exists_forall₂ encodable
  have cases := column_cases dictionary pos stored
  rw [keysNeeded_eq n stored] at cases
  refine ⟨empty t n, new_eq t pos room, fun enough => ?_, fun short rows => ?_⟩
  · have last := k.maxKey_lt
    rcases cases (by omega) with ⟨_, built⟩ | ⟨short, _⟩
    · exact built
    · omega
  · have drawn := keysNeeded_cutEvery_le pos ss
    rw [keysNeeded_eq n stored, ← stored.length_eq] at drawn
    rcases cases (by omega) with ⟨enough, _⟩ | ⟨_, failed⟩
    · omega
    · exact failed

theorem stores_replicate {x : Option Value} {s : StorageValue} (stores : t.Stores x s) :
    ∀ count, List.Forall₂ t.Stores (List.replicate count x) (List.replicate count s)
  | 0 => .nil
  | count + 1 => .cons stores (stores_replicate stores count)

theorem keysNeeded_replicate {s : StorageValue} (there : s ≠ .null) (count : Nat) :
    keysNeeded (cutEvery 1 (List.replicate count s)) = count := by
  have one : (distinctValues [s]).length = 1 :=
    congrArg List.length (distinctValues_append_new there (List.not_mem_nil : s ∉ []))
  induction count with
  | zero => rw [List.replicate_zero, cutEvery_nil Nat.one_pos, keysNeeded]
  | succ count ih =>
    have first := cutEvery_append Nat.one_pos (List.length_singleton (a := s)) (List.replicate count s)
    rw [List.replicate_succ, ← List.singleton_append, first, keysNeeded, ih, one, Nat.add_comm]

/-- In chunks of one row, a value needs a key in each of them. -/
theorem extend_replicate {count : Nat} {x : Option Value} {s : StorageValue}
    (dictionary : t.converter.dictKey = some k) (stores : t.Stores x s) (there : s ≠ .null)
    (many : k.maxKey + 1 < count) (word : count ≤ 0x10000000000000000) :
    ∃ d, (empty t 1).extend (List.replicate count x) = (d, .error (exhausted k)) := by
  have start : Metered t 1 k [] (empty t 1) := metered_empty dictionary Nat.one_pos
  have needed := keysNeeded_replicate there count
  rcases start.extend (stores_replicate stores count) (needed.trans_le word) with
    ⟨d, later, _, metered, same⟩ | ⟨_, failed⟩
  · have empty : d.pending = [] := List.length_eq_zero_iff.1 (Nat.lt_one_iff.1 metered.waiting)
    have drawn := metered.drawn
    rw [empty, cutEvery_nil Nat.one_pos, List.append_nil] at same
    rw [same] at drawn
    exact absurd (needed.symm.trans_le drawn) (Nat.not_le.2 many)
  · exact failed

def epochs (count : Nat) : List (Option Value) :=
  List.replicate count (some (.date ⟨1970, 1, 1, by decide⟩))

theorem stores_mem_epochs {count : Nat} : ∀ x ∈ epochs count, ∃ s, LogicalType.day.Stores x s := by
  intro x hx
  rw [List.eq_of_mem_replicate hx]
  exact ⟨_, LogicalType.stores_epoch⟩

/-- One day draws the last key of a byte in the last of 256 chunks. -/
theorem column_of_epochs :
    chunkKeys 1 (epochs 256) ≤ DictKey.byte.maxKey + 1 ∧
    ∃ b, new LogicalType.day.dataType LogicalType.day.converter.valueType 1 = .ok b ∧
      (chunkKeys 1 (epochs 256) ≤ DictKey.byte.maxKey + 1 →
        ∃ d c, b.extend (epochs 256) = (d, .ok ()) ∧ d.column = .ok c ∧
          c.decodeAll = .ok (epochs 256)) ∧
      (DictKey.byte.maxKey + 1 < chunkKeys 1 (epochs 256) →
        (epochs 256).length ≤ 0x10000000000000000 →
        (∃ d, b.extend (epochs 256) = (d, .error (exhausted .byte))) ∨
        ∃ d, b.extend (epochs 256) = (d, .ok ()) ∧ d.column = .error (exhausted .byte)) := by
  have count : chunkKeys 1 (epochs 256) = 256 :=
    (keysNeeded_eq 1 (stores_replicate LogicalType.stores_epoch 256)).symm.trans (keysNeeded_replicate (by decide) 256)
  exact ⟨count.trans_le (by decide), column_of_chunkKeys rfl (by decide) (by decide) stores_mem_epochs⟩

theorem presentCount_replicate (count : Nat) (v : Value) :
    presentCount (List.replicate (count + 1) (some v)) = 1 := by
  have single : {w | some w ∈ List.replicate (count + 1) (some v)} = {v} := by
    ext w
    rw [Set.mem_ofPred_eq, List.mem_replicate, Option.some_inj, Set.mem_singleton_iff]
    exact ⟨And.right, fun same => ⟨Nat.succ_ne_zero count, same⟩⟩
  rw [presentCount, single, Set.ncard_singleton]

/-- The keys of a byte do not last for a single day if it is in 257 chunks. -/
theorem epochs_exhausted :
    LogicalType.day.converter.dictKey = some .byte ∧
    presentCount (epochs 257) ≤ DictKey.byte.maxKey + 1 ∧
    (∀ x ∈ epochs 257, ∃ s, LogicalType.day.Stores x s) ∧
    new LogicalType.day.dataType LogicalType.day.converter.valueType 1 = .ok (empty .day 1) ∧
    ∃ d, (empty .day 1).extend (epochs 257) = (d, .error (exhausted .byte)) := by
  refine ⟨rfl, ?_, stores_mem_epochs, new_eq .day Nat.one_pos (by decide), ?_⟩
  · rw [epochs, presentCount_replicate]
    decide
  · exact extend_replicate rfl LogicalType.stores_epoch (by decide) (by decide) (by decide)

end ColumnBuilder
end LogicalTable
