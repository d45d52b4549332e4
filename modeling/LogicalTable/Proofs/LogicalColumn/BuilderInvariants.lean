import LogicalTable.Proofs.DataType.Logical
import LogicalTable.Proofs.Dictionary.Exhausted
import LogicalTable.Proofs.LogicalColumn.Building

/-! Builders of columns that may run out of keys. Either all storage is held, in chunks or waiting, or the
values that wait cannot be cut any more. -/
namespace LogicalTable

/-- What a logical type stores for a value, or for a missing one. -/
inductive LogicalType.Encodes (t : LogicalType) : Option Value → StorageValue → Prop where
  | missing : Encodes t none .null
  | value {v : Value} {s : StorageValue} : t.converter.encode v = .ok s → Encodes t (some v) s

/-- Encoded values fit a type whose converter is registered for storage like its own. -/
theorem LogicalType.Encodes.admits {t : LogicalType} {x : Option Value} {s : StorageValue}
    (served : t.storage.samePhysical t.converter.storage = true) (h : t.Encodes x s) :
    t.storage.admits s = true := by
  cases h with
  | missing => exact t.storage.admits_null
  | @value v _ encoded =>
    obtain ⟨_, _, any⟩ := bind_eq_ok.1 encoded
    have fits : t.converter.storage.admits s = true := by
      rw [Converter.encodeAny] at any
      split at any
      · cases any
      · obtain ⟨u, _, any⟩ := bind_eq_ok.1 any
        split at any
        · next fits =>
          cases any
          exact fits
        · cases any
    rw [← t.storage.admits_physical, Shape.samePhysical_iff.1 served, Shape.admits_physical]
    exact fits

namespace ColumnBuilder

theorem append_encoded {b : ColumnBuilder} {x : Option Value} {s : StorageValue}
    (h : b.type.Encodes x s) : b.append x = b.push s := by
  cases h with
  | missing => rfl
  | value encoded => rw [append, encoded]

/-- Appending fails before the builder changes, or pushes what the type stores. -/
theorem encodes_or_refused (b : ColumnBuilder) (x : Option Value) :
    (∃ s, b.type.Encodes x s) ∨ ∃ w c, x = some w ∧ b.type.converter.encode w = .error c ∧
      b.append x = (b, .error (.conversion c)) := by
  cases x with
  | none => exact Or.inl ⟨_, .missing⟩
  | some w =>
    cases h : b.type.converter.encode w with
    | ok s => exact Or.inl ⟨s, .value h⟩
    | error c =>
      refine Or.inr ⟨w, c, rfl, h, ?_⟩
      rw [append, h]

/-- Whether no more keys than that have been drawn, all of them within their width. -/
def Drawn (keys : Option KeySource) (count : Nat) : Prop :=
  ∀ s, keys = some s → s.next.toNat ≤ s.key.maxKey + 1 ∧ s.next.toNat ≤ count

theorem drawn_none (count : Nat) : Drawn none count := by
  intro s hs
  cases hs

/-- The state of a builder of which no cut has failed: it holds the storage of all values, in chunks or
waiting, and has drawn no more keys than there are values in the chunks. -/
structure Sound (t : LogicalType) (n : Nat) (ss : List StorageValue) (b : ColumnBuilder) : Prop where
  type : b.type = t
  size : b.chunkSize = n
  waiting : b.pending.length < n
  admitted : ∀ s ∈ b.pending, t.storage.admits s = true
  width : b.keys.map KeySource.key = t.converter.dictKey
  held : ∃ done, List.Forall₂ t.Takes b.chunks done ∧ done.flatten ++ b.pending = ss ∧
    Drawn b.keys done.flatten.length

/-- The state behind a cut for which the keys ran out: values wait that cannot be cut any more. -/
structure Stuck (t : LogicalType) (n : Nat) (k : DictKey) (b : ColumnBuilder) : Prop where
  type : b.type = t
  size : b.chunkSize = n
  width : t.converter.dictKey = some k
  waiting : n ≤ b.pending.length
  present : ∃ s ∈ b.pending, s ≠ .null
  keys : b.keys = some (.spent k)
  exhausted : (KeySource.spent k).Exhausted

section

variable {t : LogicalType} {n : Nat} {ss : List StorageValue} {k : DictKey}

theorem cut_stored {b : ColumnBuilder} {s u : KeySource} {c : Chunk} (waits : b.pending ≠ [])
    (keys : b.keys = some s) (encoded : s.encode b.type.storage.arrayType b.pending = (u, .ok c)) :
    b.cut = ({ b with keys := some u, pending := [], chunks := b.chunks ++ [c] }, .ok ()) := by
  rw [cut, if_neg fun empty => waits (List.isEmpty_iff.1 empty), store, keys]
  dsimp only
  rw [encoded]

theorem cut_failed {b : ColumnBuilder} {s u : KeySource} {e : Error} (waits : b.pending ≠ [])
    (keys : b.keys = some s) (failed : s.encode b.type.storage.arrayType b.pending = (u, .error e)) :
    b.cut = ({ b with keys := some u }, .error e) := by
  rw [cut, if_neg fun empty => waits (List.isEmpty_iff.1 empty), store, keys]
  dsimp only
  rw [failed]

theorem store_cases {b : ColumnBuilder} {count : Nat}
    (admitted : ∀ s ∈ b.pending, b.type.storage.admits s = true) (drawn : Drawn b.keys count)
    (word : count + b.pending.length ≤ 0x10000000000000000) :
    (∃ keys c, b.store = (keys, .ok c) ∧ b.type.Takes c b.pending ∧
      keys.map KeySource.key = b.keys.map KeySource.key ∧ Drawn keys (count + b.pending.length)) ∨
    (∃ s, b.keys = some s ∧
      s.key.maxKey + 1 < s.next.toNat + (distinctValues b.pending).length ∧
      b.store = (some (.spent s.key), .error (.layout (.keysExhausted s.key.name))) ∧
      (KeySource.spent s.key).Exhausted ∧ ∃ v ∈ b.pending, v ≠ .null) := by
  rw [store]
  cases hk : b.keys with
  | none =>
    obtain ⟨c, hc, takes⟩ := LogicalType.takes_build admitted
    exact Or.inl ⟨none, c, by rw [hc], takes, rfl, drawn_none _⟩
  | some s =>
    obtain ⟨within, few⟩ := drawn s hk
    have fewer := length_distinctValues_le b.pending
    rcases KeySource.encode_cases admitted (by omega) within with
      ⟨room, c, hc, takes⟩ | ⟨short, hc, spent, present⟩
    · refine Or.inl ⟨some ⟨s.key, UInt64.ofNat (s.next.toNat + (distinctValues b.pending).length)⟩,
        c, by dsimp only; rw [hc], takes, rfl, ?_⟩
      intro u hu
      cases hu
      have wrapped := Nat.mod_le (s.next.toNat + (distinctValues b.pending).length) (2 ^ 64)
      dsimp only
      rw [UInt64.toNat_ofNat']
      omega
    · exact Or.inr ⟨s, rfl, short, by dsimp only; rw [hc], spent, present⟩

/-- What cutting the values that wait can do: the chunk is there, or the keys have run out. -/
theorem cut_cases {b : ColumnBuilder} {count : Nat} (waits : b.pending ≠ [])
    (admitted : ∀ s ∈ b.pending, b.type.storage.admits s = true) (drawn : Drawn b.keys count)
    (word : count + b.pending.length ≤ 0x10000000000000000) :
    (∃ keys c, b.cut = ({ b with keys, pending := [], chunks := b.chunks ++ [c] }, .ok ()) ∧
      b.type.Takes c b.pending ∧ keys.map KeySource.key = b.keys.map KeySource.key ∧
      Drawn keys (count + b.pending.length)) ∨
    (∃ s, b.keys = some s ∧
      s.key.maxKey + 1 < s.next.toNat + (distinctValues b.pending).length ∧
      b.cut = ({ b with keys := some (.spent s.key) },
        .error (.layout (.keysExhausted s.key.name))) ∧
      (KeySource.spent s.key).Exhausted ∧ ∃ v ∈ b.pending, v ≠ .null) := by
  have wait : ¬b.pending.isEmpty = true := fun h => waits (List.isEmpty_iff.1 h)
  rcases store_cases admitted drawn word with
    ⟨keys, c, hc, takes, width, left⟩ | ⟨s, hk, short, hc, spent, present⟩
  · refine Or.inl ⟨keys, c, ?_, takes, width, left⟩
    rw [cut, if_neg wait, hc]
  · refine Or.inr ⟨s, hk, short, ?_, spent, present⟩
    rw [cut, if_neg wait, hc]

theorem Sound.push {b : ColumnBuilder} {s : StorageValue} (h : Sound t n ss b)
    (hs : t.storage.admits s = true) (word : ss.length < 0x10000000000000000) :
    (∃ d, b.push s = (d, .ok ()) ∧ Sound t n (ss ++ [s]) d) ∨
    (∃ u, b.keys = some u ∧ b.pending.length + 1 = n ∧
      u.key.maxKey + 1 < u.next.toNat + (distinctValues (b.pending ++ [s])).length ∧
      ∃ d, d = { b with pending := b.pending ++ [s], keys := some (.spent u.key) } ∧
        b.push s = (d, .error (.layout (.keysExhausted u.key.name))) ∧ Stuck t n u.key d) := by
  obtain ⟨type, size, pending, chunks, keys⟩ := b
  obtain ⟨rfl, rfl, waiting, before, width, done, takes, rfl, drawn⟩ := h
  dsimp only at waiting before width takes drawn
  have more : (pending ++ [s]).length = pending.length + 1 := by
    rw [List.length_append, List.length_singleton]
  have admitted : ∀ u ∈ pending ++ [s], type.storage.admits u = true := by
    intro u hu
    rcases List.mem_append.1 hu with hu | hu
    · exact before u hu
    · rwa [List.mem_singleton.1 hu]
  rw [ColumnBuilder.push]
  by_cases full : (pending ++ [s]).length = size
  · have words : done.flatten.length + pending.length < 0x10000000000000000 := by
      rwa [List.length_append] at word
    rcases cut_cases (b := ⟨type, size, pending ++ [s], chunks, keys⟩)
      (List.append_ne_nil_of_right_ne_nil _ (List.cons_ne_nil s [])) admitted drawn
      (by dsimp only; omega) with ⟨keys', c, hc, last, same, left⟩ | ⟨u, hk, short, hc, spent, present⟩
    · refine Or.inl ⟨_, (if_pos full).trans hc, rfl, rfl, Nat.zero_lt_of_lt waiting,
        List.forall_mem_nil _, same.trans width, done ++ [pending ++ [s]], ?_, ?_, ?_⟩
      · exact List.rel_append takes (.cons last .nil)
      · simp
      · simpa using left
    · dsimp only at hk
      have key : type.converter.dictKey = some u.key := by
        rw [← width, hk]
        rfl
      refine Or.inr ⟨u, hk, by dsimp only; omega, short, _, rfl, (if_pos full).trans hc, rfl, rfl, key,
        Nat.le_of_eq full.symm, present, rfl, spent⟩
  · have fewer : (pending ++ [s]).length < size := by omega
    refine Or.inl ⟨_, if_neg full, rfl, rfl, fewer, admitted, width, done, takes, ?_, drawn⟩
    rw [List.append_assoc]

theorem Stuck.push {b : ColumnBuilder} (h : Stuck t n k b) (s : StorageValue) :
    ∃ d, b.push s = (d, .ok ()) ∧ Stuck t n k d ∧ d.chunks = b.chunks := by
  obtain ⟨v, hv, there⟩ := h.present
  have more : (b.pending ++ [s]).length = b.pending.length + 1 := by
    rw [List.length_append, List.length_singleton]
  -- Only a chunk of the exact size is cut, and more values wait by now.
  have passed : ¬(b.pending ++ [s]).length = b.chunkSize := by
    have := h.waiting
    have := h.size
    omega
  refine ⟨_, if_neg passed, ⟨h.type, h.size, h.width, ?_, ⟨v, ?_, there⟩, h.keys, h.exhausted⟩, rfl⟩
  · have := h.waiting
    dsimp only
    omega
  · exact List.mem_append_left _ hv

theorem Stuck.finish {b : ColumnBuilder} (h : Stuck t n k b) :
    b.finish = .error (.layout (.keysExhausted k.name)) := by
  obtain ⟨v, hv, there⟩ := h.present
  rw [ColumnBuilder.finish, cut_failed (List.ne_nil_of_mem hv) h.keys
    (KeySource.encode_exhausted h.exhausted _ h.present)]
  rfl

theorem Sound.finish {b : ColumnBuilder} (h : Sound t n ss b)
    (word : ss.length ≤ 0x10000000000000000) :
    (∃ cs pieces, b.finish = .ok cs ∧ List.Forall₂ t.Takes cs pieces ∧ pieces.flatten = ss) ∨
    ∃ k, t.converter.dictKey = some k ∧ b.finish = .error (.layout (.keysExhausted k.name)) := by
  obtain ⟨rfl, rfl, waiting, admitted, width, done, takes, rfl, drawn⟩ := h
  rw [ColumnBuilder.finish]
  by_cases waits : b.pending = []
  · have same : b.cut = (b, .ok ()) := if_pos (List.isEmpty_iff.2 waits)
    rw [same, waits, List.append_nil]
    exact Or.inl ⟨_, done, rfl, takes, rfl⟩
  · rw [List.length_append] at word
    rcases cut_cases waits admitted drawn word with
      ⟨keys, c, hc, last, _⟩ | ⟨u, hk, _, hc, _⟩
    · rw [hc]
      refine Or.inl ⟨_, done ++ [b.pending], rfl, List.rel_append takes (.cons last .nil), ?_⟩
      rw [List.flatten_append, List.flatten_singleton]
    · rw [hc]
      exact Or.inr ⟨u.key, by rw [← width, hk]; rfl, rfl⟩

theorem sound_new {type : DataType} {asked : ValueType} {b : ColumnBuilder}
    (made : new type asked n = .ok b) :
    Sound b.type n [] b := by
  obtain ⟨u, _, positive, _, rfl⟩ := new_eq_ok.1 made
  refine ⟨rfl, rfl, positive, List.forall_mem_nil _, ?_, [], .nil, rfl, ?_⟩
  · rw [Option.map_map]
    exact Option.map_id'
  · intro s hs
    obtain ⟨k, _, rfl⟩ := Option.map_eq_some_iff.1 hs
    exact ⟨Nat.zero_le _, Nat.le_refl 0⟩

end

end ColumnBuilder
end LogicalTable
