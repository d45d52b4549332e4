import LogicalTable.LogicalColumn.Builder
import LogicalTable.Proofs.LogicalColumn.Pieces
import LogicalTable.Proofs.LogicalColumn.Views
import LogicalTable.Registry.Factory
import Mathlib.Data.List.Forall2

/-! Columns that are built value by value. However large the chunks are, they hold what was added,
as long as the keys last. -/
namespace LogicalTable

/-- What a logical type stores for a value that its factory takes there and back, or for a missing
one. -/
inductive LogicalType.Stores (t : LogicalType) : Option Value → StorageValue → Prop where
  | missing : Stores t none .null
  | value {v : Value} {s : StorageValue} (typed : v.type = t.converter.valueType)
      (encoded : t.converter.factory.encode v = .ok s) (there : s ≠ .null)
      (registered : t.converter.storage.admits s = true) (admitted : t.storage.admits s = true)
      (decoded : t.converter.factory.decode s = .ok v) : Stores t (some v) s

namespace LogicalType.Stores

variable {t : LogicalType} {x : Option Value} {s : StorageValue}

theorem admits (h : t.Stores x s) : t.storage.admits s = true := by
  cases h with
  | missing => exact t.storage.admits_null
  | value _ _ _ _ admitted _ => exact admitted

theorem isNone_eq (h : t.Stores x s) : x.isNone = s.isNull := by
  cases h with
  | missing => rfl
  | value _ _ there _ _ _ =>
    exact (Bool.eq_false_iff.2 fun h => there (StorageValue.isNull_iff.1 h)).symm

theorem decode?_eq (h : t.Stores x s) : t.decode? s = .ok x := by
  have absent := h.isNone_eq
  cases h with
  | missing => rfl
  | value _ _ _ _ _ decoded =>
    rw [decode?, ← absent, Converter.decode_own, decoded]
    rfl

theorem append_eq {b : ColumnBuilder} (h : b.type.Stores x s) : b.append x = b.push s := by
  cases h with
  | missing => rfl
  | @value v _ typed encoded _ registered _ _ =>
    have stored : b.type.converter.encode v = .ok s := by
      rw [Converter.encode, Converter.checkType, if_pos typed.symm, ok_bind, Converter.encodeAny,
        if_neg (not_not_intro typed)]
      exact bind_eq_ok.2 ⟨s, encoded, if_pos registered⟩
    rw [ColumnBuilder.append, stored]

end LogicalType.Stores

namespace ColumnBuilder

/-- Whether so many keys are left, if any are drawn at all. -/
def KeysLeft (keys : Option KeySource) (count : Nat) : Prop :=
  ∀ s, keys = some s → s.next.toNat + count ≤ s.key.maxKey

theorem store_eq {b : ColumnBuilder} {count : Nat}
    (admitted : ∀ s ∈ b.pending, b.type.storage.admits s = true)
    (left : KeysLeft b.keys ((distinctValues b.pending).length + count)) :
    ∃ keys c, b.store = (keys, .ok c) ∧ b.type.Takes c b.pending ∧ KeysLeft keys count := by
  rw [store]
  cases hk : b.keys with
  | none =>
    obtain ⟨c, hc, takes⟩ := LogicalType.takes_build admitted
    exact ⟨none, c, by rw [hc], takes, nofun⟩
  | some s =>
    have room := left s hk
    obtain ⟨c, hc, takes⟩ := LogicalType.takes_encode (s := s) admitted (by omega)
    refine ⟨_, c, by dsimp only; rw [hc], takes, ?_⟩
    intro _ h
    cases h
    have word := s.key.maxKey_lt
    dsimp only
    rw [UInt64.toNat_ofNat', Nat.mod_eq_of_lt (by omega)]
    omega

theorem cut_eq {b : ColumnBuilder} {count : Nat} (waits : b.pending ≠ [])
    (admitted : ∀ s ∈ b.pending, b.type.storage.admits s = true)
    (left : KeysLeft b.keys ((distinctValues b.pending).length + count)) :
    ∃ keys c, b.cut = ({ b with keys, pending := [], chunks := b.chunks ++ [c] }, .ok ()) ∧
      b.type.Takes c b.pending ∧ KeysLeft keys count := by
  obtain ⟨keys, c, hc, takes, left⟩ := store_eq admitted left
  refine ⟨keys, c, ?_, takes, left⟩
  rw [cut, if_neg fun h => waits (List.isEmpty_iff.1 h), hc]

/-- The state of a builder that has `rest` still to add. What it has cut and what is to come make up
the pieces of all values. -/
structure Progress (t : LogicalType) (n : Nat) (pieces : List (List StorageValue))
    (rest : List StorageValue) (b : ColumnBuilder) : Prop where
  type : b.type = t
  size : b.chunkSize = n
  waiting : b.pending.length < n
  admitted : ∀ s ∈ b.pending, t.storage.admits s = true
  left : KeysLeft b.keys (keysNeeded (cutEvery n (b.pending ++ rest)))
  cut : ∃ done, List.Forall₂ t.Takes b.chunks done ∧
    done ++ cutEvery n (b.pending ++ rest) = pieces

section

variable {t : LogicalType} {n : Nat} {pieces : List (List StorageValue)}

theorem Progress.push {b : ColumnBuilder} {s : StorageValue} {rest : List StorageValue}
    (h : Progress t n pieces (s :: rest) b) (hs : t.storage.admits s = true) :
    ∃ d, b.push s = (d, .ok ()) ∧ Progress t n pieces rest d := by
  obtain ⟨type, size, pending, chunks, keys⟩ := b
  obtain ⟨rfl, rfl, waiting, before, left, done, takes, cut⟩ := h
  dsimp only at waiting before left takes cut
  have admitted : ∀ u ∈ pending ++ [s], type.storage.admits u = true := by
    intro u hu
    rcases List.mem_append.1 hu with hu | hu
    · exact before u hu
    · rwa [List.mem_singleton.1 hu]
  rw [List.append_cons] at left cut
  rw [ColumnBuilder.push]
  -- The value fills a chunk, which is cut and takes the first piece, or it waits with the others.
  by_cases full : (pending ++ [s]).length = size
  · have pos : 0 < size := Nat.zero_lt_of_lt waiting
    rw [cutEvery_append pos full] at left cut
    obtain ⟨keys', c, hc, last, left⟩ := cut_eq (b := ⟨type, size, pending ++ [s], chunks, keys⟩)
      (List.append_ne_nil_of_right_ne_nil _ (List.cons_ne_nil s [])) admitted left
    refine ⟨_, (if_pos full).trans hc, rfl, rfl, pos, nofun, left, done ++ [pending ++ [s]], ?_, ?_⟩
    · exact List.rel_append takes (.cons last .nil)
    · rw [← cut, List.append_assoc]
      rfl
  · have fewer : (pending ++ [s]).length < size := by
      rw [List.length_append, List.length_singleton] at full ⊢
      omega
    exact ⟨_, if_neg full, rfl, rfl, fewer, admitted, left, done, takes, cut⟩

theorem Progress.extend {b : ColumnBuilder} {xs : List (Option Value)} {ss : List StorageValue}
    (stored : List.Forall₂ t.Stores xs ss) (h : Progress t n pieces ss b) :
    ∃ d, b.extend xs = (d, .ok ()) ∧ Progress t n pieces [] d := by
  induction stored generalizing b with
  | nil => exact ⟨b, rfl, h⟩
  | cons head _ ih =>
    obtain ⟨d, hd, progress⟩ := h.push head.admits
    obtain ⟨e, he, progress⟩ := ih progress
    have added := (h.type ▸ head).append_eq (b := b)
    refine ⟨e, ?_, progress⟩
    rw [ColumnBuilder.extend, added, hd]
    exact he

theorem Progress.finish {b : ColumnBuilder} (h : Progress t n pieces [] b) :
    ∃ cs, b.finish = .ok cs ∧ List.Forall₂ t.Takes cs pieces := by
  obtain ⟨rfl, rfl, waiting, admitted, left, done, takes, rfl⟩ := h
  rw [List.append_nil] at left ⊢
  rw [ColumnBuilder.finish]
  by_cases waits : b.pending = []
  · have same : b.cut = (b, .ok ()) := if_pos (List.isEmpty_iff.2 waits)
    rw [same, waits, cutEvery_nil (Nat.zero_lt_of_lt waiting), List.append_nil]
    exact ⟨_, rfl, takes⟩
  · rw [cutEvery_short waits (Nat.le_of_lt waiting)] at left ⊢
    obtain ⟨keys, c, hc, last, _⟩ := cut_eq waits admitted left
    rw [hc]
    exact ⟨_, rfl, List.rel_append takes (.cons last .nil)⟩

end

section

variable (t : LogicalType) {n : Nat} (pos : 0 < n)
include pos

theorem new_cases : new t.dataType t.converter.valueType n =
    if maxChunkSize < n then .error .capacityOverflow
    else .ok ⟨t, n, [], [], t.converter.dictKey.map .fresh⟩ := by
  have attached : LogicalType.of t.dataType t.converter.valueType = .ok t :=
    LogicalType.of_eq_ok.2 ⟨rfl, rfl⟩
  rw [new, if_neg (Nat.ne_of_gt pos), attached]
  rfl

theorem new_eq (room : n ≤ maxChunkSize) : new t.dataType t.converter.valueType n =
    .ok ⟨t, n, [], [], t.converter.dictKey.map .fresh⟩ :=
  (new_cases t pos).trans (if_neg (Nat.not_lt.2 room))

end

/-- There is a builder for a type that is logical and has a converter for the values asked for, as long
as a chunk has rows and there is room for them. -/
theorem new_eq_ok {t : DataType} {asked : ValueType} {n : Nat} {b : ColumnBuilder} :
    new t asked n = .ok b ↔
      ∃ u : LogicalType, (t = u.dataType ∧ u.converter.valueType = asked) ∧ 0 < n ∧ n ≤ maxChunkSize ∧
        b = ⟨u, n, [], [], u.converter.dictKey.map .fresh⟩ := by
  constructor
  · intro made
    rw [new] at made
    split at made
    · cases made
    · next rows =>
      obtain ⟨u, attached, made⟩ := bind_eq_ok.1 made
      split at made
      · cases made
      · next room =>
        cases made
        exact ⟨u, LogicalType.of_eq_ok.1 attached, Nat.pos_of_ne_zero rows, Nat.not_lt.1 room, rfl⟩
  · rintro ⟨u, ⟨rfl, rfl⟩, pos, room, rfl⟩
    exact new_eq u pos room

/-- The chunks at the end of a builder make up a column. -/
theorem column_eq {t : LogicalType} {b : ColumnBuilder} {cs : List Chunk}
    {pieces : List (List StorageValue)} (type : b.type = t) (finished : b.finish = .ok cs)
    (takes : List.Forall₂ t.Takes cs pieces) : ∃ c, b.column = .ok c ∧ c.type = t ∧
      List.Forall₂ ColumnChunk.Holds c.chunks pieces := by
  obtain ⟨views, made, holds⟩ := LogicalColumn.chunksFrom_eq takes 0
  refine ⟨.ofViews t views, ?_, rfl, holds⟩
  rw [column, finished, ok_bind, type]
  exact LogicalColumn.ofChunks_eq_ok.2 ⟨rfl, rfl, made⟩

theorem progress_new {t : LogicalType} {n : Nat} {ss : List StorageValue} (pos : 0 < n)
    (room : ∀ k, t.converter.dictKey = some k → keysNeeded (cutEvery n ss) ≤ k.maxKey) :
    Progress t n (cutEvery n ss) ss ⟨t, n, [], [], t.converter.dictKey.map .fresh⟩ where
  type := rfl
  size := rfl
  waiting := pos
  admitted := nofun
  left := by
    intro s hs
    obtain ⟨k, hk, rfl⟩ := Option.map_eq_some_iff.1 hs
    have := room k hk
    simpa [KeySource.fresh] using this
  cut := ⟨[], .nil, rfl⟩

end ColumnBuilder

namespace LogicalColumn

variable {t : LogicalType} {c : LogicalColumn} {vss : List (List StorageValue)}
  {xs : List (Option Value)}

theorem mapM_decode? {ss : List StorageValue} (stored : List.Forall₂ t.Stores xs ss) :
    ss.mapM t.decode? = .ok xs := by
  have decoded : List.Forall₂ (fun x s => t.decode? s = .ok x) xs ss :=
    stored.imp fun _ _ here => here.decode?_eq
  exact mapM_of_forall₂ decoded.flip

theorem get_stored (h : List.Forall₂ ColumnChunk.Holds c.chunks vss)
    (stored : List.Forall₂ c.type.Stores xs vss.flatten) {i : Nat} (hi : i < xs.length) :
    c.get i = .ok xs[i] ∧ c.isMissing i = .ok xs[i].isNone := by
  have hs : i < vss.flatten.length := stored.length_eq ▸ hi
  have here : c.type.Stores xs[i] vss.flatten[i] := stored.get hi hs
  obtain ⟨chunk, row, found, read, missing⟩ := locateIn_eq h hs
  have place : c.locate i = .ok (chunk, row) := by
    rw [locate_eq_locateIn, found]
  constructor
  · rw [get, LogicalColumn.read, place, ok_bind]
    dsimp only
    rw [read]
    exact here.decode?_eq
  · rw [isMissing, place, here.isNone_eq, ← missing]
    rfl

theorem get_beyond (h : List.Forall₂ ColumnChunk.Holds c.chunks vss) {i : Nat}
    (hi : vss.flatten.length ≤ i) :
    c.get i = .error (.layout (.columnRange i vss.flatten.length)) := by
  have size : c.size = vss.flatten.length := size_eq h
  rw [← size]
  rw [← size] at hi
  exact (fails_beyond hi).2.2

end LogicalColumn

/-- A column that is built value by value gives back the values, whatever the size of its chunks, if room
for the values of a chunk can be asked for. Of larger chunks there is no builder. If the column is stored
as dictionaries, there have to be keys for the distinct values of every chunk. -/
theorem ColumnBuilder.column_extend {t : LogicalType} {n : Nat} {xs : List (Option Value)}
    {ss : List StorageValue} (pos : 0 < n) (stored : List.Forall₂ t.Stores xs ss)
    (room : ∀ k, t.converter.dictKey = some k → keysNeeded (cutEvery n ss) ≤ k.maxKey) :
    (n ≤ maxChunkSize →
      ∃ b d c, ColumnBuilder.new t.dataType t.converter.valueType n = .ok b ∧
        b.extend xs = (d, .ok ()) ∧ d.column = .ok c ∧
        c.size = xs.length ∧ c.chunks.length = (xs.length + n - 1) / n ∧
        (∀ i (_ : i + 1 < c.chunks.length), c.chunks[i].size = n) ∧
        c.decodeAll = .ok xs ∧
        (∀ i (_ : i < xs.length), c.get i = .ok xs[i] ∧ c.isMissing i = .ok xs[i].isNone) ∧
        ∀ i, xs.length ≤ i → c.get i = .error (.layout (.columnRange i xs.length))) ∧
    (maxChunkSize < n →
      ColumnBuilder.new t.dataType t.converter.valueType n = .error .capacityOverflow) := by
  refine ⟨fun fits => ?_, fun large => (new_cases t pos).trans (if_pos large)⟩
  obtain ⟨d, hd, progress⟩ := (progress_new pos room).extend stored
  obtain ⟨cs, hcs, takes⟩ := progress.finish
  obtain ⟨c, column, type, holds⟩ := column_eq progress.type hcs takes
  have rows : ss.length = xs.length := stored.length_eq.symm
  have all : (cutEvery n ss).flatten = ss := flatten_cutEvery pos ss
  have stored' : List.Forall₂ c.type.Stores xs (cutEvery n ss).flatten := by
    rwa [type, all]
  refine ⟨_, d, c, new_eq t pos fits, hd, column, ?_, ?_, ?_, ?_,
    fun i hi => LogicalColumn.get_stored holds stored' hi, fun i hi => ?_⟩
  · rw [LogicalColumn.size_eq holds, all, rows]
  · rw [holds.length_eq, length_cutEvery, rows]
  · intro i hi
    have full : i + 1 < (cutEvery n ss).length := holds.length_eq ▸ hi
    have held := holds.get (Nat.lt_of_succ_lt hi) (Nat.lt_of_succ_lt full)
    exact held.size.trans (length_getElem_cutEvery pos full)
  · rw [LogicalColumn.decodeAll_eq holds, LogicalColumn.mapM_decode? stored']
  · rw [LogicalColumn.get_beyond holds (by rwa [all, rows]), all, rows]

/-- Days, which columns encode by a dictionary. -/
def LogicalType.day : LogicalType := ⟨"day", .int64, .mk "day" .int64 (some .byte) .date⟩

theorem LogicalType.stores_epoch :
    LogicalType.day.Stores (some (.date ⟨1970, 1, 1, by decide⟩)) (.long 0) :=
  .value rfl rfl (by decide) rfl rfl rfl

theorem ColumnBuilder.column_extend_days :
    let leap : Value := .date ⟨2024, 2, 29, by decide⟩
    let epoch : Value := .date ⟨1970, 1, 1, by decide⟩
    let xs := [some leap, none, some epoch, some leap, some leap]
    ∃ b d c, ColumnBuilder.new LogicalType.day.dataType LogicalType.day.converter.valueType 2 = .ok b ∧
      b.extend xs = (d, .ok ()) ∧ d.column = .ok c ∧
      c.size = xs.length ∧ c.chunks.length = (xs.length + 2 - 1) / 2 ∧
      (∀ i (_ : i + 1 < c.chunks.length), c.chunks[i].size = 2) ∧
      c.decodeAll = .ok xs ∧
      (∀ i (_ : i < xs.length), c.get i = .ok xs[i] ∧ c.isMissing i = .ok xs[i].isNone) ∧
      ∀ i, xs.length ≤ i → c.get i = .error (.layout (.columnRange i xs.length)) := by
  intro leap epoch xs
  have stored : List.Forall₂ LogicalType.day.Stores xs
      [.long 19782, .null, .long 0, .long 19782, .long 19782] := by
    have leaps : LogicalType.day.Stores (some leap) (.long 19782) :=
      .value rfl rfl (by decide) rfl rfl rfl
    exact .cons leaps (.cons .missing (.cons LogicalType.stores_epoch (.cons leaps (.cons leaps .nil))))
  refine (ColumnBuilder.column_extend (by decide) stored ?_).1 (by decide)
  rintro _ ⟨⟩
  decide

/-- A day needs one key in a chunk, but no room can be asked for that takes as many values as there are
words. -/
theorem ColumnBuilder.new_overflows :
    let xs : List (Option Value) := [some (.date ⟨1970, 1, 1, by decide⟩)]
    List.Forall₂ LogicalType.day.Stores xs [.long 0] ∧
      keysNeeded (cutEvery 0xffffffffffffffff [.long 0]) ≤ DictKey.byte.maxKey ∧
      ColumnBuilder.new LogicalType.day.dataType LogicalType.day.converter.valueType
        0xffffffffffffffff = .error .capacityOverflow := by
  refine ⟨.cons LogicalType.stores_epoch .nil, ?_, (new_cases .day (by decide)).trans (if_pos (by decide))⟩
  rw [cutEvery_short (List.cons_ne_nil _ _) (by decide)]
  decide

end LogicalTable
