import LogicalTable.Proofs.Columnar.StorageRoundTrip
import LogicalTable.Proofs.Dictionary.FirstRows
import LogicalTable.Proofs.Dictionary.Keys
import Mathlib.Data.List.Basic

/-! The slots of encoded chunks, and the dictionaries that reading makes of them. The first row of a
key is the first row of its value. -/
namespace LogicalTable

theorem beq_map [BEq α] [LawfulBEq α] [BEq β] [LawfulBEq β] {f : α → β} {a b : α}
    (h : f a = f b → a = b) : (f a == f b) = (a == b) := by
  apply Bool.eq_iff_iff.2
  rw [beq_iff_eq, beq_iff_eq]
  exact ⟨h, congrArg f⟩

/-- A list that is mapped without mixing up a value with others has it at the same place. -/
theorem idxOf_map [BEq α] [LawfulBEq α] [BEq β] [LawfulBEq β] {f : α → β} {a : α} :
    ∀ {as : List α}, (∀ b ∈ as, f b = f a → b = a) → (as.map f).idxOf (f a) = as.idxOf a
  | [], _ => rfl
  | b :: as, h => by
    obtain ⟨hb, has⟩ := List.forall_mem_cons.1 h
    rw [List.map_cons, List.idxOf_cons, List.idxOf_cons, idxOf_map has, beq_map hb]

theorem eraseDups_map [BEq α] [LawfulBEq α] [BEq β] [LawfulBEq β] {f : α → β} : ∀ (as : List α),
    (∀ a ∈ as, ∀ b ∈ as, f a = f b → a = b) → (as.map f).eraseDups = as.eraseDups.map f
  | [], _ => rfl
  | a :: as, inj => by
    have same : as.filter ((fun b => !b == f a) ∘ f) = as.filter fun b => !b == a := by
      apply List.filter_congr
      intro b hb
      exact congrArg not (beq_map (inj b (List.mem_cons_of_mem a hb) a List.mem_cons_self))
    have fewer : (as.filter fun b => !b == a).length < as.length + 1 :=
      Nat.lt_succ_of_le (List.length_filter_le _ _)
    rw [List.map_cons, List.eraseDups_cons, List.eraseDups_cons, List.map_cons, List.filter_map,
      same, eraseDups_map (as.filter fun b => !b == a)]
    intro b hb c hc
    exact inj b (List.mem_cons_of_mem a (List.mem_filter.1 hb).1) c
      (List.mem_cons_of_mem a (List.mem_filter.1 hc).1)
termination_by as => as.length

theorem nodup_eraseDups [BEq α] [LawfulBEq α] : ∀ as : List α, as.eraseDups.Nodup
  | [] => List.nodup_nil
  | a :: as => by
    have fewer : (as.filter fun b => !b == a).length < as.length + 1 :=
      Nat.lt_succ_of_le (List.length_filter_le _ _)
    rw [List.eraseDups_cons, List.nodup_cons]
    refine ⟨?_, nodup_eraseDups _⟩
    simp [List.mem_eraseDups]
termination_by as => as.length

theorem Shape.isMissing_store (s : Shape) {v : StorageValue} (h : s.admits v = true) :
    (s.arrayType.store v).isMissing = v.isNull := by
  cases s with
  | primitive p =>
    cases v with
    | null => cases p <;> rfl
    | _ => cases p <;> first | rfl | cases h
  | list t =>
    cases v with
    | null => rfl
    | list vs => rfl
    | _ => cases h
  | struct ts =>
    cases v with
    | null => rfl
    | struct vs => rfl
    | _ => cases h

/-- The slot of an admitted value is marked as missing just for the missing value. -/
theorem DataType.isMissing_store (t : DataType) {v : StorageValue} (h : t.admits v = true) :
    (t.arrayType.store v).isMissing = v.isNull := by
  cases t with
  | plain s => exact s.isMissing_store h
  | logical _ s _ => exact s.isMissing_store h

theorem DictionaryRow.key?_cell (width : DictKey) (value : ArrayType) (r : DictionaryRow) :
    (r.cell width value).key? = r.key.map fun k => ((k.toNat % (width.maxKey + 1) : Nat) : Int) := by
  obtain ⟨key, v⟩ := r
  cases key with
  | none => rfl
  | some k => rfl

namespace KeySource

/-- The key of a value as a number; none for the missing value. -/
def number? (start : Nat) (all : List StorageValue) (v : StorageValue) : Option Int :=
  if v.isNull then none else some (start + (distinctValues all).idxOf v : Nat)

theorem number?_inj {start : Nat} {all : List StorageValue} {v w : StorageValue}
    (hn : v ≠ .null) (hw : w ∈ all) (h : number? start all w = number? start all v) : w = v := by
  have present : ∀ u : StorageValue, u ≠ .null → ¬ u.isNull = true :=
    fun u hu h => hu (StorageValue.isNull_iff.1 h)
  by_cases hw' : w = .null
  · rw [hw', number?, number?, if_neg (present v hn)] at h
    cases h
  · rw [number?, number?, if_neg (present w hw'), if_neg (present v hn)] at h
    have same : (distinctValues all).idxOf w = (distinctValues all).idxOf v := by
      have := Int.ofNat.inj (Option.some.inj h)
      omega
    exact (List.idxOf_inj (mem_distinctValues.2 ⟨hw, hw'⟩)).1 same

/-- Even if the counter wraps, there are as many keys as words. -/
theorem code_inj {start : Nat} {all : List StorageValue} {v w : StorageValue}
    (few : (distinctValues all).length ≤ 0x10000000000000000) (hv : v ∈ all) (nv : v ≠ .null)
    (hw : w ∈ all) (nw : w ≠ .null) (h : code start all v = code start all w) : v = w := by
  have placed : v ∈ distinctValues all := mem_distinctValues.2 ⟨hv, nv⟩
  have first := List.idxOf_lt_length_of_mem placed
  have second := List.idxOf_lt_length_of_mem (mem_distinctValues.2 ⟨hw, nw⟩)
  have words := congrArg UInt64.toNat h
  rw [code, code, UInt64.toNat_ofNat', UInt64.toNat_ofNat'] at words
  exact (List.idxOf_inj placed).1 (by omega)

theorem value_rowAt (start : Nat) (all : List StorageValue) (i : Nat) (v : StorageValue) :
    (rowAt start all i v).value = if all.idxOf v = i then v else .null := by
  rw [rowAt]
  by_cases h : v.isNull = true
  · rw [if_pos h, StorageValue.isNull_iff.1 h, ite_self]
  · rw [if_neg h]

/-- While the width lasts, keys are not cut. -/
theorem key?_rowAt {start : Nat} {width : DictKey} {all : List StorageValue} {v : StorageValue}
    (room : start + (distinctValues all).length ≤ width.maxKey + 1) (hv : v ∈ all) (i : Nat)
    (value : ArrayType) :
    ((rowAt start all i v).cell width value).key? = number? start all v := by
  rw [DictionaryRow.key?_cell, rowAt, number?]
  by_cases h : v.isNull = true
  · rw [if_pos h, if_pos h]
    rfl
  · have there : v ∈ distinctValues all :=
      mem_distinctValues.2 ⟨hv, fun e => h (StorageValue.isNull_iff.2 e)⟩
    have place := List.idxOf_lt_length_of_mem there
    have word := width.maxKey_lt
    have whole : (code start all v).toNat % (width.maxKey + 1) =
        start + (distinctValues all).idxOf v := by
      rw [code, UInt64.toNat_ofNat', Nat.mod_eq_of_lt (by omega), Nat.mod_eq_of_lt (by omega)]
    rw [if_neg h, if_neg h, Option.map_some, whole]

def encodedCells (start : Nat) (width : DictKey) (value : ArrayType) (vs : List StorageValue) :
    List Cell :=
  (vs.mapIdx (rowAt start vs)).map (DictionaryRow.cell width value)

theorem map_key?_encodedCells {start : Nat} {width : DictKey} {vs : List StorageValue}
    (room : start + (distinctValues vs).length ≤ width.maxKey + 1) (value : ArrayType) :
    (encodedCells start width value vs).map Cell.key? = vs.map (number? start vs) := by
  apply List.ext_getElem
  · simp [encodedCells]
  · intro i hi _
    have inside : i < vs.length := by
      simpa [encodedCells] using hi
    simp only [encodedCells, List.getElem_map, List.getElem_mapIdx]
    exact key?_rowAt room (List.getElem_mem inside) i value

/-- The first row with the key of a value is the first row of the value. -/
theorem firstRow_encodedCells {start : Nat} {width : DictKey} {vs : List StorageValue}
    (room : start + (distinctValues vs).length ≤ width.maxKey + 1) (value : ArrayType)
    {v : StorageValue} (hn : v ≠ .null) {k : Int}
    (hk : number? start vs v = some k) :
    Dictionary.firstRow (encodedCells start width value vs) k = vs.idxOf v := by
  rw [Dictionary.firstRow, map_key?_encodedCells room, ← hk]
  exact idxOf_map fun w hw h => number?_inj hn hw h

/-- Encoding succeeds as long as there are keys, and gives these slots. -/
theorem encode_eq {s : KeySource} {t : DataType} {vs : List StorageValue}
    (admitted : ∀ v ∈ vs, t.admits v = true)
    (room : s.next.toNat + (distinctValues vs).length ≤ s.key.maxKey + 1) :
    ∃ c, s.encode t.arrayType vs =
        ({ s with next := UInt64.ofNat (s.next.toNat + (distinctValues vs).length) }, .ok c) ∧
      c.type = .dictionary s.key t.arrayType ∧
      c.cells = encodedCells s.next.toNat s.key t.arrayType vs := by
  have stored : ∀ v ∈ (vs.mapIdx (rowAt s.next.toNat vs)).map DictionaryRow.value,
      t.admits v = true := by
    intro v hv
    obtain ⟨r, hr, rfl⟩ := List.mem_map.1 hv
    obtain ⟨i, hi, rfl⟩ := List.mem_mapIdx.1 hr
    rw [value_rowAt]
    by_cases first : vs.idxOf vs[i] = i
    · rw [if_pos first]
      exact admitted _ (List.getElem_mem hi)
    · rw [if_neg first]
      exact t.admits_null
  obtain ⟨c, hc, type, slots⟩ := Chunk.ofRows_of_build ((t.build_settles _).success stored)
  refine ⟨c, ?_, type, ?_⟩
  · rw [encode, rows_eq_mapIdx room]
    dsimp only
    rw [hc]
  · exact slots

end KeySource

open KeySource (rowAt encodedCells number?)

/-- The first row of a value, which is where it stands; none for the missing value. -/
def firstRow? (vs : List StorageValue) (v : StorageValue) : Option Nat :=
  if v.isNull then none else some (vs.idxOf v)

section Chunk

variable {start : Nat} {width : DictKey} {t : DataType} {vs : List StorageValue}

theorem length_encodedCells (value : ArrayType) :
    (encodedCells start width value vs).length = vs.length := by
  rw [encodedCells, List.length_map, List.length_mapIdx]

theorem getElem_encodedCells (value : ArrayType) {i : Nat} (h : i < vs.length)
    (hc : i < (encodedCells start width value vs).length) :
    (encodedCells start width value vs)[i] = (rowAt start vs i vs[i]).cell width value := by
  simp only [encodedCells, List.getElem_map, List.getElem_mapIdx]

theorem positionOf_encodedCells (room : start + (distinctValues vs).length ≤ width.maxKey + 1)
    (value : ArrayType) {i : Nat} (h : i < vs.length) :
    Dictionary.positionOf (encodedCells start width value vs)
      ((rowAt start vs i vs[i]).cell width value) = firstRow? vs vs[i] := by
  rw [Dictionary.positionOf, KeySource.key?_rowAt room (List.getElem_mem h), firstRow?]
  cases hk : number? start vs vs[i] with
  | none =>
    rw [number?] at hk
    by_cases hn : vs[i].isNull = true
    · rw [if_pos hn]
      rfl
    · rw [if_neg hn] at hk
      cases hk
  | some k =>
    by_cases hn : vs[i].isNull = true
    · rw [number?, if_pos hn] at hk
      cases hk
    · have hv : vs[i] ≠ .null := fun e => hn (StorageValue.isNull_iff.2 e)
      rw [if_neg hn, Option.map_some, KeySource.firstRow_encodedCells room value hv hk]

/-- Every row that is there has a key, and its first row has the value. -/
theorem rowUsable_encodedCells (room : start + (distinctValues vs).length ≤ width.maxKey + 1)
    (admitted : ∀ v ∈ vs, t.admits v = true) {i : Nat} (h : i < vs.length) :
    Dictionary.RowUsable t.arrayType (encodedCells start width t.arrayType vs) i
      ((rowAt start vs i vs[i]).cell width t.arrayType) := by
  by_cases hn : vs[i].isNull = true
  · left
    rw [rowAt, if_pos hn]
    rfl
  · right
    have hv : vs[i] ≠ .null := fun e => hn (StorageValue.isNull_iff.2 e)
    have number : number? start vs vs[i] = some _ := if_neg hn
    have key := KeySource.key?_rowAt room (List.getElem_mem h) i t.arrayType
    rw [number] at key
    refine ⟨_, (Cell.key?_eq_some.1 key).2, fun first => ?_⟩
    rw [KeySource.firstRow_encodedCells room t.arrayType hv number] at first
    have value : (rowAt start vs i vs[i]).value = vs[i] :=
      (KeySource.value_rowAt start vs i vs[i]).trans (if_pos first)
    have stored : ((rowAt start vs i vs[i]).cell width t.arrayType).member 1 =
        t.arrayType.store vs[i] := congrArg t.arrayType.store value
    rw [Dictionary.lacks, stored, t.isMissing_store (admitted _ (List.getElem_mem h)),
      Bool.eq_false_iff.2 hn, Bool.and_false]

theorem ofChunk_eq {c : Chunk} (type : c.type = .dictionary width t.arrayType)
    (slots : c.cells = encodedCells start width t.arrayType vs)
    (room : start + (distinctValues vs).length ≤ width.maxKey + 1)
    (admitted : ∀ v ∈ vs, t.admits v = true) :
    Dictionary.ofChunk c = .ok ⟨c, t.arrayType, vs.map (firstRow? vs)⟩ := by
  have usable : ∀ i (h : i < (encodedCells start width t.arrayType vs).length),
      Dictionary.RowUsable t.arrayType (encodedCells start width t.arrayType vs) i
        (encodedCells start width t.arrayType vs)[i] := by
    intro i hi
    have h : i < vs.length := (length_encodedCells t.arrayType) ▸ hi
    rw [getElem_encodedCells t.arrayType h hi]
    exact rowUsable_encodedCells room admitted h
  have positions : (encodedCells start width t.arrayType vs).map
      (Dictionary.positionOf (encodedCells start width t.arrayType vs)) = vs.map (firstRow? vs) := by
    apply List.ext_getElem
    · rw [List.length_map, List.length_map, length_encodedCells]
    · intro i hi hv
      have h : i < vs.length := (List.length_map _) ▸ hv
      have hc : i < (encodedCells start width t.arrayType vs).length := (List.length_map _) ▸ hi
      rw [List.getElem_map, List.getElem_map, getElem_encodedCells t.arrayType h hc]
      exact positionOf_encodedCells room t.arrayType h
  have parts : c.type.dictionaryParts = .ok (width, Field.plain "1" t.arrayType) := by
    rw [type, ArrayType.dictionaryParts_dictionary]
  have settles := Dictionary.ofChunk_settles parts
  rw [slots, positions] at settles
  exact settles.success usable

/-- Values that are admitted are encoded as a dictionary that can be read, as long as there are
keys. -/
theorem KeySource.encode_readable {s : KeySource} (admitted : ∀ v ∈ vs, t.admits v = true)
    (room : s.next.toNat + (distinctValues vs).length ≤ s.key.maxKey + 1) :
    ∃ c, s.encode t.arrayType vs =
        ({ s with next := UInt64.ofNat (s.next.toNat + (distinctValues vs).length) }, .ok c) ∧
      c.type = .dictionary s.key t.arrayType ∧ c.size = vs.length ∧
      c.cells = encodedCells s.next.toNat s.key t.arrayType vs ∧
      Dictionary.ofChunk c = .ok ⟨c, t.arrayType, vs.map (firstRow? vs)⟩ := by
  obtain ⟨c, hc, type, slots⟩ := encode_eq admitted room
  have size : c.size = vs.length := by
    rw [Chunk.size, slots, length_encodedCells]
  exact ⟨c, hc, type, size, slots, ofChunk_eq type slots room admitted⟩

end Chunk
end LogicalTable
