import LogicalTable.Columnar.Build
import LogicalTable.Columnar.Tags
import LogicalTable.Dictionary.KeySource

/-! Writing dictionaries. The first row of a value in a chunk holds its key and the value itself,
later rows hold the key alone. -/
namespace LogicalTable

structure DictionaryRow where
  key : Option UInt64
  value : StorageValue
  deriving DecidableEq, Repr

namespace KeySource

/-- The rows of values in order, given the keys of those seen before. Keys that were drawn before a
failure stay drawn. -/
def rows (s : KeySource) (seen : List (StorageValue × UInt64)) :
    List StorageValue → KeySource × Except LayoutError (List DictionaryRow)
  | [] => (s, .ok [])
  | v :: vs =>
    if v.isNull then
      let (s, rest) := s.rows seen vs
      (s, rest.map (⟨none, .null⟩ :: ·))
    else
      match seen.find? (·.1 = v) with
      | some (_, k) =>
        let (s, rest) := s.rows seen vs
        (s, rest.map (⟨some k, .null⟩ :: ·))
      | none =>
        match s.draw with
        | .error e => (s, .error e)
        | .ok (k, s) =>
          let (s, rest) := s.rows ((v, k) :: seen) vs
          (s, rest.map (⟨some k, v⟩ :: ·))

end KeySource

def DictKey.cell (width : DictKey) : Option UInt64 → Cell
  | some k => .integer (k.toNat % (width.maxKey + 1) : Nat)
  | none => .missing

theorem DictKey.admits_cell (width : DictKey) (k : Option UInt64) :
    width.leafType.admits (width.cell k) = true := by
  cases k with
  | none => cases width <;> rfl
  | some k =>
    have h := Nat.mod_lt k.toNat (Nat.succ_pos width.maxKey)
    cases width <;> simp_all [cell, leafType, LeafType.admits, LeafType.bounds?, maxKey] <;> omega

namespace DictionaryRow

def cell (width : DictKey) (value : ArrayType) (r : DictionaryRow) : Cell :=
  .struct r.key.isSome [width.cell r.key, value.store r.value]

theorem admits_cell (width : DictKey) (value : ArrayType) (r : DictionaryRow) :
    (ArrayType.dictionary width value).admits (r.cell width value) = true := by
  simp [ArrayType.dictionary, cell, ArrayType.admits, Field.admitAll, Field.plain, Field.admits,
    DictKey.admits_cell, ArrayType.admits_store]

def slots (width : DictKey) (rows : List DictionaryRow) (values : List Cell) : List Cell :=
  Cell.structs [rows.map fun r => width.cell r.key, values] (rows.map fun r => r.key.isSome)

theorem slots_store (width : DictKey) (value : ArrayType) (rows : List DictionaryRow) :
    slots width rows (rows.map fun r => value.store r.value) = rows.map (cell width value) := by
  unfold slots
  induction rows with
  | nil => rfl
  | cons r rows ih => simpa [Cell.structs, cell] using ih

end DictionaryRow

def Chunk.ofRows (width : DictKey) (value : ArrayType) (rows : List DictionaryRow) :
    Except Error Chunk :=
  match h : value.build (rows.map DictionaryRow.value) with
  | .ok values => .ok ⟨.dictionary width value, DictionaryRow.slots width rows values, by
      rw [value.build_eq_store h, List.map_map]
      intro c hc
      rw [Function.comp_def, DictionaryRow.slots_store] at hc
      obtain ⟨r, _, rfl⟩ := List.mem_map.1 hc
      exact r.admits_cell width value⟩
  | .error e => .error e

theorem Chunk.ofRows_of_build {width : DictKey} {value : ArrayType} {rows : List DictionaryRow}
    {values : List Cell} (h : value.build (rows.map DictionaryRow.value) = .ok values) :
    ∃ c, Chunk.ofRows width value rows = .ok c ∧ c.type = .dictionary width value ∧
      c.cells = rows.map (DictionaryRow.cell width value) := by
  have stored := value.build_eq_store h
  rw [List.map_map] at stored
  unfold Chunk.ofRows
  split
  · next cs hc =>
    cases h.symm.trans hc
    have slots : DictionaryRow.slots width rows values =
        rows.map (DictionaryRow.cell width value) := by
      rw [stored]
      exact DictionaryRow.slots_store width value rows
    exact ⟨_, rfl, rfl, slots⟩
  · next e he => cases h.symm.trans he

def KeySource.encode (s : KeySource) (value : ArrayType) (vs : List StorageValue) :
    KeySource × Except Error Chunk :=
  match s.rows [] vs with
  | (s, .error e) => (s, .error (.layout e))
  | (s, .ok rows) => (s, Chunk.ofRows s.key value rows)

end LogicalTable
