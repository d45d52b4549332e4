import LogicalTable.Proofs.Columnar.Readable
import LogicalTable.Proofs.Dictionary.Lossless
import Mathlib.Data.Finset.Card

/-! What reading makes of a dictionary of any writer, said by its rows alone. It is taken just if each
row that is there has a key and each key a value where it is used first. -/
namespace LogicalTable

theorem idxOf_getElem_le [BEq α] [LawfulBEq α] {as : List α} {i : Nat} (h : i < as.length) :
    as.idxOf as[i] ≤ i := by
  by_contra later
  have before : i < as.findIdx (· == as[i]) := Nat.lt_of_not_le later
  have other := List.not_of_lt_findIdx before
  simp at other

theorem length_eraseDups [DecidableEq α] (as : List α) : as.eraseDups.length = as.toFinset.card := by
  rw [← List.toFinset_card_of_nodup (nodup_eraseDups as)]
  congr 1
  ext a
  simp [List.mem_eraseDups]

namespace Chunk

/-- Whether a key is used in a row, and in none before it. -/
def FirstOf (c : Chunk) (k : Int) (row : Nat) : Prop :=
  c.key? row = some k ∧ ∀ j < row, c.key? j ≠ some k

def valueCell (c : Chunk) (row : Nat) : Cell := (c.cells[row]?.getD .missing).member 1

/-- Whether each row that is there has a key, and the first row of each key a value. -/
structure WellKeyed (c : Chunk) (value : ArrayType) : Prop where
  keyed : ∀ row < c.size, c.isMissing row = false → ∃ k, c.key? row = some k
  valued : ∀ k row, c.FirstOf k row → Dictionary.lacks value (c.valueCell row) = false

variable {c : Chunk} {value : ArrayType} {k : Int} {row : Nat}

theorem key?_eq_getElem (h : row < c.cells.length) : c.key? row = c.cells[row].key? := by
  simp [key?, h]

theorem valueCell_eq_getElem (h : row < c.cells.length) : c.valueCell row = c.cells[row].member 1 := by
  simp [valueCell, h]

theorem isMissing_eq_getElem (marks : c.marksMissing = true) (h : row < c.cells.length) :
    c.isMissing row = c.cells[row].isMissing := by
  simp [isMissing, marks, h]

theorem lt_size_of_key? (key : c.key? row = some k) : row < c.cells.length := by
  by_contra outside
  simp [key?, Nat.not_lt.1 outside] at key

namespace FirstOf

theorem unique {a b : Nat} (ha : c.FirstOf k a) (hb : c.FirstOf k b) : a = b := by
  rcases Nat.lt_trichotomy a b with before | same | after
  · exact (hb.2 a before ha.1).elim
  · exact same
  · exact (ha.2 b after hb.1).elim

theorem firstRow (key : c.key? row = some k) : c.FirstOf k (Dictionary.firstRow c.cells k) := by
  have inside := lt_size_of_key? key
  have used : some k ∈ c.cells.map Cell.key? := by
    rw [← key, key?_eq_getElem inside]
    exact List.mem_map_of_mem (List.getElem_mem inside)
  obtain ⟨here, first⟩ := Dictionary.firstRow_spec used
  refine ⟨(key?_eq_getElem here).trans first, ?_⟩
  intro j before same
  have hj : j < (c.cells.map Cell.key?).length := by
    rw [List.length_map]
    exact Nat.lt_trans before here
  have place : (c.cells.map Cell.key?)[j] = some k := by
    rw [List.getElem_map, ← key?_eq_getElem, same]
  have earlier := idxOf_getElem_le hj
  rw [place] at earlier
  exact Nat.not_lt.2 earlier before

theorem eq_firstRow (first : c.FirstOf k row) : row = Dictionary.firstRow c.cells k :=
  first.unique (firstRow first.1)

end FirstOf

theorem usable_iff_wellKeyed (marks : c.marksMissing = true) :
    (∀ i (h : i < c.cells.length), Dictionary.RowUsable value c.cells i c.cells[i]) ↔
      c.WellKeyed value := by
  constructor
  · intro usable
    refine ⟨fun row inside there => ?_, fun k row first => ?_⟩
    · rw [isMissing_eq_getElem marks inside] at there
      rcases usable row inside with absent | ⟨k, member, _⟩
      · cases there.symm.trans absent
      · refine ⟨k, ?_⟩
        rw [key?_eq_getElem inside]
        exact Cell.key?_eq_some.2 ⟨there, member⟩
    · have inside := lt_size_of_key? first.1
      obtain ⟨there, member⟩ := Cell.key?_eq_some.1 ((key?_eq_getElem inside).symm.trans first.1)
      rcases usable row inside with absent | ⟨l, hl, held⟩
      · cases there.symm.trans absent
      · cases member.symm.trans hl
        rw [valueCell_eq_getElem inside]
        exact held first.eq_firstRow.symm
  · intro sound i h
    by_cases absent : c.cells[i].isMissing = true
    · exact Or.inl absent
    · have there : c.isMissing i = false := by
        rw [isMissing_eq_getElem marks h, Bool.eq_false_iff.2 absent]
      obtain ⟨k, key⟩ := sound.keyed i h there
      have member := (Cell.key?_eq_some.1 ((key?_eq_getElem h).symm.trans key)).2
      refine Or.inr ⟨k, member, fun first => ?_⟩
      rw [← valueCell_eq_getElem h]
      exact sound.valued k i (first ▸ FirstOf.firstRow key)

end Chunk

namespace Dictionary

/-- What a dictionary makes of a chunk: a missing row is missing, any other one holds what stands
beside its key where that is used first. -/
structure Expands (d : Dictionary) (c : Chunk) (value : ArrayType) : Prop where
  size : d.size = c.size
  missing : ∀ row < c.size, c.isMissing row = true → d.isMissing row = true ∧ d.read row = .ok .null
  stored : ∀ row k, c.key? row = some k → ∃ first, c.FirstOf k first ∧ d.isMissing row = false ∧
    d.read row = value.read (c.valueCell first)
  outside : ∀ row, c.size ≤ row → d.read row = .error (.chunkRange row c.size)
  /-- As many values as keys that are used. -/
  distinct : d.distinctCount = c.keys.toFinset.card

variable {c : Chunk} {value : ArrayType}

theorem getElem?_positions {row : Nat} (h : row < c.cells.length) :
    (c.cells.map (positionOf c.cells))[row]? = some ((c.key? row).map (firstRow c.cells)) := by
  rw [List.getElem?_map, List.getElem?_eq_getElem h, Option.map_some, positionOf,
    Chunk.key?_eq_getElem h]

theorem length_positions (c : Chunk) :
    ((c.cells.map (positionOf c.cells)).filterMap id).eraseDups.length = c.keys.toFinset.card := by
  have rows : (c.cells.map (positionOf c.cells)).filterMap id = c.keys.map (firstRow c.cells) := by
    rw [List.filterMap_map, Function.id_comp, Chunk.keys, List.map_filterMap]
    rfl
  have used : ∀ k ∈ c.keys, ∃ row, c.key? row = some k := by
    intro k hk
    obtain ⟨cell, hcell, key⟩ := List.mem_filterMap.1 hk
    obtain ⟨row, inside, rfl⟩ := List.getElem_of_mem hcell
    exact ⟨row, (Chunk.key?_eq_getElem inside).trans key⟩
  -- Keys that are first used in one row are the same.
  rw [rows, eraseDups_map, List.length_map, length_eraseDups]
  intro k hk l hl same
  obtain ⟨_, here⟩ := used k hk
  obtain ⟨_, there⟩ := used l hl
  have first := (Chunk.FirstOf.firstRow here).1
  rw [same, (Chunk.FirstOf.firstRow there).1] at first
  exact (Option.some.inj first).symm

theorem expands_positions (marks : c.marksMissing = true) :
    Expands ⟨c, value, c.cells.map (positionOf c.cells)⟩ c value where
  size := List.length_map _
  missing := by
    intro row inside absent
    rw [Chunk.isMissing_eq_getElem marks inside] at absent
    have keyless : c.key? row = none := by
      rw [Chunk.key?_eq_getElem inside]
      exact if_pos absent
    have position := getElem?_positions inside
    rw [keyless] at position
    exact ⟨by simp [isMissing, position], by simp [read, position, valueAt]⟩
  stored := by
    intro row k key
    have first := Chunk.FirstOf.firstRow key
    have position := getElem?_positions (Chunk.lt_size_of_key? key)
    have here := Chunk.lt_size_of_key? first.1
    rw [key] at position
    refine ⟨_, first, by simp [isMissing, position], ?_⟩
    simp [read, position, valueAt, here, Chunk.valueCell_eq_getElem here]
  outside := by
    intro row outside
    have nowhere : (c.cells.map (positionOf c.cells))[row]? = none := by
      rw [List.getElem?_map, List.getElem?_eq_none outside, Option.map_none]
    rw [read, nowhere]
    exact congrArg Except.error (congrArg _ (List.length_map _))
  distinct := length_positions c

section

variable {width : DictKey} {field : Field} (parts : c.type.dictionaryParts = .ok (width, field))
include parts

theorem marksMissing_of_parts : c.marksMissing = true := by
  obtain ⟨_, _, _, _, type, _⟩ := ArrayType.dictionaryParts_eq_ok parts
  simp [Chunk.marksMissing, type]

theorem valueCell_admitted {row : Nat} {k : Int} (key : c.key? row = some k) :
    field.type.admits (c.valueCell row) = true := by
  have inside := Chunk.lt_size_of_key? key
  obtain ⟨_, _, _, _, type, _⟩ := ArrayType.dictionaryParts_eq_ok parts
  have fit := c.fit _ (List.getElem_mem inside)
  rw [type] at fit
  rw [Chunk.valueCell_eq_getElem inside]
  obtain ⟨_, _, _, _⟩ := field
  exact Cell.member_admitted fit

theorem exists_ofChunk_iff : (∃ d, ofChunk c = .ok d) ↔ c.WellKeyed field.type := by
  rw [← Chunk.usable_iff_wellKeyed (marksMissing_of_parts parts)]
  constructor
  · rintro ⟨d, made⟩
    exact ((ofChunk_settles parts).of_ok made).1
  · intro usable
    exact ⟨_, (ofChunk_settles parts).success usable⟩

theorem expands_ofChunk {d : Dictionary} (made : ofChunk c = .ok d) : d.Expands c field.type := by
  obtain ⟨_, rfl⟩ := (ofChunk_settles parts).of_ok made
  exact expands_positions (marksMissing_of_parts parts)

end

end Dictionary
end LogicalTable
