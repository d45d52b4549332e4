import LogicalTable.Proofs.Columnar.BuiltValues
import LogicalTable.Proofs.Columnar.Layouts
import LogicalTable.Proofs.Dictionary.Expansion
import LogicalTable.Proofs.Dictionary.Room

/-! Parts of encoded chunks. A part that is cut off from the row in which one of its values stands is
refused, and any other one gives the values that were encoded: no part is ever read wrongly. -/
namespace LogicalTable

open KeySource (rowAt encodedCells code)

/-- What a chunk holds that values were written to, of whatever type: one key for each value that is
there, and the value itself beside it in its first row. -/
structure Chunk.Written (c : Chunk) (value : ArrayType) (vs : List StorageValue) : Prop where
  type : ∃ key, c.type = .dictionary key value
  size : c.size = vs.length
  missing : ∀ i (h : i < vs.length), c.isMissing i = vs[i].isNull
  keyed : ∀ i (h : i < vs.length), vs[i] ≠ .null → ∃ k, c.key? i = some k
  sameKey : ∀ i j (hi : i < vs.length) (hj : j < vs.length) k, c.key? i = some k →
    (c.key? j = some k ↔ vs[j] = vs[i])
  held : ∀ i (h : i < vs.length),
    c.valueCell i = value.store (if vs.idxOf vs[i] = i then vs[i] else .null)
  kept : ∀ v ∈ vs, value.Keeps v
  typed : value ≠ .leaf .null

theorem Chunk.ofRows_eq_ok {width : DictKey} {value : ArrayType} {rows : List DictionaryRow} {c : Chunk}
    (made : Chunk.ofRows width value rows = .ok c) :
    ∃ slots, value.build (rows.map DictionaryRow.value) = .ok slots ∧
      c.type = .dictionary width value ∧ c.cells = rows.map (DictionaryRow.cell width value) := by
  cases built : value.build (rows.map DictionaryRow.value) with
  | ok slots =>
    obtain ⟨d, hd, shape⟩ : ∃ d, Chunk.ofRows width value rows = .ok d ∧ _ :=
      Chunk.ofRows_of_build built
    cases hd.symm.trans made
    exact ⟨slots, rfl, shape⟩
  | error e =>
    unfold Chunk.ofRows at made
    split at made
    · next h => cases built.symm.trans h
    · cases made

namespace KeySource

variable {start : Nat} {width : DictKey} {value : ArrayType} {vs : List StorageValue}

/-- Keys within the width are not cut. -/
theorem key?_within {v : StorageValue} (within : v ≠ .null → (code start vs v).toNat ≤ width.maxKey)
    (i : Nat) : ((rowAt start vs i v).cell width value).key? =
      if v = .null then none else some ((code start vs v).toNat : Int) := by
  rw [DictionaryRow.key?_cell, rowAt]
  by_cases hv : v = .null
  · simp [hv, StorageValue.isNull_iff.2]
  · have there : ¬ v.isNull = true := fun h => hv (StorageValue.isNull_iff.1 h)
    rw [if_neg there, if_neg hv, Option.map_some, Nat.mod_eq_of_lt (Nat.lt_succ_of_le (within hv))]

theorem isMissing_cell (v : StorageValue) (i : Nat) :
    ((rowAt start vs i v).cell width value).isMissing = v.isNull := by
  rw [rowAt]
  by_cases hn : v.isNull = true
  · simp [hn, DictionaryRow.cell, Cell.isMissing]
  · simp [hn, DictionaryRow.cell, Cell.isMissing]

theorem mem_values_rowAt {v : StorageValue} (hv : v ∈ vs) :
    v ∈ (vs.mapIdx (rowAt start vs)).map DictionaryRow.value := by
  have place := List.idxOf_lt_length_of_mem hv
  refine List.mem_map.2 ⟨_, List.mem_mapIdx.2 ⟨vs.idxOf v, place, rfl⟩, ?_⟩
  rw [value_rowAt, List.getElem_idxOf place, if_pos rfl]

theorem written_of_cells {c : Chunk} (few : vs.length ≤ 0x10000000000000000)
    (type : c.type = .dictionary width value) (cells : c.cells = encodedCells start width value vs)
    (within : ∀ v ∈ vs, v ≠ .null → (code start vs v).toNat ≤ width.maxKey)
    (kept : ∀ v ∈ vs, value.Keeps v) (typed : value ≠ .leaf .null) : c.Written value vs := by
  have size : c.size = vs.length := by
    rw [Chunk.size, cells, length_encodedCells]
  have inside : ∀ i, i < vs.length → i < c.cells.length := fun i h => Nat.lt_of_lt_of_eq h size.symm
  have slot : ∀ i (h : i < vs.length) (hc : i < c.cells.length),
      c.cells[i] = (rowAt start vs i vs[i]).cell width value := by
    intro i h hc
    simp only [cells]
    exact getElem_encodedCells value h _
  have key : ∀ i (h : i < vs.length), c.key? i =
      if vs[i] = .null then none else some ((code start vs vs[i]).toNat : Int) := by
    intro i h
    rw [Chunk.key?_eq_getElem (inside i h), slot i h]
    exact key?_within (within _ (List.getElem_mem h)) i
  have marks : c.marksMissing = true := by
    simp [Chunk.marksMissing, type, ArrayType.dictionary]
  have distinct := Nat.le_trans (length_distinctValues_le vs) few
  refine ⟨⟨width, type⟩, size, ?_, ?_, ?_, ?_, kept, typed⟩
  · intro i h
    rw [Chunk.isMissing_eq_getElem marks (inside i h), slot i h, isMissing_cell]
  · intro i h present
    exact ⟨_, (key i h).trans (if_neg present)⟩
  · intro i j hi hj k found
    rw [key i hi] at found
    split at found
    · cases found
    · next present =>
      cases found
      rw [key j hj]
      constructor
      · intro same
        split at same
        · cases same
        · next there =>
          have words := UInt64.toNat_inj.1 (Int.ofNat.inj (Option.some.inj same))
          exact code_inj distinct (List.getElem_mem hj) there (List.getElem_mem hi) present words
      · intro same
        rw [same, if_neg present]
  · intro i h
    rw [Chunk.valueCell_eq_getElem (inside i h), slot i h, ← value_rowAt start vs i vs[i]]
    rfl

/-- Whatever the type of the values is, and wherever the keys begin, encoding writes the values. -/
theorem written_of_encode {s t : KeySource} {c : Chunk} (few : vs.length ≤ 0x10000000000000000)
    (encoded : s.encode value vs = (t, .ok c)) : c.Written value vs := by
  rw [encode] at encoded
  cases drawn : s.rows [] vs with
  | mk u outcome =>
    rw [drawn] at encoded
    cases outcome with
    | error e => cases encoded
    | ok rs =>
      obtain ⟨key, rows, within⟩ := rows_of_ok (List.nil_append vs) (Progress.init vs)
        (fun v hv => (List.not_mem_nil hv).elim) drawn
      obtain ⟨rfl, made⟩ := Prod.mk.inj encoded
      obtain ⟨slots, built, type, cells⟩ := Chunk.ofRows_eq_ok made
      rw [key] at type cells
      have shape : rs = vs.mapIdx (rowAt s.next.toNat vs) := by simpa using rows
      rw [shape] at built cells
      exact written_of_cells few type cells within
        (fun v hv => ArrayType.keeps_of_build built v (mem_values_rowAt hv))
        (ArrayType.ne_null_of_build built)

end KeySource

namespace Chunk

variable {c : Chunk} {value : ArrayType} {vs : List StorageValue} {start size : Nat} {k : Int}

theorem lt_length_part {i : Nat} (h : i < ((vs.drop start).take size).length) :
    i < size ∧ start + i < vs.length := by
  rw [List.length_take, List.length_drop] at h
  omega

theorem getElem_part {i : Nat} (h : i < ((vs.drop start).take size).length)
    (inside : start + i < vs.length) : ((vs.drop start).take size)[i] = vs[start + i] := by
  rw [List.getElem_take, List.getElem_drop]

section

variable {i : Nat} (h : i < size)
include h

theorem getElem?_slice : (c.slice start size).cells[i]? = c.cells[start + i]? := by
  rw [slice, List.getElem?_take, if_pos h, List.getElem?_drop]

theorem key?_slice : (c.slice start size).key? i = c.key? (start + i) := by
  rw [key?, getElem?_slice h, key?]

theorem valueCell_slice : (c.slice start size).valueCell i = c.valueCell (start + i) := by
  rw [valueCell, getElem?_slice h, valueCell]

theorem isMissing_slice : (c.slice start size).isMissing i = c.isMissing (start + i) := by
  rw [isMissing, getElem?_slice h, isMissing]
  rfl

end

namespace Written

variable (written : c.Written value vs)
include written

theorem length_slice : (c.slice start size).size = ((vs.drop start).take size).length := by
  have rows := written.size
  rw [Chunk.size] at rows
  simp [Chunk.size, slice, rows]

theorem present {i : Nat} (h : i < vs.length) (key : c.key? i = some k) : vs[i] ≠ .null := by
  intro absent
  have missing := written.missing i h
  have inside := lt_size_of_key? key
  rw [absent] at missing
  obtain ⟨there, _⟩ := Cell.key?_eq_some.1 ((key?_eq_getElem inside).symm.trans key)
  simp [Chunk.isMissing, inside, there, StorageValue.isNull] at missing

theorem lt_part {i : Nat} (key : (c.slice start size).key? i = some k) :
    i < ((vs.drop start).take size).length := by
  rw [← written.length_slice]
  exact lt_size_of_key? key

/-- The first row of a key in a part has the value just if it is the first row of the whole chunk. -/
theorem lacks_iff {i : Nat} (h : i < vs.length) (there : vs[i] ≠ .null) :
    Dictionary.lacks value (c.valueCell i) = false ↔ vs.idxOf vs[i] = i := by
  rw [Dictionary.lacks, decide_eq_true written.typed, Bool.true_and, written.held i h]
  by_cases first : vs.idxOf vs[i] = i
  · rw [if_pos first, (written.kept _ (List.getElem_mem h)).isMissing written.typed]
    refine iff_of_true ?_ first
    rw [Bool.eq_false_iff]
    exact fun null => there (StorageValue.isNull_iff.1 null)
  · rw [if_neg first, (ArrayType.keeps_null written.typed).isMissing written.typed]
    exact iff_of_false (by decide) first

/-- A row of a part and the first row with its key hold one value. -/
theorem same_of_firstOf {i first : Nat} (hi : i < ((vs.drop start).take size).length)
    (hf : first < ((vs.drop start).take size).length)
    (key : (c.slice start size).key? i = some k) (here : (c.slice start size).FirstOf k first) :
    ((vs.drop start).take size)[first] = ((vs.drop start).take size)[i] := by
  obtain ⟨ni, inside⟩ := lt_length_part hi
  obtain ⟨nf, inside'⟩ := lt_length_part hf
  rw [getElem_part hi inside, getElem_part hf inside']
  rw [key?_slice ni] at key
  exact (written.sameKey _ _ inside inside' k key).1 ((key?_slice nf).symm.trans here.1)

theorem exists_key {i : Nat} (h : i < ((vs.drop start).take size).length)
    (there : ((vs.drop start).take size)[i] ≠ .null) : ∃ k, (c.slice start size).key? i = some k := by
  obtain ⟨ni, inside⟩ := lt_length_part h
  rw [getElem_part h inside] at there
  rw [key?_slice ni]
  exact written.keyed _ inside there

/-- A part can be read just if all of its values first occur in it. -/
theorem wellKeyed_slice_iff : (c.slice start size).WellKeyed value ↔
    ∀ v ∈ (vs.drop start).take size, v ≠ .null → start ≤ vs.idxOf v := by
  constructor
  · intro sound v hv there
    obtain ⟨i, hi, rfl⟩ := List.getElem_of_mem hv
    obtain ⟨k, key⟩ := written.exists_key hi there
    have here := FirstOf.firstRow key
    have hf := written.lt_part here.1
    have same := written.same_of_firstOf hi hf key here
    obtain ⟨nf, inside⟩ := lt_length_part hf
    have held := sound.valued k _ here
    rw [← same] at there ⊢
    rw [getElem_part hf inside] at there ⊢
    rw [valueCell_slice nf, written.lacks_iff inside there] at held
    omega
  · intro whole
    refine ⟨fun i hi present => ?_, fun k i here => ?_⟩
    · rw [written.length_slice] at hi
      obtain ⟨ni, inside⟩ := lt_length_part hi
      rw [isMissing_slice ni, written.missing _ inside] at present
      rw [key?_slice ni]
      exact written.keyed _ inside fun absent => by simp [absent, StorageValue.isNull] at present
    · have hi := written.lt_part here.1
      obtain ⟨ni, inside⟩ := lt_length_part hi
      have key : c.key? (start + i) = some k := (key?_slice ni).symm.trans here.1
      have there := written.present inside key
      have first := whole _ (List.getElem_mem hi)
      rw [getElem_part hi inside] at first
      have before := idxOf_getElem_le inside
      have place : vs.idxOf vs[start + i] < vs.length := Nat.lt_of_le_of_lt before inside
      have value := List.getElem_idxOf place
      rw [valueCell_slice ni, written.lacks_iff inside there]
      -- Were the value to stand in an earlier row of the part, that row would have the key.
      by_contra other
      have earlier : vs.idxOf vs[start + i] - start < i := by
        have := first there
        omega
      apply here.2 _ earlier
      rw [key?_slice (Nat.lt_trans earlier ni), Nat.add_sub_cancel' (first there)]
      exact (written.sameKey _ _ inside place k key).2 value

/-- What a part gives that can be read. -/
theorem read_slice {d : Dictionary} (sound : (c.slice start size).WellKeyed value)
    (expands : d.Expands (c.slice start size) value) {i : Nat}
    (h : i < ((vs.drop start).take size).length) :
    d.read i = .ok ((vs.drop start).take size)[i] ∧
      (d.isMissing i = true ↔ ((vs.drop start).take size)[i] = .null) := by
  obtain ⟨ni, inside⟩ := lt_length_part h
  have row : i < (c.slice start size).size := by
    rwa [written.length_slice]
  by_cases null : ((vs.drop start).take size)[i] = .null
  · have absent : (c.slice start size).isMissing i = true := by
      rw [isMissing_slice ni, written.missing _ inside, ← getElem_part h inside, null]
      rfl
    obtain ⟨missing, read⟩ := expands.missing i row absent
    rw [null]
    exact ⟨read, iff_of_true missing rfl⟩
  · obtain ⟨k, key⟩ := written.exists_key h null
    obtain ⟨first, here, missing, read⟩ := expands.stored i k key
    have hf := written.lt_part here.1
    have same := written.same_of_firstOf h hf key here
    obtain ⟨nf, inside'⟩ := lt_length_part hf
    have held := sound.valued k first here
    rw [← same] at null ⊢
    rw [getElem_part hf inside'] at null ⊢
    have cell := written.held _ inside'
    rw [valueCell_slice nf, written.lacks_iff inside' null] at held
    rw [if_pos held, ← valueCell_slice nf] at cell
    rw [read, cell, missing]
    exact ⟨written.kept _ (List.getElem_mem inside'), iff_of_false Bool.false_ne_true null⟩

end Written

end Chunk

namespace Dictionary

end Dictionary
end LogicalTable
