import LogicalTable.Proofs.LogicalColumn.ReadableChunks
import LogicalTable.Proofs.LogicalColumn.Building

/-! Random access to a column. Whichever way a row is read, it is the same row. -/
namespace LogicalTable
namespace LogicalColumn

variable {c : LogicalColumn} {i k row : Nat} {chunk : ColumnChunk}

theorem decode?_eq_none {t : LogicalType} {s : StorageValue} :
    t.decode? s = .ok none ↔ s = .null := by
  rw [LogicalType.decode?, ← StorageValue.isNull_iff]
  split
  · next missing => exact iff_of_true rfl missing
  · next there =>
    refine iff_of_false (fun h => ?_) there
    obtain ⟨_, _, nothing⟩ := map_eq_ok.1 h
    cases nothing

section

variable {vss : List (List StorageValue)}

/-- The rows of a column that holds values, whichever way they are asked for. -/
theorem reads_inside (holds : List.Forall₂ ColumnChunk.Holds c.chunks vss)
    (hi : i < vss.flatten.length) :
    (∃ k chunk row, c.StandsAt i k chunk row ∧ c.locate i = .ok (chunk, row)) ∧
      c.isMissing i = .ok vss.flatten[i].isNull ∧ c.read i = .ok vss.flatten[i] ∧
      c.get i = c.type.decode? vss.flatten[i] := by
  obtain ⟨chunk, row, found, read, missing⟩ := locateIn_eq holds hi
  obtain ⟨k, place, inside, sum⟩ := place_of_locateIn found
  have located : c.locate i = .ok (chunk, row) := by
    rw [locate_eq_locateIn, found]
  have value : c.read i = .ok vss.flatten[i] := by
    rw [LogicalColumn.read, located]
    exact read
  refine ⟨⟨k, chunk, row, .of_sum place inside sum, located⟩, ?_, value, ?_⟩
  · rw [LogicalColumn.isMissing, located, ← missing]
    rfl
  · rw [LogicalColumn.get, value]
    rfl

theorem values_eq (holds : List.Forall₂ ColumnChunk.Holds c.chunks vss) :
    c.values.mapM id = c.decodeAll := by
  have size : c.size = vss.flatten.length := size_eq holds
  have batch : c.decodeAll = vss.flatten.mapM c.type.decode? := decodeAll_eq holds
  rw [values, List.mapM_map, size, batch]
  exact mapM_range fun i hi => (reads_inside holds hi).2.2.2

end

/-- Random access, iteration and decoding in one go agree on a column. -/
structure AccessAgrees (c : LogicalColumn) : Prop where
  /-- The chunks start in order, so that a binary search finds the partition point. -/
  ascend : c.starts.Pairwise (· ≤ ·)
  /-- An index inside belongs to one row of one chunk, which the search by starts leads to. -/
  located : ∀ i < c.size, ∃ k chunk row, c.StandsAt i k chunk row ∧
    (∀ l other row', c.StandsAt i l other row' → l = k ∧ other = chunk ∧ row' = row) ∧
    c.partitionPoint i = k + 1 ∧ c.locate i = .ok (chunk, row)
  /-- Each index inside can be asked for its storage, and all ways agree on what is missing. -/
  missing : ∀ i < c.size, (∃ b s, c.isMissing i = .ok b ∧ c.read i = .ok s) ∧
    (c.isMissing i = .ok true ↔ c.read i = .ok .null) ∧
    (c.read i = .ok .null ↔ c.get i = .ok none)
  outside : ∀ i, c.size ≤ i →
    c.locate i = .error (.columnRange i c.size) ∧
    c.isMissing i = .error (.columnRange i c.size) ∧
    c.read i = .error (.columnRange i c.size) ∧
    c.get i = .error (.layout (.columnRange i c.size))
  /-- The same values, or the same first failure. -/
  batch : c.decodeAll = c.values.mapM id

/-- However its chunks are cut and stored, a column is the same whichever way it is read. -/
theorem accessAgrees_accepted (accepted : c.Accepted) : c.AccessAgrees := by
  obtain ⟨vss, holds⟩ := accepted.holds
  have size : c.size = vss.flatten.length := size_eq holds
  refine ⟨c.starts_ascend, fun i hi => ?_, fun i hi => ?_, fun i hi => ?_, (values_eq holds).symm⟩
  · obtain ⟨⟨k, chunk, row, stands, located⟩, _⟩ := reads_inside holds (size ▸ hi)
    exact ⟨k, chunk, row, stands, fun _ _ _ other => stands.unique other,
      stands.partitionPoint_eq, located⟩
  · obtain ⟨_, missing, read, get⟩ := reads_inside holds (size ▸ hi)
    refine ⟨⟨_, _, missing, read⟩, ?_, ?_⟩
    · rw [missing, read, Except.ok.injEq, Except.ok.injEq, StorageValue.isNull_iff]
    · rw [read, get, Except.ok.injEq, decode?_eq_none]
  · obtain ⟨read, missing, get⟩ := fails_beyond hi
    exact ⟨locate_beyond hi, missing, read, get⟩

/-- Days in an empty chunk, in a part of a plain one, and in a dictionary. -/
def mixedDays : List Chunk :=
  let plain : Chunk := ⟨.leaf .int64, [.integer 7, .missing, .integer 19782], by decide⟩
  let keyed : Chunk := ⟨.dictionary .byte (.leaf .int64),
    [.struct true [.integer 4, .integer 19782], .struct false [.missing, .missing],
      .struct true [.integer 4, .missing]], by decide⟩
  [plain.slice 0 0, plain.slice 1 2, keyed]

theorem accessAgrees_mixedDays : ∃ c d,
    LogicalColumn.ofChunks LogicalType.day.dataType .date mixedDays = .ok c ∧ c.append c = .ok d ∧
      d.starts = [0, 0, 2, 5, 5, 7, 10] ∧ d.AccessAgrees := by
  have made : LogicalColumn.ofChunks LogicalType.day.dataType .date mixedDays = .ok _ := rfl
  refine ⟨_, _, made, rfl, rfl, ?_⟩
  exact accessAgrees_accepted (.append (.ofChunks made) (.ofChunks made) rfl)

end LogicalColumn
end LogicalTable
