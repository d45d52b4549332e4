import LogicalTable.Proofs.LogicalColumn.Access

/-! Which chunks make a column. Their types have the layout of the column's storage or that of a dictionary
over it, never both, and no chunk that was accepted has a row that cannot be read. -/
namespace LogicalTable

/-- Chunks, of any writer, that can be part of a column over a shape. -/
inductive Chunk.AcceptedBy (s : Shape) (c : Chunk) : Prop where
  | plain : c.type.PlainOver s → AcceptedBy s c
  | dictionary (width : DictKey) (key value : Field) : c.type = .struct [key, value] →
      key.type = .leaf width.leafType → value.type.PlainOver s → c.WellKeyed value.type →
      AcceptedBy s c

theorem ArrayType.not_plain_and_dictionary (s : Shape) (a : ArrayType) :
    ¬ (a.PlainOver s ∧ a.DictionaryOver s) := by
  rintro ⟨plain, dictionary⟩
  obtain ⟨width, value, parts, _⟩ := dictionaryOver_iff.1 dictionary
  exact s.not_plainOver parts plain

theorem LogicalType.dataType_inj {t u : LogicalType} (h : t.dataType = u.dataType) : t = u := by
  cases t
  cases u
  cases h
  rfl

theorem LogicalType.decode?_eq_ite (t : LogicalType) (v : StorageValue) : t.decode? v =
    if v = .null then .ok none
    else (orFail .conversion (t.converter.factory.decode v)).map some := by
  rw [decode?, t.converter.decode_own]
  by_cases hv : v = .null
  · rw [if_pos hv, if_pos (StorageValue.isNull_iff.2 hv)]
  · rw [if_neg hv, if_neg fun null => hv (StorageValue.isNull_iff.1 null)]

namespace LogicalColumn

theorem exists_seenAs_iff {s : Shape} {c : Chunk} : (∃ view, c.SeenAs s view) ↔ c.AcceptedBy s := by
  constructor
  · rintro ⟨view, same | ⟨parts, same, made⟩⟩
    · exact .plain (ArrayType.plainOver_iff.2 same)
    · obtain ⟨key, type, keys⟩ := ArrayType.dictionaryParts_eq_ok_iff.1 parts
      have sound := (Dictionary.exists_ofChunk_iff parts).1 ⟨_, made⟩
      exact .dictionary _ key _ type keys (ArrayType.plainOver_iff.2 same) sound
  · intro accepted
    cases accepted with
    | plain plain => exact ⟨_, .plain (ArrayType.plainOver_iff.1 plain)⟩
    | dictionary width key value type keys plain sound =>
      have parts := ArrayType.dictionaryParts_eq_ok_iff.2 ⟨key, type, keys⟩
      obtain ⟨d, made⟩ := (Dictionary.exists_ofChunk_iff parts).2 sound
      exact ⟨_, .dictionary parts (ArrayType.plainOver_iff.1 plain) made⟩

variable {t : LogicalType} {cs : List Chunk}

theorem exists_chunksFrom_iff {index : Nat} :
    (∃ views, chunksFrom t index cs = .ok views) ↔ ∀ c ∈ cs, c.AcceptedBy t.storage := by
  simp only [chunksFrom_eq_ok, ← exists_seenAs_iff]
  constructor
  · rintro ⟨views, seen⟩ c hc
    obtain ⟨view, _, here⟩ := exists_right seen hc
    exact ⟨view, here⟩
  · exact exists_forall₂

theorem exists_ofChunks_iff :
    (∃ c, ofChunks t.dataType t.converter.valueType cs = .ok c) ↔ ∀ c ∈ cs, c.AcceptedBy t.storage := by
  have seen : (∃ views, chunksFrom t 0 cs = .ok views) ↔ ∀ c ∈ cs, c.AcceptedBy t.storage :=
    exists_chunksFrom_iff
  rw [← seen]
  constructor
  · rintro ⟨c, made⟩
    obtain ⟨type, _, views⟩ := ofChunks_eq_ok.1 made
    cases LogicalType.dataType_inj type
    exact ⟨_, views⟩
  · rintro ⟨views, made⟩
    exact ⟨ofViews t views, ofChunks_eq_ok.2 ⟨rfl, rfl, made⟩⟩

theorem read_accepted {c : LogicalColumn} (made : ofChunks t.dataType t.converter.valueType cs = .ok c)
    {i : Nat} (hi : i < c.size) : ∃ v, c.read i = .ok v ∧ t.storage.admits v = true ∧
      c.get i = t.decode? v := by
  obtain ⟨type, _, views⟩ := ofChunks_eq_ok.1 made
  cases LogicalType.dataType_inj type
  obtain ⟨vss, holds, fits⟩ := holds_chunksFrom views
  have inside : i < vss.flatten.length := Nat.lt_of_lt_of_eq hi (size_eq holds)
  obtain ⟨_, _, read, get⟩ := reads_inside holds inside
  exact ⟨_, read, fits _ (List.getElem_mem inside), get⟩

/-- No type has both layouts, chunks make a column just if each of them is plain storage or a sound
dictionary over it, and each row of the column holds a value of the storage, so that only the factory can
refuse it. -/
theorem acceptance (t : LogicalType) :
    (∀ a : ArrayType, ¬ (a.PlainOver t.storage ∧ a.DictionaryOver t.storage)) ∧
    (∀ cs, (∃ c, ofChunks t.dataType t.converter.valueType cs = .ok c) ↔
      ∀ c ∈ cs, c.AcceptedBy t.storage) ∧
    ∀ cs c, ofChunks t.dataType t.converter.valueType cs = .ok c → ∀ i < c.size,
      ∃ v, c.read i = .ok v ∧ t.storage.admits v = true ∧
        c.get i = if v = .null then .ok none
          else (orFail .conversion (t.converter.factory.decode v)).map some := by
  refine ⟨ArrayType.not_plain_and_dictionary t.storage, fun cs => exists_ofChunks_iff, ?_⟩
  intro cs c made i hi
  obtain ⟨v, read, fits, get⟩ := read_accepted made hi
  exact ⟨v, read, fits, get.trans (t.decode?_eq_ite v)⟩

/-- The last row of the dictionary holds a key, but the value stands in its first row. -/
theorem acceptance_mixedDays : (∀ c ∈ mixedDays, c.AcceptedBy LogicalType.day.storage) ∧
    (¬ ∀ c ∈ mixedDays.map (·.slice 2 1), c.AcceptedBy LogicalType.day.storage) ∧
    ∃ c, ofChunks LogicalType.day.dataType .date mixedDays = .ok c ∧ ∃ v, c.read 4 = .ok v ∧
      LogicalType.day.storage.admits v = true ∧ c.get 4 = if v = .null then .ok none
        else (orFail .conversion (LogicalType.day.converter.factory.decode v)).map some := by
  have made : ofChunks LogicalType.day.dataType .date mixedDays = .ok _ := rfl
  have refused : ofChunks LogicalType.day.dataType .date (mixedDays.map (·.slice 2 1)) =
      .error _ := rfl
  obtain ⟨_, accepts, reads⟩ := acceptance LogicalType.day
  refine ⟨(accepts _).1 ⟨_, made⟩, fun all => ?_, _, made, reads _ _ made 4 (by decide)⟩
  obtain ⟨c, taken⟩ := (accepts _).2 all
  cases refused.symm.trans taken

end LogicalColumn
end LogicalTable
