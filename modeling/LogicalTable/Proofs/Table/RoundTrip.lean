import LogicalTable.Proofs.Columnar.SchemaRoundTrip
import LogicalTable.Proofs.Table.Across

/-! Tables put together from columns and taken apart again. Which columns are dictionaries is decided
by converters when they are written and by the fields alone when they are read. -/
namespace LogicalTable

theorem Tag.get?_nameKey (t : Tag) : t.metadata.get? nameKey = match t with
    | none => Option.none
    | logical _ => some logicalName
    | dictionary _ => some dictionaryName := by
  have other : idKey ≠ nameKey := by decide
  cases t with
  | none => rfl
  | logical id => rw [metadata, Metadata.get?_insert, if_neg other, Metadata.get?_insert, if_pos rfl]
  | dictionary id =>
    rw [metadata, Metadata.get?_insert, if_neg other, Metadata.get?_insert, if_pos rfl]

namespace Column

theorem get?_nameKey (c : Column) (index : Nat) (r : Registry) :
    (c.field index r).metadata.get? Tag.nameKey =
      (c.type.columnTag index (c.type.dictKeyIn? r)).metadata.get? Tag.nameKey := by
  rw [field, Field.metadata]
  cases c.metadata with
  | none => rfl
  | some text =>
    have other : columnMetadataKey ≠ Tag.nameKey := by decide
    exact (Metadata.get?_insert ..).trans (if_neg other)

/-- A field is marked just if the column has a key width. -/
theorem isDictionary_field (c : Column) (index : Nat) (r : Registry) :
    (c.field index r).isDictionary = (c.type.dictKeyIn? r).isSome := by
  rw [Field.isDictionary, get?_nameKey, Tag.get?_nameKey]
  cases c.type with
  | plain s =>
    cases index with
    | zero => rfl
    | succ _ => rfl
  | logical id s k =>
    cases (DataType.logical id s k).dictKeyIn? r with
    | none => rfl
    | some key => rfl

theorem getElem?_fields (r : Registry) (cs : List Column) (index i : Nat) :
    (fields r index cs)[i]? = cs[i]?.map fun c => c.field (index + i) r := by
  induction cs generalizing index i with
  | nil => rfl
  | cons c cs ih =>
    cases i with
    | zero => rfl
    | succ i =>
      have place : index + (i + 1) = index + 1 + i := by omega
      rw [place]
      exact ih (index + 1) i

end Column

/-- All columns are written, each as chunks of its own values. -/
theorem columns_written {r : Registry} {lengths : List Nat}
    (rows : lengths.foldr (· + ·) 0 < 0x10000000000000000) {cs : List Column}
    {values : List (List (List StorageValue))}
    (writable : List.Forall₂ (Column.Writable r lengths) cs values) :
    ∃ columns, (cs.zip values).mapM (fun (c, batches) => c.write r batches) = .ok columns ∧
      List.Forall₂ (Column.CutInto r lengths) cs columns ∧
      ∀ i (_ : i < cs.length) (_ : i < values.length) (_ : i < columns.length),
        List.Forall₂ (Chunk.Stores (cs[i].type.dictKeyIn? r) cs[i].type) columns[i] values[i] := by
  induction writable with
  | nil =>
    refine ⟨[], rfl, .nil, fun i hi => ?_⟩
    exact (Nat.not_lt_zero i hi).elim
  | cons head _ ih =>
    obtain ⟨chunks, hc, stores⟩ := head.write rows
    obtain ⟨columns, hcs, cut, rest⟩ := ih
    refine ⟨chunks :: columns, ?_, .cons (.of_stores stores head.lengths) cut, fun i hi hv hk => ?_⟩
    · rw [List.zip_cons_cons, List.mapM_cons]
      exact bind_eq_ok.2 ⟨chunks, hc, bind_eq_ok.2 ⟨columns, hcs, rfl⟩⟩
    · cases i with
      | zero => exact stores
      | succ i =>
        exact rest i (Nat.lt_of_succ_lt_succ hi) (Nat.lt_of_succ_lt_succ hv)
          (Nat.lt_of_succ_lt_succ hk)

namespace Table

section

variable {r : Registry} {s : Schema} {lengths : List Nat} {columns : List (List Chunk)}

theorem ofColumns_across (nonempty : s.columns ≠ [])
    (cut : List.Forall₂ (Column.CutInto r lengths) s.columns columns) (n : Nat) :
    ∃ batches, ofColumns s columns r ⟨n, none⟩ = .ok ⟨s, s.arraySchema r n, batches⟩ ∧
      List.Forall₂ (Batch.Across columns lengths) (List.range lengths.length) batches := by
  have width : columns.length = s.size := cut.length_eq.symm
  have filled : columns ≠ [] := by
    intro empty
    rw [empty] at width
    exact nonempty (List.length_eq_zero_iff.1 width.symm)
  have counts := length_cut cut
  have count : (columns.head?.map List.length).getD 0 = lengths.length := by
    obtain ⟨chunks, rest, rfl⟩ := List.exists_cons_of_ne_nil filled
    exact counts chunks List.mem_cons_self
  have even : (columns.zipIdx.find? fun p => p.1.length ≠ lengths.length) = none := by
    rw [List.find?_eq_none]
    rintro ⟨chunks, i⟩ h
    simpa using counts chunks (List.fst_mem_of_mem_zipIdx h)
  obtain ⟨batches, hb, across⟩ := mapM_forall₂ (l := List.range lengths.length) fun place h =>
    batchAt_across cut filled (List.getElem?_eq_getElem (List.mem_range.1 h))
  refine ⟨batches, ?_, across⟩
  rw [ofColumns, if_neg (not_not_intro width), count]
  dsimp only
  rw [even]
  exact bind_eq_ok.2 ⟨batches, hb, rfl⟩

theorem ofBatches_across (keeps : ∀ c ∈ s.columns, c.type.EveryLogical r.Keeps)
    (first : ∀ c, s.columns.head? = some c → c.type.id? ≠ some Exchange.rowKeyId)
    {batches : List Batch} (width : ∀ b ∈ batches, b.width = s.size) (n m : Nat) :
    ∃ u, ofBatches (s.arraySchema r n) batches r ⟨m, none⟩ = .ok ⟨u, s.arraySchema r n, batches⟩ ∧
      (u == s) = true ∧ u.size = s.size := by
  obtain ⟨ds, hds, same⟩ := Columnar.importColumns_fields s.columns 0 keeps fun _ => first
  have size : ds.length = s.size := by
    have := congrArg List.length same
    rwa [List.length_map, List.length_map] at this
  have schema : (s.arraySchema r n).schema r = .ok ⟨ds⟩ := by
    rw [ArraySchema.schema, Schema.arraySchema, hds]
    rfl
  have widths : ∀ b ∈ batches, b.width = Schema.size ⟨ds⟩ := fun b hb => (width b hb).trans size.symm
  exact ⟨⟨ds⟩, ofBatches_plain schema widths m, Schema.beq_iff.2 same, size⟩

theorem isDictionary_arraySchema {t : Table} {n i : Nat} (fields : t.arraySchema = s.arraySchema r n)
    (hi : i < s.columns.length) :
    t.isDictionary i = (s.columns[i].type.dictKeyIn? r).isSome := by
  have field : t.arraySchema.fields[i]? = some (s.columns[i].field (0 + i) r) := by
    rw [fields, Schema.arraySchema, Column.getElem?_fields, List.getElem?_eq_getElem hi]
    rfl
  rw [isDictionary, field]
  exact Column.isDictionary_field ..

end

/-- A table of columns has the values that its columns were written from, and reading its batches
gives a table with the same schema and the same values. The rows are counted in words. -/
theorem ofBatches_ofColumns {r : Registry} {s : Schema} {lengths : List Nat}
    {values : List (List (List StorageValue))} (nonempty : s.columns ≠ [])
    (keeps : ∀ c ∈ s.columns, c.type.EveryLogical r.Keeps)
    (first : ∀ c, s.columns.head? = some c → c.type.id? ≠ some Exchange.rowKeyId)
    (rows : lengths.foldr (· + ·) 0 < 0x10000000000000000)
    (writable : List.Forall₂ (Column.Writable r lengths) s.columns values) (n m : Nat) :
    ∃ columns t u, (s.columns.zip values).mapM (fun (c, batches) => c.write r batches) = .ok columns ∧
      Table.ofColumns s columns r ⟨n, none⟩ = .ok t ∧
      t.size = lengths.foldr (· + ·) 0 ∧
      (∀ i (_ : i < values.length), t.storageValues (.position i) = .ok values[i].flatten) ∧
      Table.ofBatches t.arraySchema t.batches r ⟨m, none⟩ = .ok u ∧
      (u.schema == s) = true ∧
      ∀ i (_ : i < values.length), u.storageValues (.position i) = .ok values[i].flatten := by
  obtain ⟨columns, written, cut, stores⟩ := columns_written rows writable
  obtain ⟨batches, ht, across⟩ := ofColumns_across nonempty cut n
  have width : columns.length = s.size := cut.length_eq.symm
  -- Values are read by the fields and the batches alone, which both tables share.
  have stored : ∀ t : Table, t.schema.size = s.size → t.arraySchema = s.arraySchema r n →
      t.batches = batches → ∀ i (_ : i < values.length),
        t.storageValues (.position i) = .ok values[i].flatten := by
    rintro ⟨schema, arrays, _⟩ size fields rfl i hi
    have column : i < s.columns.length := writable.length_eq ▸ hi
    have place : i < columns.length := cut.length_eq ▸ column
    have lengths_eq := (writable.get column hi).lengths
    exact storageValues_across across (size.trans width.symm) place lengths_eq
      (stores i column hi place) (isDictionary_arraySchema fields column)
  have widths : ∀ b ∈ batches, b.width = s.size := fun b hb =>
    (width_across across b hb).trans width
  obtain ⟨u, hu, same, size⟩ := ofBatches_across keeps first widths n m
  exact ⟨columns, _, _, written, ht, size_across across, stored _ rfl rfl rfl, hu, same,
    stored _ size rfl rfl⟩

theorem ofBatches_ofColumns_ofDays :
    let values : List (List (List StorageValue)) := [
      [[.string "a", .string "b"], [.string "c"]],
      [[.long 3, .null], [.long 3]],
      [[.list [.long 1, .null], .list []], [.null]],
      [[.struct [.int 7, .blob [0]], .null], [.struct [.null, .null]]]]
    ∃ columns t u,
      (Schema.ofDays.columns.zip values).mapM (fun (c, batches) => c.write .ofDays batches) =
        .ok columns ∧
      Table.ofColumns Schema.ofDays columns .ofDays ⟨2, none⟩ = .ok t ∧
      t.size = [2, 1].foldr (· + ·) 0 ∧
      (∀ i (_ : i < values.length), t.storageValues (.position i) = .ok values[i].flatten) ∧
      Table.ofBatches t.arraySchema t.batches .ofDays ⟨4, none⟩ = .ok u ∧
      (u.schema == Schema.ofDays) = true ∧
      ∀ i (_ : i < values.length), u.storageValues (.position i) = .ok values[i].flatten := by
  intro values
  refine ofBatches_ofColumns (by decide) ?_ ?_ (by decide) ?_ 2 4
  · have found : Registry.ofDays.find? "day" = some (.mk "day" .int64 (some .int) .date) := rfl
    have other : Registry.ofDays.find? "colour" = none := rfl
    have day : Registry.ofDays.Keeps "day" (.primitive .int64) :=
      ⟨by decide, by decide, fun _ k hk => by cases found.symm.trans hk; rfl⟩
    have colour : Registry.ofDays.Keeps "colour" (.primitive .int32) :=
      ⟨by decide, by decide, fun _ k hk => by cases other.symm.trans hk⟩
    simp [Schema.ofDays, DataType.list, DataType.EveryLogical, Shape.EveryLogical,
      Members.EveryLogical, Shape.string, Shape.blob, Shape.int64, Shape.int32, day, colour]
  · rintro _ ⟨⟩
    decide
  · refine .cons ?_ (.cons ?_ (.cons ?_ (.cons ?_ .nil)))
    · exact .of_room rfl (by decide) (by rintro _ ⟨⟩)
    · refine .of_room rfl (by decide) ?_
      rintro _ ⟨⟩
      decide
    · exact .of_room rfl (by decide) (by rintro _ ⟨⟩)
    · exact .of_room rfl (by decide) (by rintro _ ⟨⟩)

end Table
end LogicalTable
