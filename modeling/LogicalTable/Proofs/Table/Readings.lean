import LogicalTable.Proofs.LogicalColumn.Access
import LogicalTable.Proofs.Table.Sentinels

/-! Two ways to read a column. As storage, the field tells whether the column is a dictionary; as logical
values, the layout of each chunk. A field without an identifier may be marked as what it is not, but then
its column is not logical. -/
namespace LogicalTable

/-- Whether a field is marked as a dictionary just if its type has that layout. -/
def Field.MarkedByLayout (f : Field) : Prop :=
  f.isDictionary = true ↔ ∃ parts, f.type.dictionaryParts = .ok parts

section Fields

variable {r : Registry} {f : Field} {t : DataType}

theorem Column.markedByLayout_field (c : Column) (index : Nat) (r : Registry) :
    (c.field index r).MarkedByLayout := by
  rw [Field.MarkedByLayout, isDictionary_field]
  change _ ↔ ∃ parts, (c.type.columnArrayType (c.type.dictKeyIn? r)).dictionaryParts = .ok parts
  cases c.type.dictKeyIn? r with
  | some key => exact iff_of_true rfl ⟨_, ArrayType.dictionaryParts_dictionary ..⟩
  | none =>
    refine iff_of_false Bool.false_ne_true ?_
    rintro ⟨⟨width, value⟩, parts⟩
    have plain : c.type.arrayType.PlainOver c.type.shape := by cases c.type <;> rfl
    exact c.type.shape.not_plainOver parts plain

theorem Column.markedByLayout_fields (r : Registry) (index : Nat) (cs : List Column) :
    List.Forall₂ (fun f _ => f.MarkedByLayout) (Column.fields r index cs) cs := by
  induction cs generalizing index with
  | nil => exact .nil
  | cons c cs ih => exact .cons (c.markedByLayout_field index r) (ih (index + 1))

namespace Columnar

theorem id?_importType {a : ArrayType} (h : importType r a = .ok t) : t.id? = none := by
  cases a with
  | leaf l =>
    rw [importType] at h
    split at h
    · cases h
      rfl
    · cases h
  | list f | largeList f =>
    obtain ⟨item, _, ⟨⟩⟩ := bind_eq_ok.1 h
    rfl
  | struct fs =>
    obtain ⟨ts, _, made⟩ := bind_eq_ok.1 h
    cases ts with
    | nil => cases made
    | cons t ts =>
      cases made
      rfl

theorem tagged_of_importField (h : importField r f = .ok t) (logical : t.id? ≠ none) :
    Tag.ofMetadata f.metadata ≠ .none := by
  intro untagged
  obtain ⟨name, type, nullable, m⟩ := f
  rw [importField] at h
  rw [Field.metadata] at untagged
  rw [untagged] at h
  exact logical (id?_importType h)

/-- What a logical type was recovered from is marked by its tag, and has the layout that the tag asks
for. -/
theorem markedByLayout_of_importField (h : importField r f = .ok t) (logical : t.id? ≠ none) :
    f.MarkedByLayout := by
  obtain ⟨u, imported, _⟩ := importField_eq_ok h
  rw [Field.MarkedByLayout, Field.isDictionary_eq_tag (tagged_of_importField h logical)]
  by_cases dictionary : (Tag.ofMetadata f.metadata).isDictionary = true
  · rw [if_pos dictionary] at imported
    obtain ⟨width, value, parts, _⟩ := importDictionary_eq_ok imported
    exact iff_of_true dictionary ⟨_, parts⟩
  · rw [if_neg dictionary] at imported
    refine iff_of_false dictionary ?_
    rintro ⟨⟨width, value⟩, parts⟩
    exact importType_dictionaryParts imported parts

theorem markedByLayout_of_importColumn {index : Nat} {c : Column} (h : importColumn r index f = .ok c)
    (logical : c.type.id? ≠ none) : f.MarkedByLayout := by
  obtain ⟨t, ht, type⟩ := importColumn_eq_ok h
  refine markedByLayout_of_importField ht fun plain => logical ?_
  cases t with
  | plain s =>
    have kept : stripRowKey (.plain s) = .plain s := rfl
    rw [type, kept, ite_self, plain]
  | logical id s k => cases plain

end Columnar
end Fields

/-- Whether a chunk is read as a dictionary. -/
def ColumnChunk.isDictionary : ColumnChunk → Bool
  | plain _ => false
  | dictionary _ => true

section Chunks

variable {s : Shape} {c : Chunk} {cs : List Chunk} {view : ColumnChunk} {views : List ColumnChunk}
  {vs : List StorageValue} {dictionary : Bool}

theorem Chunk.values_of_holds (h : (ColumnChunk.plain c).Holds vs) : c.values = .ok vs := by
  refine mapM_of_forall₂ (List.forall₂_iff_get.2 ⟨h.size, fun i hc hv => ?_⟩)
  have read : c.read i = .ok vs[i] := h.read i hv
  rw [Chunk.read, List.getElem?_eq_getElem hc] at read
  exact read

theorem Dictionary.values_of_holds {d : Dictionary} (rows : d.size = d.chunk.size)
    (h : (ColumnChunk.dictionary d).Holds vs) : d.values = .ok vs := by
  refine mapM_of_forall₂ (List.forall₂_iff_get.2 ⟨rows.trans h.size, fun i hd hv => ?_⟩)
  have read : d.read i = .ok vs[i] := h.read i hv
  rw [Dictionary.read, List.getElem?_eq_getElem hd] at read
  exact read

/-- A mark that goes by the layout of a chunk has its values read as the column reads them. -/
theorem Chunk.SeenAs.chunkValues (seen : c.SeenAs s view) (holds : view.Holds vs)
    (marked : dictionary = true ↔ ∃ parts, c.type.dictionaryParts = .ok parts) :
    view.isDictionary = dictionary ∧ Table.chunkValues dictionary c = .ok vs := by
  cases seen with
  | plain same =>
    have unmarked : dictionary = false := by
      rw [← Bool.not_eq_true, marked]
      rintro ⟨⟨width, value⟩, parts⟩
      exact s.not_plainOver parts (ArrayType.plainOver_iff.2 same)
    subst unmarked
    exact ⟨rfl, orFail_eq_ok.2 (Chunk.values_of_holds holds)⟩
  | @dictionary d _ _ parts _ made =>
    have here : dictionary = true := marked.2 ⟨_, parts⟩
    subst here
    refine ⟨rfl, bind_eq_ok.2 ⟨d, made, orFail_eq_ok.2 (d.values_of_holds ?_ holds)⟩⟩
    obtain ⟨_, rfl⟩ := (Dictionary.ofChunk_settles parts).of_ok made
    exact List.length_map _

theorem mapM_chunkValues_seen (seen : List.Forall₂ (Chunk.SeenAs s) cs views)
    (marked : ∀ c ∈ cs, dictionary = true ↔ ∃ parts, c.type.dictionaryParts = .ok parts) :
    (∀ view ∈ views, view.isDictionary = dictionary) ∧ ∃ vss,
      List.Forall₂ ColumnChunk.Holds views vss ∧ cs.mapM (Table.chunkValues dictionary) = .ok vss := by
  induction seen with
  | nil => exact ⟨nofun, [], .nil, rfl⟩
  | cons here _ ih =>
    obtain ⟨first, rest⟩ := List.forall_mem_cons.1 marked
    obtain ⟨vs, holds, _⟩ := here.holds
    obtain ⟨same, values⟩ := here.chunkValues holds first
    obtain ⟨all, vss, tail, read⟩ := ih rest
    refine ⟨List.forall_mem_cons.2 ⟨same, all⟩, vs :: vss, .cons holds tail, ?_⟩
    rw [List.mapM_cons, values, ok_bind, read]
    rfl

theorem sizes_seen (seen : List.Forall₂ (Chunk.SeenAs s) cs views) :
    views.map ColumnChunk.size = cs.map Chunk.size := by
  induction seen with
  | nil => rfl
  | cons here _ ih => exact congrArg₂ List.cons (congrArg Chunk.size here.chunk) ih

end Chunks

theorem Batch.types (b : Batch) : b.columns.map Chunk.type = b.fields.map Field.type := by
  have stored := Field.allStoredBy_iff.1 b.stored
  change List.Forall₂ _ b.fields b.columns at stored
  generalize b.fields = fs at stored
  generalize b.columns = cs at stored
  induction stored with
  | nil => rfl
  | cons here _ ih =>
    simp only [Field.storedBy, Bool.and_eq_true_iff, decide_eq_true_eq] at here
    exact congrArg₂ List.cons here.1.1 ih

namespace Table

theorem fields_takeBatch {width : Nat} {sentinel : Option Sentinel} {b d : Batch}
    (h : takeBatch width sentinel b = .ok d) : d.fields = b.fields := by
  cases sentinel with
  | none =>
    rw [takeBatch] at h
    split at h <;> cases h
    rfl
  | some s =>
    rw [takeBatch] at h
    split at h
    · cases h
    · exact Batch.fields_mapColumns h

/-- A table that was put together of columns, or of batches whose columns have the types of the fields. -/
inductive Made (r : Registry) : Table → Prop where
  | ofColumns {schema : Schema} {columns : List (List Chunk)} {options : TableOptions} {t : Table}
      (made : Table.ofColumns schema columns r options = .ok t) : Made r t
  | ofBatches {a : ArraySchema} {batches : List Batch} {options : TableOptions} {t : Table}
      (types : ∀ b ∈ batches, b.columns.map Chunk.type = a.fields.map Field.type)
      (made : Table.ofBatches a batches r options = .ok t) : Made r t

/-- A table whose batches have a column of the type of each field, where the fields of logical columns
are marked by their layout. -/
structure Typed (t : Table) : Prop where
  column : ∀ b ∈ t.batches, ∀ (i : Nat) (f : Field), t.arraySchema.fields[i]? = some f →
    ∃ c, b.columns[i]? = some c ∧ c.type = f.type ∧ c.size = b.size
  marked : List.Forall₂ (fun f c => c.type.id? ≠ none → f.MarkedByLayout) t.arraySchema.fields
    t.schema.columns

variable {r : Registry} {t : Table} {i : Nat} {f : Field}

theorem Made.typed (h : Made r t) : t.Typed := by
  cases h with
  | ofColumns made =>
    obtain ⟨schema, arrays, fields⟩ := ofColumns_eq_ok made
    constructor
    · intro b hb i f hf
      rw [← fields b hb] at hf
      exact b.column_of_field hf
    · rw [arrays, schema]
      refine (Column.markedByLayout_fields r 0 _).imp ?_
      exact fun _ _ marked _ => marked
  | @ofBatches a _ _ _ types made =>
    obtain ⟨s, read, made⟩ := bind_eq_ok.1 made
    obtain ⟨taken, htaken, ⟨⟩⟩ := bind_eq_ok.1 made
    constructor
    · intro d hd i f hf
      obtain ⟨b, hb, took⟩ := exists_right (forall₂_of_mapM htaken).flip hd
      have same : d.fields.map Field.type = a.fields.map Field.type := by
        rw [fields_takeBatch took, ← b.types, types b hb]
      have type : (d.fields.map Field.type)[i]? = some f.type := by
        rw [same, List.getElem?_map, hf]
        rfl
      rw [List.getElem?_map] at type
      obtain ⟨g, hg, type⟩ := Option.map_eq_some_iff.1 type
      rw [← type]
      exact d.column_of_field hg
    · refine (Columnar.importColumns_eq_ok (ArraySchema.schema_eq_ok.1 (orFail_eq_ok.1 read))).imp ?_
      rintro f c ⟨place, imported⟩
      exact Columnar.markedByLayout_of_importColumn imported

theorem Typed.type_chunksAt (h : t.Typed) (hf : t.arraySchema.fields[i]? = some f) :
    ∀ c ∈ t.chunksAt i, c.type = f.type := by
  intro c hc
  obtain ⟨b, hb, here⟩ := List.mem_filterMap.1 hc
  obtain ⟨d, hd, type, _⟩ := h.column b hb i f hf
  cases hd.symm.trans here
  exact type

theorem Typed.sizes_chunksAt (h : t.Typed) (hf : t.arraySchema.fields[i]? = some f) :
    (t.chunksAt i).map Chunk.size = t.batches.map Batch.size := by
  rw [chunksAt, List.map_filterMap, ← List.filterMap_eq_map]
  refine List.filterMap_congr fun b hb => ?_
  obtain ⟨c, hc, _, size⟩ := h.column b hb i f hf
  rw [hc, Option.map_some, size]
  rfl

/-- Whatever can be had as a logical column can be read as storage, with the same value in each row. Each
chunk is taken for a dictionary just where the field is marked as one. -/
theorem storageValues_logicalColumn (made : Made r t) {key : ColumnRef} {asked : ValueType}
    {c : LogicalColumn} (h : t.logicalColumn key asked = .ok c) :
    c.size = t.size ∧
    (∃ position, t.schema.indexOf key = .ok position ∧
      ∀ view ∈ c.chunks, view.isDictionary = t.isDictionary position) ∧
    ∃ vs, t.storageValues key = .ok vs ∧ vs.length = c.size ∧
      ∀ i (hi : i < vs.length), c.read i = .ok vs[i] := by
  obtain ⟨position, place, h⟩ := bind_eq_ok.1 h
  obtain ⟨column, here, h⟩ := bind_eq_ok.1 h
  obtain ⟨type, _, views⟩ := LogicalColumn.ofChunks_eq_ok.1 h
  have seen := LogicalColumn.chunksFrom_eq_ok.1 views
  have found : t.schema.columns[position]? = some column := Schema.getElem?_of_get (orFail_eq_ok.1 here)
  rcases getElem?_forall₂ made.typed.marked position with ⟨_, absent⟩ | ⟨f, d, hf, hd, marked⟩
  · cases absent.symm.trans found
  · cases hd.symm.trans found
    have logical : column.type.id? ≠ none := by
      rw [type]
      exact Option.some_ne_none _
    have mark : t.isDictionary position = f.isDictionary := by
      rw [isDictionary, hf]
      rfl
    -- The chunks have the type of the field, so that its mark goes by the layout of each of them.
    have marked : ∀ c ∈ t.chunksAt position, t.isDictionary position = true ↔
        ∃ parts, c.type.dictionaryParts = .ok parts := by
      intro c hc
      rw [mark, made.typed.type_chunksAt hf c hc]
      exact marked logical
    obtain ⟨same, vss, holds, read⟩ := mapM_chunkValues_seen seen marked
    have size : c.size = vss.flatten.length := LogicalColumn.size_eq holds
    refine ⟨?_, ⟨position, orFail_eq_ok.1 place, same⟩, vss.flatten, ?_, size.symm, fun i hi => ?_⟩
    · rw [LogicalColumn.size_eq_sum, LogicalColumn.sizes, sizes_seen seen, made.typed.sizes_chunksAt hf,
        Table.size, List.sum_eq_foldr]
    · exact bind_eq_ok.2 ⟨position, place, bind_eq_ok.2 ⟨vss, read, rfl⟩⟩
    · exact (LogicalColumn.reads_inside holds hi).2.2.1

/-- Days in a dictionary, in two batches. The second one starts with a missing day. -/
def foreignDaysBatches : List Batch :=
  let day (key : Int) (n : Cell) : Cell := .struct true [.integer key, n]
  let absent : Cell := .struct false [.missing, .missing]
  [{fields := foreignDays.fields
    first := ⟨.leaf .utf8, [.text "Row0", .text "Row1", .text "Row2"], by decide⟩
    rest := [
      ⟨foreignDays.fields[1].type, [day 7 (.integer 3), day 1 (.integer 0), day 7 .missing], by decide⟩,
      ⟨foreignDays.fields[2].type, [.missing, .list [], .missing], by decide⟩]
    stored := rfl},
   {fields := foreignDays.fields
    first := ⟨.leaf .utf8, [.text "Row3", .text "Row4"], by decide⟩
    rest := [
      ⟨foreignDays.fields[1].type, [absent, day 1 (.integer 5)], by decide⟩,
      ⟨foreignDays.fields[2].type, [.missing, .list []], by decide⟩]
    stored := rfl}]

/-- The third row has the key of the first one and no value of its own. -/
theorem storageValues_logicalColumn_foreignDays : ∃ t c, Made .ofDays t ∧
    t.logicalColumn (.name "day") .date = .ok c ∧
    t.storageValues (.name "day") = .ok [.long 3, .long 0, .long 3, .null, .long 5] ∧
    c.size = 5 ∧ c.read 2 = .ok (.long 3) := by
  have types : ∀ b ∈ foreignDaysBatches,
      b.columns.map Chunk.type = foreignDays.fields.map Field.type :=
    List.forall_mem_cons.2 ⟨rfl, List.forall_mem_singleton.2 rfl⟩
  have table : ofBatches foreignDays foreignDaysBatches .ofDays ⟨2, none⟩ = .ok _ := rfl
  obtain ⟨t, c, made, held, values⟩ : ∃ t c, Made .ofDays t ∧
      t.logicalColumn (.name "day") .date = .ok c ∧
      t.storageValues (.name "day") = .ok [.long 3, .long 0, .long 3, .null, .long 5] :=
    ⟨_, _, .ofBatches types table, rfl, rfl⟩
  obtain ⟨_, _, vs, all, size, reads⟩ := storageValues_logicalColumn made held
  cases all.symm.trans values
  exact ⟨t, c, made, held, values, size.symm, reads 2 (by decide)⟩

end Table
end LogicalTable
