import LogicalTable.Proofs.Columnar.Readable
import LogicalTable.Proofs.Columnar.SchemaRoundTrip
import LogicalTable.Proofs.Dictionary.FirstRows
import LogicalTable.Proofs.Table.Across

/-! Tables of batches of any writer. Fields are accepted by what they are tagged as, at any depth, but
only a dictionary that is a column is taken apart, and a column is taken for one by the name of its
extension alone. The fields tell which columns can be read, whatever the batches are. -/
namespace LogicalTable

/-- Whether each row of a dictionary that is there has a key, and the first row of each key its value. -/
def Chunk.FirstUse (c : Chunk) : Prop :=
  ∀ width value, c.type.dictionaryParts = .ok (width, value) →
    ∀ i (_ : i < c.cells.length), Dictionary.RowUsable value.type c.cells i c.cells[i]

/-- Whether the columns that are tagged as dictionaries can be used as such. -/
def Batch.FirstUse (b : Batch) : Prop :=
  ∀ (i : Nat) (f : Field) (c : Chunk), b.fields[i]? = some f → b.columns[i]? = some c →
    (Tag.ofMetadata f.metadata).isDictionary = true → c.FirstUse

/-- Whether members that must not be missing are there in all columns. -/
def Batch.Complete (b : Batch) : Prop := ∀ c ∈ b.columns, c.cells.all c.type.complete = true

/-- Whether a column of the field can be read: it is a dictionary of values with none inside, or is
neither tagged nor named as a dictionary and has none inside. -/
def Field.readable (f : Field) : Bool :=
  if (Tag.ofMetadata f.metadata).isDictionary then
    match f.type.dictionaryParts with
    | .ok (_, value) => value.dictionaryFree
    | .error _ => false
  else !f.isDictionary && f.type.dictionaryFree

/-- A field with a tag is marked as its tag says. -/
theorem Field.isDictionary_eq_tag {f : Field} (tagged : Tag.ofMetadata f.metadata ≠ .none) :
    f.isDictionary = (Tag.ofMetadata f.metadata).isDictionary := by
  revert tagged
  rw [isDictionary, Tag.ofMetadata]
  cases f.metadata.get? Tag.nameKey with
  | none => exact fun tagged => (tagged rfl).elim
  | some name =>
    cases f.metadata.get? Tag.idKey with
    | none => exact fun tagged => (tagged rfl).elim
    | some id =>
      dsimp only
      split
      · next dictionary => simp [dictionary, Tag.isDictionary]
      · next other =>
        split
        · simp [other, Tag.isDictionary]
        · exact fun tagged => (tagged rfl).elim

theorem Field.isDictionary_of_tag {f : Field} (h : (Tag.ofMetadata f.metadata).isDictionary = true) :
    f.isDictionary = true := by
  rw [isDictionary_eq_tag, h]
  intro untagged
  rw [untagged] at h
  cases h

namespace Columnar

variable {r : Registry}

/-- The keys of a dictionary have no type of their own. -/
theorem importType_dictionaryParts {t : ArrayType} {s : DataType} {width : DictKey} {value : Field}
    (h : importType r t = .ok s) : t.dictionaryParts ≠ .ok (width, value) := by
  intro dictionary
  obtain ⟨name, k, nullable, m, rfl, hk⟩ := ArrayType.dictionaryParts_eq_ok dictionary
  obtain ⟨ts, hts, _⟩ := bind_eq_ok.1 h
  obtain ⟨u, hu, _⟩ := bind_eq_ok.1 hts
  obtain ⟨v, hv, _⟩ := importField_eq_ok hu
  split at hv
  · obtain ⟨_, _, parts, _⟩ := importDictionary_eq_ok hv
    cases parts
  · cases k <;> cases hk <;> cases hv

end Columnar

/-- What the first row of a key holds beside it. -/
theorem Dictionary.member_firstRow {c : Chunk} {width : DictKey} {value : Field}
    (parts : c.type.dictionaryParts = .ok (width, value)) {cell : Cell} (hcell : cell ∈ c.cells)
    {k : Int} (hk : cell.key? = some k) : ∃ h : firstRow c.cells k < c.cells.length,
      c.cells[firstRow c.cells k].key? = some k ∧
        value.admits (c.cells[firstRow c.cells k].member 1) = true := by
  obtain ⟨row, key⟩ := firstRow_spec (List.mem_map.2 ⟨cell, hcell, hk⟩)
  have fit := c.fit _ (List.getElem_mem row)
  obtain ⟨_, _, _, _, type, _⟩ := ArrayType.dictionaryParts_eq_ok parts
  rw [type] at fit
  exact ⟨row, key, Cell.member_admitted fit⟩

section

variable {r : Registry} {f : Field} {s : DataType} {c : Chunk}

open Columnar (importType importField importDictionary)

theorem Chunk.values_admitted (imported : importType r c.type = .ok s)
    (free : c.type.dictionaryFree = true) :
    ∃ vs, c.values = .ok vs ∧ vs.length = c.size ∧ ∀ v ∈ vs, s.admits v = true := by
  have each : ∀ cell ∈ c.cells, ∃ v, c.type.read cell = .ok v ∧ s.admits v = true := by
    intro cell hcell
    exact ArrayType.read_admitted imported free (c.fit cell hcell)
  obtain ⟨vs, read, admitted⟩ := mapM_forall₂ each
  exact ⟨vs, read, admitted.length_eq.symm, forall_mem_right admitted⟩

namespace Dictionary

variable {width : DictKey} {value : Field} (parts : c.type.dictionaryParts = .ok (width, value))
  (use : c.FirstUse)
include parts use

theorem ofChunk_firstUse : ofChunk c = .ok ⟨c, value.type, c.cells.map (positionOf c.cells)⟩ :=
  (ofChunk_settles parts).success (use width value parts)

theorem values_admitted (imported : importField r value = .ok s)
    (free : value.dictionaryFree = true) :
    ∃ vs, Table.chunkValues true c = .ok vs ∧ vs.length = c.size ∧ ∀ v ∈ vs, s.admits v = true := by
  have each : ∀ position ∈ c.cells.map (positionOf c.cells),
      ∃ v, valueAt ⟨c, value.type, c.cells.map (positionOf c.cells)⟩ position = .ok v ∧
        s.admits v = true := by
    intro position h
    obtain ⟨cell, hcell, rfl⟩ := List.mem_map.1 h
    rw [positionOf]
    cases hk : cell.key? with
    | none => exact ⟨.null, rfl, s.admits_null⟩
    | some k =>
      -- The value stands in the first row of the key, which need not be the row of the slot.
      obtain ⟨row, _, fit⟩ := member_firstRow parts hcell hk
      obtain ⟨v, read, fits⟩ := Field.read_admitted imported free fit
      refine ⟨v, ?_, fits⟩
      rw [Option.map_some, valueAt, List.getElem?_eq_getElem row]
      obtain ⟨_, _, _, _⟩ := value
      exact read
  obtain ⟨vs, read, admitted⟩ := mapM_forall₂ each
  refine ⟨vs, ?_, ?_, forall_mem_right admitted⟩
  · rw [Table.chunkValues, if_pos rfl, ofChunk_firstUse parts use]
    exact orFail_eq_ok.2 read
  · rw [← admitted.length_eq, List.length_map]
    rfl

end Dictionary

/-- A column of a field that can be read. -/
theorem Field.readable_values (imported : importField r f = .ok s) (readable : f.readable = true)
    (type : c.type = f.type) (use : (Tag.ofMetadata f.metadata).isDictionary = true → c.FirstUse) :
    ∃ vs, Table.chunkValues f.isDictionary c = .ok vs ∧ vs.length = c.size ∧
      ∀ v ∈ vs, s.admits v = true := by
  obtain ⟨u, hu, same⟩ := Columnar.importField_eq_ok imported
  rw [Field.readable] at readable
  simp only [same]
  rw [← type] at hu readable
  by_cases tagged : (Tag.ofMetadata f.metadata).isDictionary = true
  · rw [if_pos tagged] at hu readable
    obtain ⟨width, value, parts, hv⟩ := Columnar.importDictionary_eq_ok hu
    rw [parts] at readable
    rw [isDictionary_of_tag tagged]
    exact Dictionary.values_admitted parts (use tagged) hv readable
  · rw [if_neg tagged] at hu readable
    obtain ⟨named, free⟩ := Bool.and_eq_true_iff.1 readable
    obtain ⟨vs, read, rest⟩ := Chunk.values_admitted hu free
    rw [Bool.not_eq_true'] at named
    rw [named]
    exact ⟨vs, orFail_eq_ok.2 read, rest⟩

/-- The column of one row that is there, with all that is inside. -/
def Field.sampleChunk (f : Field) : Chunk where
  type := f.type
  cells := [f.type.sample]
  fit := List.forall_mem_singleton.2 f.type.admits_sample

theorem Field.storedBy_sampleChunk (f : Field) : f.storedBy 1 f.sampleChunk = true := by
  have there : f.sampleChunk.missingCount = 0 := by
    rw [Chunk.missingCount]
    split
    · next h =>
      have present := ArrayType.isMissing_sample (of_decide_eq_true h)
      exact (List.countP_singleton ..).trans (if_neg (Bool.eq_false_iff.1 present))
    · rfl
  rw [storedBy, there]
  simp [sampleChunk, Chunk.size]

theorem Dictionary.lacks_sample (t : ArrayType) : lacks t t.sample = false := by
  rw [lacks]
  by_cases h : t = .leaf .null
  · rw [decide_eq_false (not_not_intro h), Bool.false_and]
  · rw [ArrayType.isMissing_sample h, Bool.and_false]

theorem ArrayType.sample_dictionary {t : ArrayType} {width : DictKey} {value : Field}
    (parts : t.dictionaryParts = .ok (width, value)) :
    t.sample = .struct true [.integer 0, value.type.sample] := by
  obtain ⟨name, k, nullable, m, rfl, hk⟩ := ArrayType.dictionaryParts_eq_ok parts
  obtain ⟨key, _⟩ := DictKey.sample_key hk
  obtain ⟨_, _, _, _⟩ := value
  rw [sample, Field.samples, Field.sample, sample, key]
  rfl

theorem Field.firstUse_sampleChunk (f : Field) : f.sampleChunk.FirstUse := by
  intro width value parts i hi
  have slot := ArrayType.sample_dictionary parts
  have first : i = 0 := Nat.lt_one_iff.1 hi
  subst first
  change Dictionary.RowUsable value.type [f.type.sample] 0 f.type.sample
  change f.type.sample = _ at slot
  rw [slot]
  exact Or.inr ⟨0, rfl, fun _ => Dictionary.lacks_sample value.type⟩

theorem Field.complete_sampleChunk (imported : importField r f = .ok s) :
    f.sampleChunk.cells.all f.sampleChunk.type.complete = true := by
  obtain ⟨name, t, nullable, m⟩ := f
  have whole := Field.complete_sample imported true
  exact List.all_eq_true.2 (List.forall_mem_singleton.2 (Bool.and_eq_true_iff.1 whole).2)

/-- A column of a field that cannot be read. -/
theorem Field.chunkValues_sampleChunk (imported : importField r f = .ok s)
    (unreadable : f.readable = false) :
    ∃ e, Table.chunkValues f.isDictionary f.sampleChunk = .error e := by
  obtain ⟨u, hu, _⟩ := Columnar.importField_eq_ok imported
  rw [Field.readable] at unreadable
  by_cases tagged : (Tag.ofMetadata f.metadata).isDictionary = true
  · rw [if_pos tagged] at hu unreadable
    obtain ⟨width, value, parts, hv⟩ := Columnar.importDictionary_eq_ok hu
    rw [parts] at unreadable
    rw [isDictionary_of_tag tagged]
    -- The dictionary inside is not taken apart.
    obtain ⟨e, he⟩ := Field.read_sample hv unreadable
    have failed : value.type.read value.type.sample = .error e := by
      obtain ⟨_, _, _, _⟩ := value
      exact he
    have slot : f.sampleChunk.cells = [.struct true [.integer 0, value.type.sample]] :=
      congrArg ([·]) (ArrayType.sample_dictionary parts)
    refine ⟨.layout e, ?_⟩
    rw [Table.chunkValues, if_pos rfl, Dictionary.ofChunk_firstUse parts f.firstUse_sampleChunk]
    refine orFail_eq_error.2 ⟨e, ?_, rfl⟩
    have first : f.sampleChunk.cells.map (Dictionary.positionOf f.sampleChunk.cells) = [some 0] := by
      rw [slot]
      rfl
    have held : Dictionary.valueAt ⟨f.sampleChunk, value.type, [some 0]⟩ (some 0) = .error e := by
      rw [Dictionary.valueAt, slot]
      exact failed
    rw [Dictionary.values, first, List.mapM_cons, held]
    rfl
  · rw [if_neg tagged] at hu unreadable
    cases named : f.isDictionary with
    | true =>
      -- The name alone: no type that is accepted as it is has the layout of a dictionary.
      cases parts : f.type.dictionaryParts with
      | ok p => exact (Columnar.importType_dictionaryParts hu parts).elim
      | error e =>
        refine ⟨.ofField e, ?_⟩
        rw [Table.chunkValues, if_pos rfl, Dictionary.ofChunk, sampleChunk, parts]
        rfl
    | false =>
      rw [named, Bool.not_false, Bool.true_and] at unreadable
      obtain ⟨e, failed⟩ := ArrayType.read_sample hu unreadable
      refine ⟨.layout e, orFail_eq_error.2 ⟨e, ?_, rfl⟩⟩
      rw [Chunk.values, sampleChunk, List.mapM_cons, failed]
      rfl

end

theorem Field.allStoredBy_iff {fs : List Field} {rows : Nat} {cs : List Chunk} :
    Field.allStoredBy fs rows cs = true ↔ List.Forall₂ (fun f c => f.storedBy rows c = true) fs cs := by
  induction fs generalizing cs with
  | nil => cases cs <;> simp [allStoredBy]
  | cons f fs ih => cases cs <;> simp [allStoredBy, ih]

namespace Batch

def sample (f : Field) (fs : List Field) : Batch where
  fields := f :: fs
  first := f.sampleChunk
  rest := fs.map Field.sampleChunk
  stored := by
    refine Field.allStoredBy_iff.2 (.cons f.storedBy_sampleChunk ?_)
    exact List.forall₂_map_right_iff.2 (List.forall₂_same.2 fun g _ => g.storedBy_sampleChunk)

theorem columns_sample (f : Field) (fs : List Field) :
    (sample f fs).columns = (f :: fs).map Field.sampleChunk := rfl

theorem firstUse_sample (f : Field) (fs : List Field) : (sample f fs).FirstUse := by
  intro i g c _ hc _
  rw [columns_sample, List.getElem?_map] at hc
  obtain ⟨g, _, rfl⟩ := Option.map_eq_some_iff.1 hc
  exact g.firstUse_sampleChunk

theorem complete_sample {r : Registry} {f : Field} {fs : List Field}
    (imported : ∀ g ∈ f :: fs, ∃ u, Columnar.importField r g = .ok u) : (sample f fs).Complete := by
  intro c hc
  rw [columns_sample] at hc
  obtain ⟨g, hg, rfl⟩ := List.mem_map.1 hc
  obtain ⟨u, hu⟩ := imported g hg
  exact g.complete_sampleChunk hu

theorem column_of_field {b : Batch} {i : Nat} {f : Field} (h : b.fields[i]? = some f) :
    ∃ c, b.columns[i]? = some c ∧ c.type = f.type ∧ c.size = b.size := by
  have stored := Field.allStoredBy_iff.1 b.stored
  obtain ⟨hi, rfl⟩ := List.getElem?_eq_some_iff.1 h
  have place : i < b.columns.length := stored.length_eq ▸ hi
  have fits := stored.get hi place
  simp only [Field.storedBy, Bool.and_eq_true_iff, decide_eq_true_eq] at fits
  exact ⟨b.columns[i], List.getElem?_eq_getElem place, fits.1.1, fits.1.2⟩

theorem width_eq (b : Batch) : b.width = b.fields.length :=
  (Field.allStoredBy_iff.1 b.stored).length_eq.symm

end Batch

namespace Table

variable {a : ArraySchema} {r : Registry} {s : Schema} {i : Nat}

theorem values_flatten {P : StorageValue → Prop} {dictionary : Bool} {batches : List Batch}
    (each : ∀ b ∈ batches, ∃ c, b.columns[i]? = some c ∧
      ∃ vs, chunkValues dictionary c = .ok vs ∧ vs.length = b.size ∧ ∀ v ∈ vs, P v) :
    ∃ vss, (batches.filterMap fun b => b.columns[i]?).mapM (chunkValues dictionary) = .ok vss ∧
      vss.flatten.length = (batches.map Batch.size).foldr (· + ·) 0 ∧ ∀ v ∈ vss.flatten, P v := by
  induction batches with
  | nil => exact ⟨[], rfl, rfl, nofun⟩
  | cons b batches ih =>
    obtain ⟨⟨c, hc, vs, hvs, size, fits⟩, rest⟩ := List.forall_mem_cons.1 each
    obtain ⟨vss, hvss, sizes, all⟩ := ih rest
    refine ⟨vs :: vss, ?_, ?_, ?_⟩
    · rw [List.filterMap_cons_some (f := fun b : Batch => b.columns[i]?) hc, List.mapM_cons, hvs,
        ok_bind, hvss]
      rfl
    · rw [List.flatten_cons, List.length_append, size, sizes]
      rfl
    · rw [List.flatten_cons]
      exact List.forall_mem_append.2 ⟨fits, all⟩

theorem isDictionary_field (hi : i < a.fields.length) (batches : List Batch) :
    isDictionary ⟨s, a, batches⟩ i = a.fields[i].isDictionary := by
  rw [isDictionary, List.getElem?_eq_getElem hi]
  rfl

section

variable (accepted : a.schema r = .ok s)
include accepted

/-- The columns of an accepted schema stand for its fields. -/
theorem columns_accepted : List.Forall₂ (fun f c => ∃ u, Columnar.importField r f = .ok u ∧
    ∀ v, c.type.admits v = u.admits v) a.fields s.columns := by
  refine (Columnar.importColumns_eq_ok (ArraySchema.schema_eq_ok.1 accepted)).imp ?_
  rintro f c ⟨index, imported⟩
  obtain ⟨u, hu, type⟩ := Columnar.importColumn_eq_ok imported
  refine ⟨u, hu, fun v => ?_⟩
  rw [type]
  split
  · exact Columnar.admits_stripRowKey u v
  · rfl

theorem size_accepted : s.size = a.fields.length := (columns_accepted accepted).length_eq.symm

theorem field_accepted (hi : i < a.fields.length) (here : i < s.columns.length) :
    ∃ u, Columnar.importField r a.fields[i] = .ok u ∧
      ∀ v, s.columns[i].type.admits v = u.admits v :=
  (columns_accepted accepted).get hi here

theorem ofBatches_accepted {batches : List Batch} (fields : ∀ b ∈ batches, b.fields = a.fields)
    (n : Nat) : ofBatches a batches r ⟨n, none⟩ = .ok ⟨s, a, batches⟩ := by
  refine ofBatches_plain accepted (fun b hb => ?_) n
  rw [b.width_eq, fields b hb, size_accepted accepted]

theorem complete_sample {f : Field} {fs : List Field} (fields : a.fields = f :: fs) :
    (Batch.sample f fs).Complete := by
  refine Batch.complete_sample (r := r) fun g hg => ?_
  rw [← fields] at hg
  obtain ⟨j, hj, rfl⟩ := List.getElem_of_mem hg
  obtain ⟨u, hu, _⟩ := field_accepted accepted hj (Nat.lt_of_lt_of_eq hj (size_accepted accepted).symm)
  exact ⟨u, hu⟩

theorem storageValues_readable (hi : i < a.fields.length) (here : i < s.columns.length)
    (readable : a.fields[i].readable = true) {batches : List Batch}
    (keeps : ∀ b ∈ batches, b.fields = a.fields ∧ b.FirstUse) :
    ∃ vs, storageValues ⟨s, a, batches⟩ (.position i) = .ok vs ∧
      vs.length = size ⟨s, a, batches⟩ ∧ ∀ v ∈ vs, s.columns[i].type.admits v = true := by
  obtain ⟨u, imported, same⟩ := field_accepted accepted hi here
  have each : ∀ b ∈ batches, ∃ c, b.columns[i]? = some c ∧
      ∃ vs, chunkValues a.fields[i].isDictionary c = .ok vs ∧ vs.length = b.size ∧
        ∀ v ∈ vs, s.columns[i].type.admits v = true := by
    intro b hb
    obtain ⟨fields, use⟩ := keeps b hb
    have field : b.fields[i]? = some a.fields[i] := by
      rw [fields, List.getElem?_eq_getElem hi]
    obtain ⟨c, hc, type, rows⟩ := b.column_of_field field
    obtain ⟨vs, hvs, count, fits⟩ :=
      Field.readable_values imported readable type (use i _ c field hc)
    exact ⟨c, hc, vs, hvs, count.trans rows, fun v hv => (same v).trans (fits v hv)⟩
  obtain ⟨vss, hvss, count, fits⟩ := values_flatten each
  refine ⟨vss.flatten, ?_, count, fits⟩
  rw [storageValues_position here, isDictionary_field hi, chunksAt, hvss]
  rfl

theorem storageValues_sample (hi : i < a.fields.length) (unreadable : a.fields[i].readable = false)
    {f : Field} {fs : List Field} (fields : a.fields = f :: fs) :
    ∃ e, storageValues ⟨s, a, [Batch.sample f fs]⟩ (.position i) = .error e := by
  have here : i < s.size := Nat.lt_of_lt_of_eq hi (size_accepted accepted).symm
  obtain ⟨u, imported, _⟩ := field_accepted accepted hi here
  obtain ⟨e, failed⟩ := Field.chunkValues_sampleChunk imported unreadable
  have column : (Batch.sample f fs).columns[i]? = some a.fields[i].sampleChunk := by
    rw [Batch.columns_sample, ← fields, List.getElem?_map, List.getElem?_eq_getElem hi]
    rfl
  have chunks : chunksAt ⟨s, a, [Batch.sample f fs]⟩ i = [a.fields[i].sampleChunk] :=
    List.filterMap_cons_some (f := fun b : Batch => b.columns[i]?) column
  refine ⟨e, ?_⟩
  rw [storageValues_position here, chunks, isDictionary_field hi, List.mapM_cons, failed]
  rfl

end

/-- Whether a column can be read from whatever batches have the fields, a value of its type for each
row. -/
def ColumnReadable (a : ArraySchema) (r : Registry) (s : Schema) (i : Nat) : Prop :=
  ∀ n batches, (∀ b ∈ batches, b.fields = a.fields ∧ b.Complete ∧ b.FirstUse) →
    ∃ t, ofBatches a batches r ⟨n, none⟩ = .ok t ∧
      ∃ vs c, t.storageValues (.position i) = .ok vs ∧ vs.length = t.size ∧
        s.columns[i]? = some c ∧ ∀ v ∈ vs, c.type.admits v = true

/-- A column of accepted fields can be read just if its own field can be. -/
theorem columnReadable_iff (accepted : a.schema r = .ok s) (hi : i < a.fields.length) :
    ColumnReadable a r s i ↔ a.fields[i].readable = true := by
  have here : i < s.columns.length := Nat.lt_of_lt_of_eq hi (size_accepted accepted).symm
  constructor
  · intro all
    -- One row shows it, if nothing in it is missing.
    by_contra unreadable
    obtain ⟨f, fs, fields⟩ := List.exists_cons_of_length_pos (Nat.zero_lt_of_lt hi)
    have keeps : ∀ b ∈ [Batch.sample f fs], b.fields = a.fields ∧ b.Complete ∧ b.FirstUse :=
      List.forall_mem_singleton.2
        ⟨fields.symm, complete_sample accepted fields, Batch.firstUse_sample f fs⟩
    obtain ⟨t, ht, vs, _, values, _⟩ := all 0 _ keeps
    cases (ofBatches_accepted accepted (fun b hb => (keeps b hb).1) 0).symm.trans ht
    obtain ⟨e, failed⟩ :=
      storageValues_sample accepted hi (Bool.eq_false_iff.2 unreadable) fields
    cases failed.symm.trans values
  · intro readable n batches keeps
    have use : ∀ b ∈ batches, b.fields = a.fields ∧ b.FirstUse := fun b hb =>
      ⟨(keeps b hb).1, (keeps b hb).2.2⟩
    obtain ⟨vs, values, count, fits⟩ := storageValues_readable accepted hi here readable use
    exact ⟨_, ofBatches_accepted accepted (fun b hb => (keeps b hb).1) n, vs, s.columns[i], values,
      count, List.getElem?_eq_getElem here, fits⟩

/-- Row keys, a dictionary of days, and lists with such dictionaries inside. -/
def foreignDays : ArraySchema where
  fields :=
    let day := Field.mk "day" (.dictionary .byte (.leaf .int64)) true (Tag.dictionary "day").metadata
    [.plain "key" (.leaf .utf8), day, .plain "days" (.list day)]
  metadata := .empty

theorem columnReadable_foreignDays : ∃ s, foreignDays.schema .ofDays = .ok s ∧
    ColumnReadable foreignDays .ofDays s 1 ∧ ¬ ColumnReadable foreignDays .ofDays s 2 := by
  refine ⟨_, rfl, ?_, ?_⟩
  · exact (columnReadable_iff rfl (by decide)).2 rfl
  · intro all
    cases (columnReadable_iff rfl (by decide)).1 all

/-- Row keys, and integers that have the name of a dictionary without an identifier. -/
def foreignName : ArraySchema where
  fields := [.plain "key" (.leaf .utf8),
    .mk "n" (.leaf .int32) true (Metadata.empty.insert Tag.nameKey Tag.dictionaryName)]
  metadata := .empty

def foreignNameRows : Batch where
  fields := foreignName.fields
  first := ⟨.leaf .utf8, [.text "Row0", .text "Row1"], by decide⟩
  rest := [⟨.leaf .int32, [.missing, .missing], by decide⟩]
  stored := rfl

/-- The name alone makes no dictionary of the type, but the column is read as one. -/
theorem storageValues_foreignName : ∃ s t, foreignName.schema .empty = .ok s ∧
    s.types = [.plain .string, .plain .int32] ∧ foreignNameRows.fields = foreignName.fields ∧
    foreignNameRows.Complete ∧ foreignNameRows.FirstUse ∧
    ofBatches foreignName [foreignNameRows] .empty ⟨65536, none⟩ = .ok t ∧
    t.storageValues (.position 1) = .error (.ofField (.notStruct "Int32")) := by
  refine ⟨_, _, rfl, rfl, rfl, ?_, ?_, rfl, rfl⟩
  · exact List.forall_mem_cons.2 ⟨rfl, List.forall_mem_singleton.2 rfl⟩
  · intro i f c field _ tagged
    match i, field with
    | 0, rfl => cases tagged
    | 1, rfl => cases tagged

end Table
end LogicalTable
