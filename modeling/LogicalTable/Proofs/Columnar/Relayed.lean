import LogicalTable.Columnar.Import
import LogicalTable.Proofs.Exchange.Unwrapping

/-! What reading fields makes of the schema that they were written from. Fields of a registered
identifier stand for the storage that it was registered with, whatever is tagged below them, and the
identifiers of lists, of row keys and of the host's factories are taken for what the host means. -/
namespace LogicalTable

open Exchange (isHostWrapper listId rowKeyId)

/-- Whether an identifier is registered for no other physical shape. That of row keys is not looked
up. -/
def Registry.Fits (r : Registry) (id : String) (s : Shape) : Prop :=
  id ≠ rowKeyId → ∀ k, r.find? id = some k → k.storage.physical = s.physical

/-- The type of a field with an identifier over storage. -/
def Registry.relay (r : Registry) (id : String) (s : Shape) : DataType :=
  if id = rowKeyId then .logical id s none
  else if id = listId ∨ isHostWrapper id s = true then .plain s
  else
    match r.find? id with
    | some k => k.logicalType
    | none => .logical id s none

mutual

/-- The shape as it comes back from fields. -/
def Shape.relayed (r : Registry) : Shape → Shape
  | .primitive p => .primitive p
  | .list item => .list (item.relayed r)
  | .struct members => .struct (members.relayed r)

def DataType.relayed (r : Registry) : DataType → DataType
  | .plain s => .plain (s.relayed r)
  | .logical id s _ => r.relay id (s.relayed r)

def Members.relayed (r : Registry) : Members → Members
  | .one t => .one (t.relayed r)
  | .cons t ts => .cons (t.relayed r) (ts.relayed r)

end

/-- The type of a column as it comes back: the first one drops the tag of row keys. -/
def DataType.relayedAt (r : Registry) (index : Nat) (t : DataType) : DataType :=
  if index = 0 then Columnar.stripRowKey (t.relayed r) else t.relayed r

def Column.relayed (r : Registry) : (index : Nat) → List Column → List Column
  | _, [] => []
  | index, c :: cs => c.mapType (DataType.relayedAt r index) :: Column.relayed r (index + 1) cs

section Physical

variable {r : Registry}

theorem Registry.physical_relay {id : String} {s u : Shape} (h : r.Fits id s)
    (hu : u.physical = s.physical) : (r.relay id u).physical = .plain s.physical := by
  rw [relay]
  by_cases key : id = rowKeyId
  · rw [if_pos key, DataType.physical, hu]
  rw [if_neg key]
  by_cases own : id = listId ∨ isHostWrapper id u = true
  · rw [if_pos own, DataType.physical, hu]
  rw [if_neg own]
  cases hf : r.find? id with
  | none =>
    dsimp only
    rw [DataType.physical, hu]
  | some k =>
    dsimp only
    rw [Converter.logicalType, DataType.physical, h key k hf]

mutual

theorem Shape.physical_relayed : ∀ s : Shape, s.EveryLogical r.Fits →
    (s.relayed r).physical = s.physical
  | .primitive _, _ => rfl
  | .list t, h => by rw [Shape.relayed, Shape.physical, Shape.physical, t.physical_relayed h]
  | .struct ts, h => by rw [Shape.relayed, Shape.physical, Shape.physical, ts.physical_relayed h]

theorem DataType.physical_relayed : ∀ t : DataType, t.EveryLogical r.Fits →
    (t.relayed r).physical = t.physical
  | .plain s, h => by
    rw [DataType.relayed, DataType.physical, DataType.physical, s.physical_relayed h]
  | .logical id s _, h => by
    rw [DataType.relayed, Registry.physical_relay h.1 (s.physical_relayed h.2), DataType.physical]

theorem Members.physical_relayed : ∀ ts : Members, ts.EveryLogical r.Fits →
    (ts.relayed r).physical = ts.physical
  | .one t, h => by rw [Members.relayed, Members.physical, Members.physical, t.physical_relayed h]
  | .cons t ts, h => by
    rw [Members.relayed, Members.physical, Members.physical, t.physical_relayed h.1,
      ts.physical_relayed h.2]

end

end Physical

section Kept

variable {r : Registry}

mutual

/-- Whether the shape comes back with all its identifiers. -/
def Shape.Kept (r : Registry) : Shape → Prop
  | .primitive _ => True
  | .list item => item.Kept r
  | .struct members => members.Kept r

/-- Whether the type comes back with all its identifiers: below a registered one they have to be
those of the registered storage. -/
def DataType.Kept (r : Registry) : DataType → Prop
  | .plain s => s.Kept r
  | .logical id s _ =>
    if id = rowKeyId then s.Kept r
    else id ≠ listId ∧ isHostWrapper id (s.relayed r) = false ∧
      match r.find? id with
      | some k => k.storage.bare = s.bare
      | none => s.Kept r

def Members.Kept (r : Registry) : Members → Prop
  | .one t => t.Kept r
  | .cons t ts => t.Kept r ∧ ts.Kept r

end

mutual

theorem Shape.bare_relayed : ∀ s : Shape, (s.relayed r).bare = s.bare ↔ s.Kept r
  | .primitive _ => Iff.intro (fun _ => trivial) fun _ => rfl
  | .list t => by
    rw [Shape.relayed, Shape.bare, Shape.bare, Shape.Kept, ← t.bare_relayed]
    exact ⟨Shape.list.inj, congrArg Shape.list⟩
  | .struct ts => by
    rw [Shape.relayed, Shape.bare, Shape.bare, Shape.Kept, ← ts.bare_relayed]
    exact ⟨Shape.struct.inj, congrArg Shape.struct⟩

theorem DataType.bare_relayed : ∀ t : DataType, (t.relayed r).bare = t.bare ↔ t.Kept r
  | .plain s => by
    rw [DataType.relayed, DataType.bare, DataType.bare, DataType.Kept, ← s.bare_relayed]
    exact ⟨DataType.plain.inj, congrArg DataType.plain⟩
  | .logical id s c => by
    have storage := s.bare_relayed
    have same : ∀ u : Shape, (DataType.logical id u none).bare = (DataType.logical id s c).bare ↔
        u.bare = s.bare := by
      intro u
      simp [DataType.bare]
    rw [DataType.relayed, Registry.relay, DataType.Kept]
    by_cases key : id = rowKeyId
    · rw [if_pos key, if_pos key, same, storage]
    rw [if_neg key, if_neg key]
    by_cases own : id = listId ∨ isHostWrapper id (s.relayed r) = true
    · rw [if_pos own]
      constructor
      · rintro ⟨⟩
      · rintro ⟨notList, notHost, _⟩
        rcases own with list | host
        · exact (notList list).elim
        · rw [notHost] at host
          cases host
    rw [if_neg own]
    obtain ⟨notList, notHost⟩ := not_or.1 own
    cases hf : r.find? id with
    | none =>
      dsimp only
      rw [same, storage]
      exact ⟨fun h => ⟨notList, Bool.eq_false_iff.2 notHost, h⟩, fun h => h.2.2⟩
    | some k =>
      dsimp only
      rw [Converter.logicalType, Registry.id_of_find? hf]
      have registered : (DataType.logical id k.storage (some k)).bare = (DataType.logical id s c).bare ↔
          k.storage.bare = s.bare := same k.storage
      rw [registered]
      exact ⟨fun h => ⟨notList, Bool.eq_false_iff.2 notHost, h⟩, fun h => h.2.2⟩

theorem Members.bare_relayed : ∀ ts : Members, (ts.relayed r).bare = ts.bare ↔ ts.Kept r
  | .one t => by
    rw [Members.relayed, Members.bare, Members.bare, Members.Kept, ← t.bare_relayed]
    exact ⟨Members.one.inj, congrArg Members.one⟩
  | .cons t ts => by
    rw [Members.relayed, Members.bare, Members.bare, Members.Kept, ← t.bare_relayed,
      ← ts.bare_relayed]
    constructor
    · intro h
      exact Members.cons.inj h
    · rintro ⟨head, tail⟩
      rw [head, tail]

end

theorem Columnar.stripRowKey_relay {id : String} (key : id ≠ rowKeyId) (s : Shape) :
    stripRowKey (r.relay id s) = r.relay id s := by
  rw [Registry.relay, if_neg key]
  by_cases own : id = listId ∨ isHostWrapper id s = true
  · rw [if_pos own]
    rfl
  · rw [if_neg own]
    cases hf : r.find? id with
    | none => exact if_neg key
    | some k =>
      have other : k.id ≠ rowKeyId := by rwa [Registry.id_of_find? hf]
      exact if_neg other

/-- The first column may not be a row key by its own identifier, since it would lose it. -/
theorem DataType.bare_relayedAt (index : Nat) (t : DataType) :
    (t.relayedAt r index).bare = t.bare ↔ t.Kept r ∧ (index = 0 → t.id? ≠ some rowKeyId) := by
  rw [relayedAt]
  by_cases zero : index = 0
  · rw [if_pos zero]
    cases t with
    | plain s =>
      rw [DataType.relayed, Columnar.stripRowKey]
      · exact (DataType.bare_relayed (.plain s)).trans ⟨fun h => ⟨h, fun _ => nofun⟩, fun h => h.1⟩
      · simp
    | logical id s c =>
      by_cases key : id = rowKeyId
      · constructor
        · intro h
          rw [DataType.relayed, Registry.relay, if_pos key, Columnar.stripRowKey, if_pos key] at h
          cases h
        · rintro ⟨_, other⟩
          exact (other zero (congrArg some key)).elim
      · rw [DataType.relayed, Columnar.stripRowKey_relay key]
        have other : (DataType.logical id s c).id? ≠ some rowKeyId :=
          fun h => key (Option.some.inj h)
        exact (DataType.bare_relayed (.logical id s c)).trans
          ⟨fun h => ⟨h, fun _ => other⟩, fun h => h.1⟩
  · rw [if_neg zero, t.bare_relayed]
    exact ⟨fun h => ⟨h, fun e => (zero e).elim⟩, fun h => h.1⟩

theorem Column.key_relayed : ∀ (cs : List Column) (index : Nat),
    (Column.relayed r index cs).map Column.key = cs.map Column.key ↔
      (∀ c ∈ cs, c.type.Kept r) ∧
        (index = 0 → ∀ c, cs.head? = some c → c.type.id? ≠ some rowKeyId)
  | [], index => by simp [Column.relayed]
  | c :: cs, index => by
    have head : (c.mapType (DataType.relayedAt r index)).key = c.key ↔
        c.type.Kept r ∧ (index = 0 → c.type.id? ≠ some rowKeyId) := by
      rw [← DataType.bare_relayedAt]
      simp [Column.key, Column.mapType]
    have tail := Column.key_relayed cs (index + 1)
    rw [Column.relayed, List.map_cons, List.map_cons, List.cons_eq_cons, head, tail,
      List.forall_mem_cons]
    constructor
    · rintro ⟨⟨hc, first⟩, hcs, _⟩
      refine ⟨⟨hc, hcs⟩, ?_⟩
      rintro zero d ⟨⟩
      exact first zero
    · rintro ⟨⟨hc, hcs⟩, first⟩
      exact ⟨⟨hc, fun zero => first zero c rfl⟩, hcs, fun zero => (Nat.succ_ne_zero index zero).elim⟩

end Kept

/-- The metadata of a column do not disturb its tag. -/
theorem Tag.ofMetadata_insert (m : Metadata) (text : String) :
    Tag.ofMetadata (m.insert columnMetadataKey text) = Tag.ofMetadata m := by
  have name : columnMetadataKey ≠ Tag.nameKey := by decide
  have number : columnMetadataKey ≠ Tag.idKey := by decide
  rw [Tag.ofMetadata, Metadata.get?_insert, Metadata.get?_insert, if_neg name, if_neg number]
  rfl

theorem columnMetadata_tag (t : Tag) : t.metadata.get? columnMetadataKey = none := by
  have name : Tag.nameKey ≠ columnMetadataKey := by decide
  have number : Tag.idKey ≠ columnMetadataKey := by decide
  cases t with
  | none => rfl
  | logical i =>
    rw [Tag.metadata, Metadata.get?_insert, Metadata.get?_insert, if_neg number, if_neg name]
    rfl
  | dictionary i =>
    rw [Tag.metadata, Metadata.get?_insert, Metadata.get?_insert, if_neg number, if_neg name]
    rfl

namespace Columnar

variable {r : Registry}

/-- Storage that is physically what an identifier needs is never refused. -/
theorem applyLogical_relay {id : String} {s u : Shape} (h : r.Fits id s)
    (hu : u.physical = s.physical) : applyLogical r (.plain u) id = .ok (r.relay id u) := by
  have host : (id = listId || Exchange.isHostWrapperOf id (.plain u)) = true ↔
      id = listId ∨ isHostWrapper id u = true := by
    simp [Exchange.isHostWrapperOf]
  rw [applyLogical, Registry.relay]
  by_cases key : id = rowKeyId
  · rw [if_pos key, if_pos key]
    rfl
  rw [if_neg key, if_neg key]
  by_cases own : id = listId ∨ isHostWrapper id u = true
  · rw [if_pos own, if_pos (host.2 own)]
  rw [if_neg own, if_neg fun h => own (host.1 h)]
  cases hf : r.find? id with
  | none => rfl
  | some k =>
    have same : k.storage.samePhysical (DataType.plain u).shape = true :=
      Shape.samePhysical_iff.2 ((h key k hf).trans hu.symm)
    dsimp only
    rw [if_pos same]

mutual

theorem importType_arrayType : ∀ s : Shape, s.EveryLogical r.Fits →
    importType r s.arrayType = .ok (.plain (s.relayed r))
  | .primitive p, _ => by
    rw [Shape.arrayType, importType, p.primitive?_leafType]
    rfl
  | .list t, h => by
    rw [Shape.arrayType, importType, importField_tagged t h "item"]
    rfl
  | .struct ts, h => by
    rw [Shape.arrayType, importType, importFields_fields ts h 0, ok_bind, DataType.struct?_toList]
    rfl

theorem importField_tagged : ∀ t : DataType, t.EveryLogical r.Fits → ∀ name,
    importField r (.mk name t.arrayType true t.tag.metadata) = .ok (t.relayed r)
  | .plain s, h, name => by
    rw [importField, Tag.ofMetadata_metadata]
    exact importType_arrayType s h
  | .logical id s c, h, name => by
    rw [importField, Tag.ofMetadata_metadata, DataType.arrayType]
    dsimp only [DataType.tag]
    rw [importType_arrayType s h.2, ok_bind, applyLogical_relay h.1 (s.physical_relayed h.2),
      DataType.relayed]

theorem importFields_fields : ∀ ts : Members, ts.EveryLogical r.Fits → ∀ index,
    importFields r (ts.fields index) = .ok (ts.relayed r).toList
  | .one t, h, index => by
    rw [Members.fields, importFields, importField_tagged t h]
    rfl
  | .cons t ts, h, index => by
    rw [Members.fields, importFields, importField_tagged t h.1, ok_bind,
      importFields_fields ts h.2 (index + 1)]
    rfl

end

/-- The tag that stands on the field of a column. -/
theorem ofMetadata_field (c : Column) (index : Nat) (r : Registry) :
    Tag.ofMetadata (c.field index r).metadata = c.type.columnTag index (c.type.dictKeyIn? r) := by
  rw [Column.field, Field.metadata]
  cases c.metadata with
  | none => exact Tag.ofMetadata_metadata _
  | some text => exact (Tag.ofMetadata_insert _ text).trans (Tag.ofMetadata_metadata _)

theorem get?_field (c : Column) (index : Nat) (r : Registry) :
    (c.field index r).metadata.get? columnMetadataKey = c.metadata := by
  rw [Column.field, Field.metadata]
  cases c.metadata with
  | none => exact columnMetadata_tag _
  | some text =>
    dsimp only
    rw [Metadata.get?_insert, if_pos rfl]

/-- A plain first column is tagged as the row key; a dictionary has its values under another field. -/
theorem importField_field {c : Column} {index : Nat} (h : c.type.EveryLogical r.Fits) :
    ∃ u, importField r (c.field index r) = .ok u ∧
      (if index = 0 then stripRowKey u else u) = c.type.relayedAt r index := by
  have tag := ofMetadata_field c index r
  obtain ⟨type, name, metadata, named⟩ := c
  rw [Column.field, Field.metadata] at tag
  rw [Column.field, importField, tag]
  dsimp only at h ⊢
  cases type with
  | plain s =>
    have read := importType_arrayType s h
    by_cases zero : index = 0
    · refine ⟨.logical rowKeyId (s.relayed r) none, ?_, ?_⟩
      · simp only [DataType.columnTag, DataType.id?, if_pos zero]
        exact bind_eq_ok.2 ⟨_, read, rfl⟩
      · rw [if_pos zero, DataType.relayedAt, if_pos zero]
        rfl
    · refine ⟨.plain (s.relayed r), ?_, by rw [if_neg zero, DataType.relayedAt, if_neg zero]; rfl⟩
      simp only [DataType.columnTag, DataType.id?, if_neg zero]
      exact read
  | logical id s k =>
    have read := importType_arrayType s h.2
    have applied := applyLogical_relay h.1 (s.physical_relayed h.2)
    refine ⟨r.relay id (s.relayed r), ?_, rfl⟩
    cases (DataType.logical id s k).dictKeyIn? r with
    | none =>
      dsimp only [DataType.columnTag, DataType.id?, DataType.columnArrayType, DataType.arrayType]
      rw [read, ok_bind, applied]
    | some key =>
      have parts := ArrayType.dictionaryParts_dictionary key s.arrayType
      rw [ArrayType.dictionary] at parts
      dsimp only [DataType.columnTag, DataType.id?, DataType.columnArrayType, DataType.arrayType]
      rw [ArrayType.dictionary, importDictionary, parts, ok_bind, Field.plain, importField]
      exact bind_eq_ok.2 ⟨_, read, applied⟩

theorem importColumn_field {c : Column} {index : Nat} (h : c.type.EveryLogical r.Fits) :
    importColumn r index (c.field index r) = .ok (c.mapType (DataType.relayedAt r index)) := by
  obtain ⟨u, read, same⟩ := importField_field h
  have made : Column.make? (c.type.relayedAt r index) c.name c.metadata =
      .ok (c.mapType (DataType.relayedAt r index)) := dif_pos c.named
  rw [importColumn, read, get?_field, Column.field, Field.name]
  change orFail FieldError.construction (Column.make? (if index = 0 then stripRowKey u else u) c.name
    c.metadata) = _
  rw [same, made]
  rfl

theorem importColumns_relayed : ∀ (cs : List Column) (index : Nat),
    (∀ c ∈ cs, c.type.EveryLogical r.Fits) →
    importColumns r index (Column.fields r index cs) = .ok (Column.relayed r index cs)
  | [], _, _ => rfl
  | c :: cs, index, h => by
    obtain ⟨hc, hcs⟩ := List.forall_mem_cons.1 h
    rw [Column.fields, importColumns, importColumn_field hc, ok_bind,
      importColumns_relayed cs (index + 1) hcs]
    rfl

end Columnar
end LogicalTable
