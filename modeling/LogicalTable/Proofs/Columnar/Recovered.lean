import LogicalTable.Proofs.Columnar.HostSchemas
import LogicalTable.Proofs.Columnar.Readable

/-! Schemas recovered from the fields of any writer, and carried over to fields once more. Whatever the
fields were, the types recovered have the storage of the registry below every registered identifier. Only
the host's own factories come back as something else: whether an identifier is one of them is decided by the
storage that is declared, while it is the registered storage that is written. -/
namespace LogicalTable

open Exchange (isHostWrapper listId rowKeyId)

/-- Whether the logical types within registered storage are unregistered, or registered for the same physical
shape. -/
def Registry.Consistent (r : Registry) : Prop := ∀ k ∈ r.converters, k.storage.EveryLogical r.Fits

mutual

/-- Whether a shape can have been recovered from fields under a registry. -/
def Shape.Recovered (r : Registry) : Shape → Prop
  | .primitive _ => True
  | .list item => item.Recovered r
  | .struct members => members.Recovered r

/-- Whether a type can have been recovered from fields under a registry. A registered identifier has the
registered storage and its converter. Any other one has none, and is not that of a factory of the host. -/
def DataType.Recovered (r : Registry) : DataType → Prop
  | .plain s => s.Recovered r
  | .logical id s c =>
    if id = rowKeyId then c = none ∧ s.Recovered r
    else id ≠ listId ∧
      match r.find? id with
      | some k => s = k.storage ∧ c = some k
      | none => c = none ∧ isHostWrapper id s = false ∧ s.Recovered r

def Members.Recovered (r : Registry) : Members → Prop
  | .one t => t.Recovered r
  | .cons t ts => t.Recovered r ∧ ts.Recovered r

end

mutual

/-- The converters of a shape that are not within the storage of one another. -/
def Shape.converters : Shape → List Converter
  | .primitive _ => []
  | .list item => item.converters
  | .struct members => members.converters

def DataType.converters : DataType → List Converter
  | .plain s => s.converters
  | .logical _ _ (some k) => [k]
  | .logical _ s none => s.converters

def Members.converters : Members → List Converter
  | .one t => t.converters
  | .cons t ts => t.converters ++ ts.converters

end

/-- Whether a converter is registered for the identifier and the storage of one of the host's factories, as
fields have the storage. -/
def Converter.HostOwned (r : Registry) (k : Converter) : Prop :=
  isHostWrapper k.id (k.storage.relayed r) = true

instance (r : Registry) (k : Converter) : Decidable (k.HostOwned r) := inferInstanceAs (Decidable (_ = _))

section Import

variable {r : Registry}

theorem Members.recovered_ofList : ∀ {t : DataType} {ts : List DataType},
    t.Recovered r → (∀ u ∈ ts, u.Recovered r) → (Members.ofList t ts).Recovered r
  | _, [], ht, _ => ht
  | _, u :: us, ht, h => by
    obtain ⟨hu, hus⟩ := List.forall_mem_cons.1 h
    exact ⟨ht, Members.recovered_ofList hu hus⟩

theorem DataType.recovered_struct? {ts : List DataType} {t : DataType}
    (h : ∀ u ∈ ts, u.Recovered r) (made : DataType.struct? ts = .ok t) : t.Recovered r := by
  cases ts with
  | nil => cases made
  | cons u us =>
    cases made
    obtain ⟨hu, hus⟩ := List.forall_mem_cons.1 h
    exact Members.recovered_ofList hu hus

namespace Columnar

theorem recovered_applyLogical {storage t : DataType} {id : String} (h : storage.Recovered r)
    (applied : applyLogical r storage id = .ok t) : t.Recovered r := by
  rw [applyLogical] at applied
  split at applied
  · next key =>
    have made := orFail_eq_ok.1 applied
    cases storage with
    | logical => cases made
    | plain s =>
      cases made
      rw [DataType.Recovered, if_pos key]
      exact ⟨rfl, h⟩
  · next key =>
    split at applied
    · cases applied
      exact h
    · next own =>
      obtain ⟨notList, notHost⟩ := not_or.1 fun either => own (Bool.or_eq_true_iff.2 either)
      have other : id ≠ listId := fun list => notList (decide_eq_true list)
      cases found : r.find? id with
      | some k =>
        rw [found] at applied
        dsimp only at applied
        split at applied
        · cases applied
          have same := Registry.id_of_find? found
          rw [Converter.logicalType, same, DataType.Recovered, if_neg key, found]
          exact ⟨other, rfl, rfl⟩
        · cases applied
      | none =>
        rw [found] at applied
        have made := orFail_eq_ok.1 applied
        cases storage with
        | logical => cases made
        | plain s =>
          cases made
          rw [DataType.Recovered, if_neg key, found]
          exact ⟨other, rfl, Bool.eq_false_iff.2 notHost, h⟩

mutual

theorem recovered_importType : ∀ (t : ArrayType) {u : DataType}, importType r t = .ok u → u.Recovered r
  | .leaf t, u, h => by
    rw [importType] at h
    split at h
    · cases h
      trivial
    · cases h
  | .list f, u, h => by
    obtain ⟨item, hi, ⟨⟩⟩ := bind_eq_ok.1 h
    have recovered : item.Recovered r := recovered_importField f hi
    exact recovered
  | .largeList f, u, h => by
    obtain ⟨item, hi, ⟨⟩⟩ := bind_eq_ok.1 h
    have recovered : item.Recovered r := recovered_importField f hi
    exact recovered
  | .struct fs, u, h => by
    obtain ⟨ts, hts, made⟩ := bind_eq_ok.1 h
    exact DataType.recovered_struct? (recovered_importFields fs hts) (orFail_eq_ok.1 made)

theorem recovered_importField : ∀ (f : Field) {u : DataType}, importField r f = .ok u → u.Recovered r
  | .mk _ t _ m, u, h => by
    rw [importField] at h
    split at h
    · exact recovered_importType t h
    · obtain ⟨storage, hs, applied⟩ := bind_eq_ok.1 h
      exact recovered_applyLogical (recovered_importType t hs) applied
    · obtain ⟨storage, hs, applied⟩ := bind_eq_ok.1 h
      exact recovered_applyLogical (recovered_importDictionary t hs) applied

theorem recovered_importDictionary : ∀ (t : ArrayType) {u : DataType},
    importDictionary r t = .ok u → u.Recovered r
  | .struct [key, value], u, h => by
    obtain ⟨_, _, hv⟩ := bind_eq_ok.1 h
    exact recovered_importField value hv
  | .leaf t, u, h => by cases h
  | .list f, u, h => by cases h
  | .largeList f, u, h => by cases h
  | .struct [], u, h => by cases h
  | .struct [_], u, h => by cases h
  | .struct (_ :: _ :: _ :: _), u, h => by cases h

theorem recovered_importFields : ∀ (fs : List Field) {ts : List DataType},
    importFields r fs = .ok ts → ∀ u ∈ ts, u.Recovered r
  | [], ts, h => by
    cases h
    exact List.forall_mem_nil _
  | f :: fs, ts, h => by
    obtain ⟨t, ht, h⟩ := bind_eq_ok.1 h
    obtain ⟨ts, hts, ⟨⟩⟩ := bind_eq_ok.1 h
    exact List.forall_mem_cons.2 ⟨recovered_importField f ht, recovered_importFields fs hts⟩

end

theorem recovered_stripRowKey {t : DataType} (h : t.Recovered r) : (stripRowKey t).Recovered r := by
  cases t with
  | plain s => exact h
  | logical id s c =>
    rw [stripRowKey]
    by_cases key : id = rowKeyId
    · rw [DataType.Recovered, if_pos key] at h
      rw [if_pos key]
      exact h.2
    · rwa [if_neg key]

theorem id?_stripRowKey (t : DataType) : (stripRowKey t).id? ≠ some rowKeyId := by
  intro same
  cases t with
  | plain s => cases same
  | logical id s c =>
    rw [stripRowKey] at same
    by_cases key : id = rowKeyId
    · rw [if_pos key] at same
      cases same
    · rw [if_neg key] at same
      exact key (Option.some.inj same)

theorem recovered_importColumn {index : Nat} {f : Field} {c : Column}
    (h : importColumn r index f = .ok c) :
    c.type.Recovered r ∧ (index = 0 → c.type.id? ≠ some rowKeyId) := by
  obtain ⟨t, ht, type⟩ := importColumn_eq_ok h
  have recovered := recovered_importField f ht
  rw [type]
  by_cases first : index = 0
  · rw [if_pos first]
    exact ⟨recovered_stripRowKey recovered, fun _ => id?_stripRowKey t⟩
  · rw [if_neg first]
    exact ⟨recovered, fun zero => (first zero).elim⟩

theorem recovered_importColumns {index : Nat} {fs : List Field} {cs : List Column}
    (h : importColumns r index fs = .ok cs) :
    (∀ c ∈ cs, c.type.Recovered r) ∧
      (index = 0 → ∀ c, cs.head? = some c → c.type.id? ≠ some rowKeyId) := by
  induction fs generalizing index cs with
  | nil =>
    cases h
    exact ⟨List.forall_mem_nil _, fun _ => nofun⟩
  | cons f fs ih =>
    obtain ⟨c, hc, rest⟩ := bind_eq_ok.1 h
    obtain ⟨cs, hcs, ⟨⟩⟩ := bind_eq_ok.1 rest
    obtain ⟨recovered, first⟩ := recovered_importColumn hc
    refine ⟨List.forall_mem_cons.2 ⟨recovered, (ih hcs).1⟩, ?_⟩
    rintro zero d ⟨⟩
    exact first zero

end Columnar

end Import

section Kept

variable {r : Registry}

mutual

theorem Shape.fits_of_recovered (h : r.Consistent) : ∀ s : Shape, s.Recovered r → s.EveryLogical r.Fits
  | .primitive _, _ => trivial
  | .list t, recovered => t.fits_of_recovered h recovered
  | .struct ts, recovered => ts.fits_of_recovered h recovered

theorem DataType.fits_of_recovered (h : r.Consistent) : ∀ t : DataType, t.Recovered r →
    t.EveryLogical r.Fits
  | .plain s, recovered => s.fits_of_recovered h recovered
  | .logical id s c, recovered => by
    rw [DataType.Recovered] at recovered
    by_cases key : id = rowKeyId
    · rw [if_pos key] at recovered
      exact ⟨fun other => (other key).elim, s.fits_of_recovered h recovered.2⟩
    · rw [if_neg key] at recovered
      cases found : r.find? id with
      | some k =>
        rw [found] at recovered
        obtain ⟨_, rfl, _⟩ := recovered
        refine ⟨fun _ l hl => ?_, h k (List.mem_of_find?_eq_some found)⟩
        cases found.symm.trans hl
        rfl
      | none =>
        rw [found] at recovered
        refine ⟨fun _ l hl => ?_, s.fits_of_recovered h recovered.2.2.2⟩
        cases found.symm.trans hl

theorem Members.fits_of_recovered (h : r.Consistent) : ∀ ts : Members, ts.Recovered r →
    ts.EveryLogical r.Fits
  | .one t, recovered => t.fits_of_recovered h recovered
  | .cons t ts, recovered => ⟨t.fits_of_recovered h recovered.1, ts.fits_of_recovered h recovered.2⟩

end

mutual

theorem Shape.kept_iff_of_recovered : ∀ s : Shape, s.Recovered r →
    (s.Kept r ↔ ∀ k ∈ s.converters, ¬k.HostOwned r)
  | .primitive _, _ => ⟨fun _ => List.forall_mem_nil _, fun _ => trivial⟩
  | .list t, h => t.kept_iff_of_recovered h
  | .struct ts, h => ts.kept_iff_of_recovered h

/-- What was recovered comes back, but for what a factory of the host owns. -/
theorem DataType.kept_iff_of_recovered : ∀ t : DataType, t.Recovered r →
    (t.Kept r ↔ ∀ k ∈ t.converters, ¬k.HostOwned r)
  | .plain s, h => s.kept_iff_of_recovered h
  | .logical id s c, h => by
    rw [DataType.Recovered] at h
    rw [DataType.Kept]
    by_cases key : id = rowKeyId
    · rw [if_pos key] at h ⊢
      obtain ⟨rfl, h⟩ := h
      exact s.kept_iff_of_recovered h
    rw [if_neg key] at h ⊢
    cases found : r.find? id with
    | some k =>
      rw [found] at h
      obtain ⟨notList, rfl, rfl⟩ := h
      have single : (∀ l ∈ (DataType.logical id k.storage (some k)).converters, ¬l.HostOwned r) ↔
          ¬k.HostOwned r := List.forall_mem_singleton
      rw [single, Converter.HostOwned, Registry.id_of_find? found, Bool.not_eq_true]
      exact ⟨fun kept => kept.2.1, fun notHost => ⟨notList, notHost, rfl⟩⟩
    | none =>
      rw [found] at h
      obtain ⟨notList, rfl, notHost, h⟩ := h
      have storage := s.kept_iff_of_recovered h
      constructor
      · exact fun kept => storage.1 kept.2.2
      · intro free
        have kept := storage.2 free
        -- The storage comes back as it was, so that the identifier is none of the host's either way.
        rw [Exchange.isHostWrapper_eq_of_bare_eq id (s.bare_relayed.2 kept)]
        exact ⟨notList, notHost, kept⟩

theorem Members.kept_iff_of_recovered : ∀ ts : Members, ts.Recovered r →
    (ts.Kept r ↔ ∀ k ∈ ts.converters, ¬k.HostOwned r)
  | .one t, h => t.kept_iff_of_recovered h
  | .cons t ts, h => by
    rw [Members.Kept, Members.converters, List.forall_mem_append, t.kept_iff_of_recovered h.1,
      ts.kept_iff_of_recovered h.2]

end

end Kept

/-- The fields of a recovered schema are read again for any chunk size, with the same names, metadata and
physical shapes. The schema is the same just where no registered type in it is one that a factory of the
host owns. -/
theorem Schema.schema_arraySchema_recovered {a : ArraySchema} {r : Registry} {s : Schema}
    (consistent : r.Consistent) (read : a.schema r = .ok s) (n : Nat) :
    ∃ t, (s.arraySchema r n).schema r = .ok t ∧ t.names = s.names ∧
      t.columns.map Column.metadata = s.columns.map Column.metadata ∧
      t.types.map DataType.physical = s.types.map DataType.physical ∧
      ((t == s) = true ↔ ∀ c ∈ s.columns, ∀ k ∈ c.type.converters, ¬k.HostOwned r) := by
  have columns : Columnar.importColumns r 0 a.fields = .ok s.columns := by
    rw [ArraySchema.schema] at read
    cases imported : Columnar.importColumns r 0 a.fields with
    | error e =>
      rw [imported] at read
      cases read
    | ok cs =>
      rw [imported] at read
      cases read
      rfl
  obtain ⟨recovered, first⟩ := Columnar.recovered_importColumns columns
  have fits : ∀ c ∈ s.columns, c.type.EveryLogical r.Fits := fun c hc =>
    c.type.fits_of_recovered consistent (recovered c hc)
  refine ⟨_, Schema.schema_arraySchema_relayed fits n, ?_, ?_, ?_, ?_⟩
  · exact Column.map_relayed s.columns 0 fun _ _ _ => rfl
  · exact Column.map_relayed s.columns 0 fun _ _ _ => rfl
  · rw [types, types, List.map_map, List.map_map]
    exact Column.map_relayed s.columns 0 fun c hc => DataType.physical_relayedAt (fits c hc)
  · rw [Schema.beq_iff, Column.key_relayed, and_iff_left first]
    exact forall₂_congr fun c hc => c.type.kept_iff_of_recovered (recovered c hc)

def intListId : String :=
  "\x7b\"value_factory_class\":\"org.knime.core.data.v2.value.IntListValueFactory\"\x7d"

def Registry.ofIntLists : Registry :=
  ⟨[.mk intListId (.list (.plain .int32)) none (.extension ⟨7, "lists"⟩ .ok .ok),
    .mk "day" .int64 none .date], by simp [Converter.id, intListId]⟩

/-- Keys, days, and wide lists of colours, which are under an identifier or not. -/
def ArraySchema.ofColours (tag : Tag) : ArraySchema where
  fields :=
    let colour := Field.mk "colour" (.leaf .int32) false (Tag.logical "colour").metadata
    [.plain "key" (.leaf .largeUtf8),
      .mk "start" (.leaf .int64) false (Tag.logical "day").metadata,
      .mk "colours" (.largeList colour) true tag.metadata]
  metadata := .empty

theorem Registry.consistent_ofIntLists : Registry.ofIntLists.Consistent := by
  intro k hk
  simp only [Registry.ofIntLists, List.mem_cons, List.not_mem_nil, or_false] at hk
  rcases hk with rfl | rfl <;> trivial

/-- Without a tag on the lists, the fields that were read keep their types. -/
theorem Schema.schema_arraySchema_untagged :
    Registry.ofIntLists.Consistent ∧
    ∃ s t, (ArraySchema.ofColours .none).schema .ofIntLists = .ok s ∧
      (s.arraySchema .ofIntLists 1024).schema .ofIntLists = .ok t ∧ (t == s) = true := by
  have read : (ArraySchema.ofColours .none).schema .ofIntLists = .ok _ := rfl
  obtain ⟨t, again, _, _, _, same⟩ :=
    Schema.schema_arraySchema_recovered Registry.consistent_ofIntLists read 1024
  refine ⟨Registry.consistent_ofIntLists, _, t, read, again, same.2 ?_⟩
  intro c hc k hk
  have day : ¬(Converter.mk "day" .int64 none .date).HostOwned .ofIntLists := by decide
  simp only [List.mem_cons, List.not_mem_nil, or_false] at hc
  rcases hc with rfl | rfl | rfl
  · cases hk
  · rwa [List.mem_singleton.1 hk]
  · cases hk

/-- Lists of colours are not what the host's factory makes, so that the identifier is looked up. It is lost
the next time, since plain lists are registered for it. -/
theorem Schema.schema_arraySchema_ofColours :
    Registry.ofIntLists.Consistent ∧
    ∃ s t, (ArraySchema.ofColours (.logical intListId)).schema .ofIntLists = .ok s ∧
      (s.arraySchema .ofIntLists 1024).schema .ofIntLists = .ok t ∧ (t == s) = false := by
  have outcome : (((ArraySchema.ofColours (.logical intListId)).schema .ofIntLists).toOption.bind fun s =>
      ((s.arraySchema .ofIntLists 1024).schema .ofIntLists).toOption.map fun t => t == s) = some false := by
    decide +kernel
  have success {x : Except FieldError Schema} {s : Schema} (h : x.toOption = some s) : x = .ok s := by
    cases x with
    | error e => cases h
    | ok u => exact congrArg Except.ok (Option.some.inj h)
  obtain ⟨s, hs, outcome⟩ := Option.bind_eq_some_iff.1 outcome
  obtain ⟨t, ht, same⟩ := Option.map_eq_some_iff.1 outcome
  exact ⟨Registry.consistent_ofIntLists, s, t, success hs, success ht, same⟩

end LogicalTable
