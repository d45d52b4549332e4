import LogicalTable.Proofs.Columnar.Relayed
import LogicalTable.Proofs.Exchange.Reimport
import LogicalTable.Registry.BuiltIn

/-! Schemas that were read from documents of the host, carried over to fields and back. Both readers
compare the storage of an identifier with the registry by its physical shape alone, but documents
keep the storage that they declare where fields put the registered one in its place. -/
namespace LogicalTable

open Exchange (rowKeyId)

theorem Registry.Serves.fits {r : Registry} {id : String} {s : Shape} (h : r.Serves id s) :
    r.Fits id s := by
  intro _ k hk
  obtain ⟨c, hc, same⟩ := h
  rw [hc] at hk
  cases hk
  exact same

theorem DataType.physical_relayedAt {r : Registry} {t : DataType} (h : t.EveryLogical r.Fits)
    (index : Nat) : (t.relayedAt r index).physical = t.physical := by
  have strip : ∀ u : DataType, (Columnar.stripRowKey u).physical = u.physical := by
    intro u
    cases u with
    | plain s => rfl
    | logical id s c =>
      rw [Columnar.stripRowKey]
      split
      · rfl
      · rfl
  rw [relayedAt]
  by_cases zero : index = 0
  · rw [if_pos zero, strip, t.physical_relayed h]
  · rw [if_neg zero, t.physical_relayed h]

/-- What no type of a column has a part in comes back as it was. -/
theorem Column.map_relayed {r : Registry} {f : Column → β} : ∀ (cs : List Column) (index : Nat),
    (∀ c ∈ cs, ∀ index, f (c.mapType (DataType.relayedAt r index)) = f c) →
    (Column.relayed r index cs).map f = cs.map f
  | [], _, _ => rfl
  | c :: cs, index, h => by
    obtain ⟨hc, hcs⟩ := List.forall_mem_cons.1 h
    rw [Column.relayed, List.map_cons, List.map_cons, hc index,
      Column.map_relayed cs (index + 1) hcs]

theorem Exchange.fits_of_importSchema {d : Document} {r : Registry} {s : Schema}
    (read : importSchema d r = .ok s) : ∀ c ∈ s.columns, c.type.EveryLogical r.Fits := by
  intro c hc
  have served := ((importSchema_linked d r).value s read c hc).served
  exact served.imp₂ (fun _ _ h _ => h.2.fits) served

theorem Schema.schema_arraySchema_relayed {r : Registry} {s : Schema}
    (fits : ∀ c ∈ s.columns, c.type.EveryLogical r.Fits) (n : Nat) :
    (s.arraySchema r n).schema r = .ok ⟨Column.relayed r 0 s.columns⟩ := by
  rw [ArraySchema.schema, arraySchema, Columnar.importColumns_relayed s.columns 0 fits]
  rfl

section Spans

theorem Registry.exists_of_any {r : Registry} {id : String} {u : Shape}
    (h : (r.find? id).any (·.storage.same u) = true) :
    ∃ k, r.find? id = some k ∧ k.storage.bare = u.bare := by
  cases hf : r.find? id with
  | none => simp [hf] at h
  | some k => exact ⟨k, rfl, (Shape.same_iff _ _).1 (by simpa [hf] using h)⟩

def spanId : String :=
  "\x7b\"value_factory_class\":\"org.knime.core.data.v2.time.DurationValueFactory\"\x7d"

def timeOfDayId : String :=
  "\x7b\"value_factory_class\":\"org.knime.core.data.v2.time.LocalTimeValueFactory\"\x7d"

theorem Exchange.hostClass?_times : hostClass? spanId = none ∧ hostClass? timeOfDayId = none := by
  decide +kernel

theorem Registry.find?_builtIn :
    (∃ k, builtIn.find? spanId = some k ∧ k.storage.bare = (Shape.record .int64 [.int32]).bare) ∧
    ∃ k, builtIn.find? timeOfDayId = some k ∧ k.storage.bare = Shape.int64.bare := by
  have both : (builtIn.find? spanId).any (·.storage.same (.record .int64 [.int32])) = true ∧
      (builtIn.find? timeOfDayId).any (·.storage.same .int64) = true := by decide +kernel
  exact ⟨exists_of_any both.1, exists_of_any both.2⟩

def spanStorage (time : Option Converter) : Shape :=
  .struct (.cons (.logical timeOfDayId .int64 time) (.one (.plain .int32)))

namespace Exchange

def spanSpec : Spec := .struct [.leaf "int64", .leaf "int32"]

def spanTraits : Traits :=
  .struct { logicalType := some spanId } [.simple { logicalType := some timeOfDayId }, .simple .empty]

def Document.ofSpans : Document :=
  ⟨[.leaf "string", spanSpec], [.simple .empty, spanTraits], ["key", "span"], [none, none]⟩

end Exchange

/-- A registry in which spans have a time of day in their storage. -/
def Registry.ofSpans : Registry :=
  ⟨[.mk timeOfDayId .int64 none .time, .mk spanId (spanStorage none) none .duration],
    by simp [Converter.id, timeOfDayId, spanId]⟩

theorem allBlank_key : Text.allBlank "key" = false := by decide

def Schema.ofSpans (span time : Converter) : Schema := ⟨[
  ⟨.plain .string, "key", none, allBlank_key⟩,
  ⟨.logical spanId (spanStorage (some time)) (some span), "span", none, by decide⟩]⟩

theorem Exchange.applyLogical_registered {r : Registry} {id : String} {k : Converter} {s : Shape}
    (hk : r.find? id = some k) (foreign : hostClass? id = none)
    (fit : k.storage.physical = s.physical) :
    applyLogical r s (some id) = .ok (.logical id s (some k)) := by
  have own : ¬ isHostWrapper id s = true := by simp [isHostWrapper, foreign]
  rw [applyLogical, if_neg own, hk]
  exact if_pos (Shape.samePhysical_iff.2 fit)

theorem Exchange.importSchema_ofSpans {r : Registry} {span time : Converter}
    (hs : r.find? spanId = some span)
    (spanFits : span.storage.physical = Shape.record .int64 [.int32])
    (ht : r.find? timeOfDayId = some time) (timeFits : time.storage.physical = Shape.int64) :
    importSchema .ofSpans r = .ok (.ofSpans span time) := by
  have part : applyLogical r .int64 (some timeOfDayId) = .ok (.logical timeOfDayId .int64 (some time)) :=
    applyLogical_registered ht hostClass?_times.2 timeFits
  have whole : applyLogical r (spanStorage (some time)) (some spanId) =
      .ok (.logical spanId (spanStorage (some time)) (some span)) :=
    applyLogical_registered hs hostClass?_times.1 spanFits
  have long : importShape r (.leaf "int64") (.simple { logicalType := some timeOfDayId }) =
      .ok .int64 := rfl
  have members : importTypes r [.leaf "int64", .leaf "int32"]
      [.simple { logicalType := some timeOfDayId }, .simple .empty] =
      .ok [.logical timeOfDayId .int64 (some time), .plain .int32] := by
    rw [importTypes, long, ok_bind, Traits.own, part]
    rfl
  have shape : importShape r spanSpec spanTraits = .ok (spanStorage (some time)) := by
    rw [spanSpec, spanTraits, importShape, if_neg (by simp), members]
    rfl
  have later : columnId 1 spanTraits.own = some spanId := if_neg (by simp)
  have column : importColumnType r 1 spanSpec spanTraits =
      .ok (.logical spanId (spanStorage (some time)) (some span)) := by
    rw [importColumnType, shape, ok_bind, later, whole]
  have key : importColumnType r 0 (.leaf "string") (.simple .empty) = .ok (.plain .string) := rfl
  rw [importSchema, if_neg (by simp [Document.ofSpans]), Document.ofSpans, importColumns, key,
    importColumns, column]
  rfl

end Spans

/-- The fields of a schema that a document gave are read for any registry and chunk size, with the
same names, metadata and physical shapes. The schema is the same just where the types that documents
declare below a registered identifier are those of the registered storage, and no identifier is one
that fields reserve for lists or row keys. -/
theorem Schema.schema_arraySchema_of_importSchema {d : Exchange.Document} {r : Registry} {s : Schema}
    (read : Exchange.importSchema d r = .ok s) (n : Nat) :
    ∃ t, (s.arraySchema r n).schema r = .ok t ∧ t.names = s.names ∧
      t.columns.map Column.metadata = s.columns.map Column.metadata ∧
      t.types.map DataType.physical = s.types.map DataType.physical ∧
      ((t == s) = true ↔ (∀ c ∈ s.columns, c.type.Kept r) ∧
        ∀ c, s.columns.head? = some c → c.type.id? ≠ some rowKeyId) := by
  have fits := Exchange.fits_of_importSchema read
  refine ⟨_, Schema.schema_arraySchema_relayed fits n, ?_, ?_, ?_, ?_⟩
  · exact Column.map_relayed s.columns 0 fun _ _ _ => rfl
  · exact Column.map_relayed s.columns 0 fun _ _ _ => rfl
  · rw [types, types, List.map_map, List.map_map]
    exact Column.map_relayed s.columns 0 fun c hc => DataType.physical_relayedAt (fits c hc)
  · rw [Schema.beq_iff, Column.key_relayed]
    exact and_congr_right fun _ => ⟨fun h => h rfl, fun h _ => h⟩

theorem Schema.schema_arraySchema_ofSpans_registered :
    ∃ s t, Exchange.importSchema .ofSpans .ofSpans = .ok s ∧
      (s.arraySchema .ofSpans 1024).schema .ofSpans = .ok t ∧ (t == s) = true := by
  have other : timeOfDayId ≠ spanId := by simp [timeOfDayId, spanId]
  have hs : Registry.ofSpans.find? spanId = some (.mk spanId (spanStorage none) none .duration) := by
    simp [Registry.find?, Registry.ofSpans, Converter.id, other]
  have ht : Registry.ofSpans.find? timeOfDayId = some (.mk timeOfDayId .int64 none .time) := by
    simp [Registry.find?, Registry.ofSpans, Converter.id]
  have read := Exchange.importSchema_ofSpans hs rfl ht rfl
  obtain ⟨t, fields, _, _, _, same⟩ := Schema.schema_arraySchema_of_importSchema read 1024
  refine ⟨_, t, read, fields, same.2 ⟨?_, ?_⟩⟩
  · have notKey : spanId ≠ rowKeyId := by simp [spanId, rowKeyId]
    have notList : spanId ≠ Exchange.listId := by simp [spanId, Exchange.listId]
    intro c hc
    rcases List.mem_cons.1 hc with rfl | hc
    · trivial
    · obtain rfl := List.mem_singleton.1 hc
      rw [DataType.Kept, if_neg notKey, hs]
      exact ⟨notList, by simp [Exchange.isHostWrapper, Exchange.hostClass?_times], rfl⟩
  · rintro c ⟨⟩
    simp [DataType.id?]

/-- The tag of the first part does not come back. -/
theorem Schema.schema_arraySchema_ofSpans :
    ∃ s t, Exchange.importSchema .ofSpans .builtIn = .ok s ∧
      (s.arraySchema .builtIn 1024).schema .builtIn = .ok t ∧ (t == s) = false := by
  obtain ⟨⟨span, hs, spanBare⟩, time, ht, timeBare⟩ := Registry.find?_builtIn
  have read := Exchange.importSchema_ofSpans hs (Shape.physical_eq_of_bare_eq spanBare) ht
    (Shape.physical_eq_of_bare_eq timeBare)
  have fields := Schema.schema_arraySchema_relayed (Exchange.fits_of_importSchema read) 1024
  refine ⟨_, _, read, fields, Bool.eq_false_iff.2 fun same => ?_⟩
  have kept := ((Column.key_relayed _ 0).1 (Schema.beq_iff.1 same)).1 _
    (List.mem_cons_of_mem _ List.mem_cons_self)
  have other : spanId ≠ rowKeyId := by simp [spanId, rowKeyId]
  rw [DataType.Kept, if_neg other, hs] at kept
  have declared := spanBare.symm.trans kept.2.2
  cases declared

end LogicalTable
