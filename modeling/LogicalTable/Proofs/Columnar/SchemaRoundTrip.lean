import LogicalTable.Proofs.Columnar.Relayed
import LogicalTable.Registry.Factory

/-! Schemas read back from their fields. Fields keep every identifier, known or not, but those that
reading takes for a list, for a factory of the host or for the row key, and a registered identifier
stands for the storage that it was registered with. -/
namespace LogicalTable

open Exchange (isHostWrapper listId rowKeyId)

/-- Whether fields keep an identifier over a shape. -/
structure Registry.Keeps (r : Registry) (id : String) (s : Shape) : Prop where
  notList : id ≠ listId
  notHost : isHostWrapper id s = false
  registered : id ≠ rowKeyId → ∀ k, r.find? id = some k → k.storage.same s = true

theorem Registry.Keeps.fits {r : Registry} {id : String} {s : Shape} (h : r.Keeps id s) :
    r.Fits id s :=
  fun key k hk => Shape.physical_eq_of_bare_eq ((Shape.same_iff _ _).1 (h.registered key k hk))

section Kept

variable {r : Registry}

mutual

theorem Shape.kept_of_keeps : ∀ s : Shape, s.EveryLogical r.Keeps → s.Kept r
  | .primitive _, _ => trivial
  | .list t, h => t.kept_of_keeps h
  | .struct ts, h => ts.kept_of_keeps h

/-- The storage of a registered identifier is the registered one, and any other is kept in turn. -/
theorem DataType.kept_of_keeps : ∀ t : DataType, t.EveryLogical r.Keeps → t.Kept r
  | .plain s, h => s.kept_of_keeps h
  | .logical id s c, h => by
    have storage := s.kept_of_keeps h.2
    rw [DataType.Kept]
    by_cases key : id = rowKeyId
    · rwa [if_pos key]
    · rw [if_neg key]
      refine ⟨h.1.notList, ?_, ?_⟩
      · rw [Exchange.isHostWrapper_eq_of_bare_eq id (s.bare_relayed.2 storage)]
        exact h.1.notHost
      · cases hf : r.find? id with
        | none => exact storage
        | some k => exact (Shape.same_iff _ _).1 (h.1.registered key k hf)

theorem Members.kept_of_keeps : ∀ ts : Members, ts.EveryLogical r.Keeps → ts.Kept r
  | .one t, h => t.kept_of_keeps h
  | .cons t ts, h => ⟨t.kept_of_keeps h.1, ts.kept_of_keeps h.2⟩

end

end Kept

theorem Columnar.importColumns_fields {r : Registry} (cs : List Column) (index : Nat)
    (h : ∀ c ∈ cs, c.type.EveryLogical r.Keeps)
    (first : index = 0 → ∀ c, cs.head? = some c → c.type.id? ≠ some rowKeyId) :
    ∃ ds, importColumns r index (Column.fields r index cs) = .ok ds ∧
      ds.map Column.key = cs.map Column.key := by
  have fits : ∀ c ∈ cs, c.type.EveryLogical r.Fits :=
    fun c hc => (h c hc).imp₂ (fun _ _ hk _ => hk.fits) (h c hc)
  have kept : ∀ c ∈ cs, c.type.Kept r := fun c hc => c.type.kept_of_keeps (h c hc)
  exact ⟨_, importColumns_relayed cs index fits, (Column.key_relayed cs index).2 ⟨kept, first⟩⟩

/-- A schema is read back from its fields, and so is the chunk size. -/
theorem Schema.schema_arraySchema (r : Registry) (s : Schema) (n : UInt64)
    (own : ∀ c ∈ s.columns, c.type.EveryLogical fun id u =>
      id ≠ listId ∧ isHostWrapper id u = false)
    (registered : ∀ c ∈ s.columns, c.type.EveryLogical fun id u =>
      id ≠ rowKeyId → ∀ k, r.find? id = some k → k.storage.same u = true)
    (first : ∀ c, s.columns.head? = some c → c.type.id? ≠ some rowKeyId) :
    (∃ t, (s.arraySchema r n.toNat).schema r = .ok t ∧ (t == s) = true) ∧
      (s.arraySchema r n.toNat).chunkSize? = some n.toNat := by
  constructor
  · have keeps : ∀ c ∈ s.columns, c.type.EveryLogical r.Keeps := by
      intro c hc
      have keep : ∀ id u, (id ≠ listId ∧ isHostWrapper id u = false) →
          (id ≠ rowKeyId → ∀ k, r.find? id = some k → k.storage.same u = true) → r.Keeps id u :=
        fun _ _ ho hr => ⟨ho.1, ho.2, hr⟩
      exact (own c hc).imp₂ keep (registered c hc)
    obtain ⟨ds, hds, same⟩ := Columnar.importColumns_fields s.columns 0 keeps fun _ => first
    refine ⟨⟨ds⟩, ?_, Schema.beq_iff.2 same⟩
    rw [ArraySchema.schema, arraySchema, hds]
    rfl
  · have other : factoryVersionsKey ≠ chunkSizeKey := by decide
    rw [ArraySchema.chunkSize?, arraySchema, Metadata.get?_insert, if_neg other,
      Metadata.get?_insert, if_pos rfl, Option.bind_some]
    exact Text.size?_repr n.toNat_lt

def Registry.ofDays : Registry := ⟨[.mk "day" .int64 (some .int) .date], by simp⟩

/-- Keys, days, lists of days, and pairs with a type that is not registered. -/
def Schema.ofDays : Schema := ⟨[
  ⟨.plain .string, "key", none, by decide⟩,
  ⟨.logical "day" .int64 none, "start", some "first day", by decide⟩,
  ⟨.list (.logical "day" .int64 none), "holidays", none, by decide⟩,
  ⟨.plain (.struct (.cons (.logical "colour" .int32 none) (.one (.plain .blob)))), "start", none,
    by decide⟩]⟩

theorem schema_arraySchema_ofDays :
    (∃ t, (Schema.ofDays.arraySchema .ofDays (4096 : UInt64).toNat).schema .ofDays = .ok t ∧
      (t == Schema.ofDays) = true) ∧
    (Schema.ofDays.arraySchema .ofDays (4096 : UInt64).toNat).chunkSize? =
      some (4096 : UInt64).toNat := by
  apply Schema.schema_arraySchema
  · have day : "day" ≠ listId ∧ isHostWrapper "day" (.primitive .int64) = false := by decide
    have colour : "colour" ≠ listId ∧ isHostWrapper "colour" (.primitive .int32) = false := by
      decide
    simp [Schema.ofDays, DataType.list, DataType.EveryLogical, Shape.EveryLogical,
      Members.EveryLogical, Shape.string, Shape.blob, Shape.int64, Shape.int32, day, colour]
  · have day : Registry.ofDays.find? "day" = some (.mk "day" .int64 (some .int) .date) := rfl
    have colour : Registry.ofDays.find? "colour" = none := rfl
    have same : Shape.same (.primitive .int64) (.primitive .int64) = true := rfl
    simp [Schema.ofDays, DataType.list, DataType.EveryLogical, Shape.EveryLogical,
      Members.EveryLogical, Shape.string, Shape.blob, Shape.int64, Shape.int32, day, colour,
      Converter.storage, same]
  · intro c hc
    cases hc
    decide

end LogicalTable
