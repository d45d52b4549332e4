import LogicalTable.Proofs.Exchange.RoundTrip

/-! What comes out of a document goes into one again. Whichever document was read, the types of the
schema hold no factory of the host and no identifier without a fitting converter of the registry,
so that the document written from them gives back the same schema. -/
namespace LogicalTable

open Exchange (isHostWrapper)

/-- Every logical type in the shape is one that reading keeps, with the registry's converter. -/
structure Shape.Linked (r : Registry) (s : Shape) : Prop where
  served : s.EveryLogical fun id u => isHostWrapper id u = false ∧ r.Serves id u
  resolved : s.resolvedIn r = s

structure DataType.Linked (r : Registry) (t : DataType) : Prop where
  served : t.EveryLogical fun id u => isHostWrapper id u = false ∧ r.Serves id u
  resolved : t.resolvedIn r = t

structure Members.Linked (r : Registry) (ts : Members) : Prop where
  served : ts.EveryLogical fun id u => isHostWrapper id u = false ∧ r.Serves id u
  resolved : ts.resolvedIn r = ts

theorem Shape.Linked.plain {r : Registry} {s : Shape} (h : s.Linked r) :
    (DataType.plain s).Linked r :=
  ⟨h.served, by rw [DataType.resolvedIn, h.resolved]⟩

theorem Members.Linked.ofList {r : Registry} {t : DataType} {ts : List DataType}
    (h : ∀ u ∈ t :: ts, u.Linked r) : (Members.ofList t ts).Linked r := by
  induction ts generalizing t with
  | nil =>
    have ht := h t List.mem_cons_self
    exact ⟨ht.served, by rw [Members.ofList, Members.resolvedIn, ht.resolved]⟩
  | cons u us ih =>
    obtain ⟨ht, hts⟩ := List.forall_mem_cons.1 h
    have hus := ih hts
    refine ⟨⟨ht.served, hus.served⟩, ?_⟩
    rw [Members.ofList, Members.resolvedIn, ht.resolved, hus.resolved]

/-- Where no factory of the host is left there is nothing to unwrap. -/
theorem DataType.Linked.unwrapped_eq {r : Registry} {t : DataType} (h : t.Linked r) :
    t.unwrapped = t := by
  apply t.unwrapped_eq_self
  exact h.served.imp₂ (fun _ _ hp _ => hp.1) h.served

theorem DataType.Linked.readable {r : Registry} {t : DataType} (h : t.Linked r) :
    t.unwrapped.EveryLogical r.Serves := by
  rw [h.unwrapped_eq]
  exact h.served.imp₂ (fun _ _ hp _ => hp.2) h.served

/-- Failures that lay the blame on the type of a column. -/
def SerializationError.RefusesType : SerializationError → Prop
  | .unknownType _ | .memberCount _ _ | .shapeMismatch _ _ => True
  | .unregistered _ | .storageMismatch _ _ _ | .construction .emptyStruct => True
  | _ => False

/-- Failures of reading a document that is well-formed JSON. -/
def SerializationError.RefusesDocument : SerializationError → Prop
  | .lengths _ _ _ _ | .construction (.blankName _) => True
  | .column _ _ cause => cause.RefusesType
  | _ => False

namespace Exchange

open SerializationError (RefusesType RefusesDocument)

/-- Properties of shapes and types that reading keeps from node to node. -/
structure NodeInvariant (r : Registry) (shape : Traits → Shape → Prop)
    (type : Traits → DataType → Prop) : Prop where
  leaf : ∀ own p, shape (.simple own) (.primitive p)
  list : ∀ own node t, type node t → shape (.list own node) (.list t)
  struct : ∀ own nodes t ts, (∀ u ∈ t :: ts, ∃ node ∈ nodes, type node u) →
    shape (.struct own nodes) (.struct (.ofList t ts))
  apply : ∀ node s id, shape node s → Yields RefusesType (type node) (applyLogical r s id)

section Nodes

variable {r : Registry} {shape : Traits → Shape → Prop} {type : Traits → DataType → Prop}

mutual

/-- One case for each kind of node; nodes of different kinds are refused. -/
theorem importShape_each (h : NodeInvariant r shape type) : ∀ (spec : Spec) (node : Traits),
    Yields RefusesType (shape node) (importShape r spec node)
  | .leaf tag, .simple own => by
    rw [importShape]
    cases Primitive.ofTag? tag with
    | none => exact Yields.error trivial
    | some p => exact Yields.ok (h.leaf own p)
  | .list spec, .list own node => by
    rw [importShape]
    refine (importShape_each h spec node).bind fun s hs => ?_
    refine (h.apply node s node.own.logicalType hs).bind fun item hi => ?_
    exact Yields.ok (h.list own node item hi)
  | .struct specs, .struct own nodes => by
    rw [importShape]
    by_cases hl : specs.length ≠ nodes.length
    · rw [if_pos hl]
      exact Yields.error trivial
    · rw [if_neg hl]
      refine (importTypes_each h specs nodes).bind fun ts hts => ?_
      cases ts with
      | nil => exact Yields.error trivial
      | cons t ts => exact Yields.ok (h.struct own nodes t ts hts)
  | .leaf _, .list _ _ | .leaf _, .struct _ _ | .list _, .simple _ | .list _, .struct _ _
  | .struct _, .simple _ | .struct _, .list _ _ => by
    rw [importShape]
    · exact Yields.error trivial
    all_goals simp

theorem importTypes_each (h : NodeInvariant r shape type) : ∀ (specs : List Spec)
    (nodes : List Traits), Yields RefusesType (fun ts => ∀ t ∈ ts, ∃ node ∈ nodes, type node t)
      (importTypes r specs nodes)
  | spec :: specs, node :: nodes => by
    rw [importTypes]
    refine (importShape_each h spec node).bind fun s hs => ?_
    refine (h.apply node s node.own.logicalType hs).bind fun t ht => ?_
    refine (importTypes_each h specs nodes).bind fun ts hts => ?_
    refine Yields.ok (List.forall_mem_cons.2 ⟨⟨node, List.mem_cons_self, ht⟩, fun u hu => ?_⟩)
    obtain ⟨n, hn, hu⟩ := hts u hu
    exact ⟨n, List.mem_cons_of_mem node hn, hu⟩
  | [], _ => by
    rw [importTypes]
    · exact Yields.ok fun _ h => (List.not_mem_nil h).elim
    · simp
  | _ :: _, [] => by
    rw [importTypes]
    · exact Yields.ok fun _ h => (List.not_mem_nil h).elim
    · simp

end

theorem importColumns_each (h : NodeInvariant r shape type) : ∀ (index : Nat) (specs : List Spec)
    (nodes : List Traits) (names : List String) (metadata : List (Option String)),
    Yields RefusesDocument (fun cs => ∀ c ∈ cs, ∃ node ∈ nodes, type node c.type)
      (importColumns r index specs nodes names metadata) := by
  intro index specs nodes names metadata
  fun_induction importColumns r index specs nodes names metadata with
  | case1 index spec specs node nodes name names text metadata ih =>
    have column : Yields RefusesType (type node) (importColumnType r index spec node) :=
      (importShape_each h spec node).bind fun s hs => h.apply node s _ hs
    have read : Yields RefusesDocument (type node)
        (orFail (.column index name) (importColumnType r index spec node)) :=
      column.orFail _ fun e he => he
    refine read.bind fun t ht => ?_
    have made : Yields RefusesDocument (fun c => type node c.type)
        (orFail .construction (Column.make? t name text)) := by
      rw [Column.make?]
      by_cases named : Text.allBlank name = false
      · rw [dif_pos named]
        exact Yields.ok ht
      · rw [dif_neg named]
        exact Yields.error trivial
    refine made.bind fun c hc => ih.bind fun cs hcs => ?_
    refine Yields.ok (List.forall_mem_cons.2 ⟨⟨node, List.mem_cons_self, hc⟩, fun d hd => ?_⟩)
    obtain ⟨n, hn, hd⟩ := hcs d hd
    exact ⟨n, List.mem_cons_of_mem node hn, hd⟩
  | case2 => exact Yields.ok fun _ h => (List.not_mem_nil h).elim

/-- What reading keeps from node to node holds of the types of all columns. -/
theorem importSchema_each (h : NodeInvariant r shape type) (d : Document) :
    Yields RefusesDocument (fun s => ∀ c ∈ s.columns, ∃ node ∈ d.traits, type node c.type)
      (importSchema d r) := by
  rw [importSchema]
  split
  · exact Yields.error trivial
  · exact (importColumns_each h 0 d.specs d.traits d.names d.metadata).bind fun _ h => Yields.ok h

end Nodes

theorem applyLogical_linked {r : Registry} {s : Shape} (h : s.Linked r) (id : Option String) :
    Yields RefusesType (DataType.Linked r) (applyLogical r s id) := by
  cases id with
  | none => exact Yields.ok h.plain
  | some id =>
    rw [applyLogical]
    by_cases hw : isHostWrapper id s = true
    · rw [if_pos hw]
      exact Yields.ok h.plain
    · rw [if_neg hw]
      cases hf : r.find? id with
      | none => exact Yields.error trivial
      | some c =>
        dsimp only
        by_cases hp : c.storage.samePhysical s = true
        · rw [if_pos hp]
          have served : r.Serves id s := ⟨c, hf, Shape.samePhysical_iff.1 hp⟩
          apply Yields.ok
          exact ⟨⟨⟨Bool.eq_false_iff.2 hw, served⟩, h.served⟩, by
            rw [DataType.resolvedIn, h.resolved, hf]⟩
        · rw [if_neg hp]
          exact Yields.error trivial

theorem linked_invariant (r : Registry) :
    NodeInvariant r (fun _ s => s.Linked r) fun _ t => t.Linked r where
  leaf := fun _ _ => ⟨trivial, rfl⟩
  list := fun _ _ t ht => ⟨ht.served, by rw [Shape.resolvedIn, ht.resolved]⟩
  struct := by
    intro _ nodes t ts h
    have members : (Members.ofList t ts).Linked r := by
      apply Members.Linked.ofList
      intro u hu
      obtain ⟨_, _, linked⟩ := h u hu
      exact linked
    exact ⟨members.served, by rw [Shape.resolvedIn, members.resolved]⟩
  apply := fun _ _ id hs => applyLogical_linked hs id

theorem importSchema_linked (d : Document) (r : Registry) :
    Yields RefusesDocument (fun s => ∀ c ∈ s.columns, c.type.Linked r) (importSchema d r) := by
  refine (importSchema_each (linked_invariant r) d).imp (fun _ he => he) fun s hs c hc => ?_
  obtain ⟨_, _, linked⟩ := hs c hc
  exact linked

/-- A schema of such types is exported, and read back with all its converters. -/
theorem importSchema_of_linked {s : Schema} {r : Registry}
    (distinct : (s.names.map Text.trim).Nodup) (linked : ∀ c ∈ s.columns, c.type.Linked r) :
    ∃ d, exportSchema s r = .ok d ∧ importSchema d r = .ok s := by
  obtain ⟨d, hd, hr⟩ := importSchema_settles r distinct
  have same : s.columns.map (readBack r) = s.columns := by
    apply List.map_congr_left ?_ |>.trans (List.map_id _)
    intro c hc
    have h := linked c hc
    rw [readBack, Column.mapType, h.unwrapped_eq, h.resolved]
    rfl
  refine ⟨d, hd, ?_⟩
  rw [hr.success fun c hc => (linked c hc).readable, same]

/-- Any document is refused for one of the reasons there are, or its schema can be exported unless
two names coincide, and the document that results has the same schema. -/
theorem importSchema_closed (d : Document) (r : Registry) :
    (∃ e, importSchema d r = .error e ∧ e.RefusesDocument) ∨
    ∃ s, importSchema d r = .ok s ∧
      ((s.names.map Text.trim).Nodup →
        ∃ d', exportSchema s r = .ok d' ∧ importSchema d' r = .ok s) ∧
      (¬ (s.names.map Text.trim).Nodup → ∃ name, exportSchema s r = .error (.duplicateName name)) := by
  have outcome := importSchema_linked d r
  cases h : importSchema d r with
  | error e => exact Or.inl ⟨e, rfl, outcome.failure e h⟩
  | ok s =>
    refine Or.inr ⟨s, rfl, ?_, ?_⟩
    · intro distinct
      exact importSchema_of_linked distinct (outcome.value s h)
    · intro repeated
      rw [exportSchema]
      cases hn : duplicate? [] (s.names.map Text.trim) with
      | none => exact (repeated (duplicate?_eq_none.1 hn).1).elim
      | some name => exact ⟨name, rfl⟩

end Exchange
end LogicalTable
