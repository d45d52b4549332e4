import LogicalTable.Proofs.Exchange.Unwrapping
import LogicalTable.Proofs.Outcome

/-! Schema documents read back. A document gives back the schema that it was written from, without
the host's own factories, if the registry serves every identifier that is left. Which tag stands on
a node besides the identifier of its type, the row key or the list, does not matter. -/
namespace LogicalTable

/-- Failures that lay the blame on an identifier: it is not registered, or for other storage. -/
def SerializationError.BlamesIdentifier : SerializationError → Prop
  | .unregistered _ | .storageMismatch _ _ _ => True
  | .column _ _ cause => cause.BlamesIdentifier
  | _ => False

namespace Exchange

open SerializationError (BlamesIdentifier)

namespace Traits

theorem own_withOwn (m : TraitMap) (node : Traits) : (node.withOwn m).own = m := by
  cases node <;> rfl

end Traits

/-- The traits of a node itself have no part in the shape below it. -/
theorem importShape_withOwn (r : Registry) (spec : Spec) (m : TraitMap) (node : Traits) :
    importShape r spec (node.withOwn m) = importShape r spec node := by
  cases spec <;> cases node <;> rfl

theorem isHostWrapper_listId (item : DataType) : isHostWrapper listId (.list item) = true := by
  have hc : hostClass? listId = some "ListValueFactory".toList := by decide
  have hb : beforeEnd? "ListValueFactory".toList "ListValueFactory".toList = some [] := by decide
  simp only [isHostWrapper, hc, hb]

/-- The tags that a plain type's node may carry are none or that of lists, which is left out. -/
theorem applyLogical_tag (r q : Registry) (s : Shape) :
    applyLogical r (s.unwrapped.resolvedIn r) (shapeTraits q s).own.logicalType =
      .ok (.plain (s.unwrapped.resolvedIn r)) := by
  cases s with
  | primitive p => rfl
  | struct members => rfl
  | list item =>
    rw [shapeTraits, Traits.own]
    by_cases h : item.isLogical = true
    · rw [if_pos h, applyLogical, Shape.unwrapped, Shape.resolvedIn, isHostWrapper_listId]
      rfl
    · rw [if_neg h]
      rfl

/-- An identifier is left out where it is the host's own, and else needs the registry. -/
theorem applyLogical_settles (r : Registry) (id : String) (s : Shape) (c : Option Converter) :
    Settles BlamesIdentifier (isHostWrapper id s.unwrapped = true ∨ r.Serves id s.unwrapped)
      ((DataType.logical id s c).unwrapped.resolvedIn r)
      (applyLogical r (s.unwrapped.resolvedIn r) (some id)) := by
  have hw := isHostWrapper_eq_of_bare_eq id (s.unwrapped.bare_resolvedIn r)
  have hp := Shape.physical_eq_of_bare_eq (s.unwrapped.bare_resolvedIn r)
  rw [DataType.unwrapped, applyLogical, hw]
  by_cases h : isHostWrapper id s.unwrapped = true
  · rw [if_pos h, if_pos h]
    exact (Settles.ok _ _).congr ⟨fun _ => Or.inl h, fun _ => trivial⟩
  · rw [if_neg h, if_neg h, DataType.resolvedIn]
    cases hf : r.find? id with
    | none =>
      apply Settles.error trivial
      rintro (hw | ⟨d, hd, _⟩)
      · exact h hw
      · rw [hf] at hd
        cases hd
    | some d =>
      by_cases hs : d.storage.physical = s.unwrapped.physical
      · have same : d.storage.samePhysical (s.unwrapped.resolvedIn r) = true :=
          Shape.samePhysical_iff.2 (hs.trans hp.symm)
        dsimp only
        rw [if_pos same]
        exact (Settles.ok _ _).congr ⟨fun _ => Or.inr ⟨d, hf, hs⟩, fun _ => trivial⟩
      · have other : ¬ d.storage.samePhysical (s.unwrapped.resolvedIn r) = true :=
          fun same => hs ((Shape.samePhysical_iff.1 same).trans hp)
        dsimp only
        rw [if_neg other]
        apply Settles.error trivial
        rintro (hw | ⟨e, he, hpe⟩)
        · exact h hw
        · rw [hf] at he
          cases he
          exact hs hpe

theorem everyLogical_unwrapped (p : String → Shape → Prop) (id : String) (s : Shape)
    (c : Option Converter) : (DataType.logical id s c).unwrapped.EveryLogical p ↔
      s.unwrapped.EveryLogical p ∧ (isHostWrapper id s.unwrapped = true ∨ p id s.unwrapped) := by
  rw [DataType.unwrapped]
  by_cases h : isHostWrapper id s.unwrapped = true
  · rw [if_pos h]
    exact ⟨fun hs => ⟨hs, Or.inl h⟩, fun hs => hs.1⟩
  · rw [if_neg h]
    exact ⟨fun hs => ⟨hs.2, Or.inr hs.1⟩, fun hs => ⟨hs.2.resolve_left h, hs.1⟩⟩

theorem length_membersTraits (r : Registry) (ms : Members) :
    (membersTraits r ms).length = (membersSpec ms).length := by
  cases ms with
  | one _ => rfl
  | cons _ ts => exact congrArg Nat.succ (length_membersTraits r ts)

mutual

/-- The tree of a shape gives back the shape, if the registry serves what is in it. -/
theorem importShape_settles (r q : Registry) : ∀ s : Shape,
    Settles BlamesIdentifier (s.unwrapped.EveryLogical r.Serves) (s.unwrapped.resolvedIn r)
      (importShape r (shapeSpec s) (shapeTraits q s))
  | .primitive p => by
    rw [shapeSpec, shapeTraits, importShape, p.ofTag?_tag]
    exact Settles.ok _ _
  | .list t => by
    rw [shapeSpec, shapeTraits, importShape, ← bind_assoc]
    exact (importType_settles r q t).andThen fun _ => rfl
  | .struct ms => by
    rw [shapeSpec, shapeTraits, importShape, if_neg (by simp [length_membersTraits])]
    refine (importTypes_settles r q ms).andThen fun _ => ?_
    cases h : (ms.unwrapped.resolvedIn r).toList with
    | nil => exact (Members.toList_ne_nil _ h).elim
    | cons t ts => exact congrArg (fun ms => Except.ok (Shape.struct ms)) (Members.ofList_of_toList h)

theorem importType_settles (r q : Registry) : ∀ t : DataType,
    Settles BlamesIdentifier (t.unwrapped.EveryLogical r.Serves) (t.unwrapped.resolvedIn r)
      (do
        let s ← importShape r (typeSpec t) (typeTraits q t)
        applyLogical r s (typeTraits q t).own.logicalType)
  | .plain s => (importShape_settles r q s).andThen fun _ => applyLogical_tag r q s
  | .logical id s c => by
    rw [typeSpec, typeTraits, importShape_withOwn, Traits.own_withOwn]
    exact ((importShape_settles r q s).bind fun _ => applyLogical_settles r id s c).congr
      (everyLogical_unwrapped _ id s c).symm

theorem importTypes_settles (r q : Registry) : ∀ ms : Members,
    Settles BlamesIdentifier (ms.unwrapped.EveryLogical r.Serves) (ms.unwrapped.resolvedIn r).toList
      (importTypes r (membersSpec ms) (membersTraits q ms))
  | .one t => by
    rw [membersSpec, membersTraits, importTypes, ← bind_assoc]
    exact (importType_settles r q t).andThen fun _ => rfl
  | .cons t ts => by
    rw [membersSpec, membersTraits, importTypes, ← bind_assoc]
    exact (importType_settles r q t).bind fun _ =>
      (importTypes_settles r q ts).andThen fun _ => rfl

end

/-- Below the first column the tag of the row key gives way to the type's own identifier. -/
theorem importColumnType_rowKey_settles (r q : Registry) (t : DataType) :
    Settles BlamesIdentifier (t.unwrapped.EveryLogical r.Serves) (t.unwrapped.resolvedIn r)
      (importColumnType r 0 (typeSpec t) (rowKeyTraits q t)) := by
  have hid : columnId 0 (rowKeyTraits q t).own = t.id? := by
    rw [rowKeyTraits, Traits.own_withOwn, columnId, if_pos ⟨rfl, rfl⟩]
  have hs := importShape_settles r q t.shape
  rw [importColumnType, hid, rowKeyTraits, importShape_withOwn]
  cases t with
  | plain s => exact hs.andThen fun _ => rfl
  | logical id s c =>
    rw [typeSpec, typeTraits, importShape_withOwn]
    exact (hs.bind fun _ => applyLogical_settles r id s c).congr
      (everyLogical_unwrapped _ id s c).symm

theorem importColumnType_settles (r q : Registry) (index : Nat) (t : DataType) :
    Settles BlamesIdentifier (t.unwrapped.EveryLogical r.Serves) (t.unwrapped.resolvedIn r)
      (importColumnType r (index + 1) (typeSpec t) (typeTraits q t)) := by
  have hid : columnId (index + 1) (typeTraits q t).own = (typeTraits q t).own.logicalType :=
    if_neg fun h => Nat.succ_ne_zero index h.1
  rw [importColumnType, hid]
  exact importType_settles r q t

/-- Whether a registry serves what a column holds. -/
def Readable (r : Registry) (c : Column) : Prop := c.type.unwrapped.EveryLogical r.Serves

def readBack (r : Registry) (c : Column) : Column := c.mapType fun t => t.unwrapped.resolvedIn r

/-- A column put before others that are read alike. -/
theorem importColumns_cons_settles {r : Registry} {index : Nat} {node : Traits} {c : Column}
    {cs : List Column} {specs : List Spec} {nodes : List Traits} {names : List String}
    {metadata : List (Option String)}
    (head : Settles BlamesIdentifier (Readable r c) (readBack r c).type
      (importColumnType r index (typeSpec c.type) node))
    (tail : Settles BlamesIdentifier (∀ d ∈ cs, Readable r d) (cs.map (readBack r))
      (importColumns r (index + 1) specs nodes names metadata)) :
    Settles BlamesIdentifier (∀ d ∈ c :: cs, Readable r d) ((c :: cs).map (readBack r))
      (importColumns r index (typeSpec c.type :: specs) (node :: nodes) (c.name :: names)
        (c.metadata :: metadata)) := by
  have made : Column.make? (readBack r c).type c.name c.metadata = .ok (readBack r c) :=
    dif_pos c.named
  apply Settles.forall_cons
  rw [importColumns]
  refine (head.orFail (SerializationError.column index c.name) fun e he => he).bind fun _ => ?_
  rw [made]
  exact tail.andThen fun _ => rfl

theorem importColumns_settles (r q : Registry) : ∀ (index : Nat) (cs : List Column),
    Settles BlamesIdentifier (∀ c ∈ cs, Readable r c) (cs.map (readBack r))
      (importColumns r (index + 1) ((cs.map Column.type).map typeSpec)
        ((cs.map Column.type).map (typeTraits q)) (cs.map Column.name) (cs.map Column.metadata))
  | _, [] => Settles.forall_nil
  | index, c :: cs =>
    importColumns_cons_settles (importColumnType_settles r q index c.type)
      (importColumns_settles r q (index + 1) cs)

theorem duplicate?_eq_none {seen ns : List String} :
    duplicate? seen ns = none ↔ ns.Nodup ∧ ∀ n ∈ ns, n ∉ seen := by
  induction ns generalizing seen with
  | nil => simp [duplicate?]
  | cons n ns ih =>
    rw [duplicate?]
    by_cases h : n ∈ seen
    · rw [if_pos (List.contains_iff_mem.2 h)]
      constructor
      · intro hn
        cases hn
      · rintro ⟨_, hs⟩
        exact (hs n List.mem_cons_self h).elim
    · rw [if_neg fun hc => h (List.contains_iff_mem.1 hc), ih, List.nodup_cons]
      constructor
      · rintro ⟨hd, hs⟩
        refine ⟨⟨fun hm => hs n hm List.mem_cons_self, hd⟩, List.forall_mem_cons.2 ⟨h, ?_⟩⟩
        intro m hm hms
        exact hs m hm (List.mem_cons_of_mem n hms)
      · rintro ⟨⟨hn, hd⟩, hs⟩
        refine ⟨hd, fun m hm hms => ?_⟩
        rcases List.mem_cons.1 hms with rfl | hms
        · exact hn hm
        · exact hs m (List.mem_cons_of_mem n hm) hms

/-- A document that was written under distinct names is read just where the registry serves all
that is left of its types without the host's own factories. -/
theorem importSchema_settles {s : Schema} {r : Registry} (q : Registry)
    (h : (s.names.map Text.trim).Nodup) : ∃ d, exportSchema s q = .ok d ∧
      Settles BlamesIdentifier (∀ c ∈ s.columns, Readable r c) ⟨s.columns.map (readBack r)⟩
        (importSchema d r) := by
  have fresh : duplicate? [] (s.names.map Text.trim) = none :=
    duplicate?_eq_none.2 ⟨h, fun _ _ hn => (List.not_mem_nil hn).elim⟩
  refine ⟨_, by rw [exportSchema, fresh], ?_⟩
  have traits : (columnTraits q s.types).length = s.types.length := by
    cases s.types with
    | nil => rfl
    | cons t ts => simp [columnTraits]
  have types : s.types.length = s.columns.length := List.length_map _
  have names : s.names.length = s.columns.length := List.length_map _
  rw [importSchema, if_neg (by simp [traits, types, names])]
  have hc : Settles BlamesIdentifier (∀ c ∈ s.columns, Readable r c) (s.columns.map (readBack r))
      (importColumns r 0 (s.types.map typeSpec) (columnTraits q s.types) s.names
        (s.columns.map Column.metadata)) := by
    rw [Schema.types, Schema.names]
    cases s.columns with
    | nil => exact Settles.forall_nil
    | cons c cs =>
      exact importColumns_cons_settles (importColumnType_rowKey_settles r q c.type)
        (importColumns_settles r q 0 cs)
  exact hc.andThen fun _ => rfl

/-- Reading back what was written. It succeeds just where the registry serves every identifier that
is left, and gives the schema without the host's own factories, which is the schema itself where
there are none. -/
theorem importSchema_exportSchema (s : Schema) (r : Registry) :
    ((s.names.map Text.trim).Nodup → ∃ d, exportSchema s r = .ok d ∧
      ((∀ c ∈ s.columns, c.type.unwrapped.EveryLogical r.Serves) →
        ∃ t, importSchema d r = .ok t ∧ t = s.mapTypes (fun u => u.unwrapped.resolvedIn r) ∧
          (t == s.mapTypes DataType.unwrapped) = true ∧
          ((∀ c ∈ s.columns, c.type.EveryLogical fun id shape => isHostWrapper id shape = false) →
            (t == s) = true)) ∧
      (¬ (∀ c ∈ s.columns, c.type.unwrapped.EveryLogical r.Serves) →
        ∃ e, e.BlamesIdentifier ∧ importSchema d r = .error e)) ∧
    (¬ (s.names.map Text.trim).Nodup → ∃ name, exportSchema s r = .error (.duplicateName name)) := by
  constructor
  · intro distinct
    obtain ⟨d, hd, hr⟩ := importSchema_settles r distinct
    refine ⟨d, hd, fun served => ?_, hr.failure⟩
    refine ⟨_, hr.success served, rfl, ?_, fun own => ?_⟩
    · apply Schema.beq_iff.2
      simp [Schema.mapTypes, readBack, Column.mapType, Column.key, DataType.bare_resolvedIn]
    · apply Schema.beq_iff.2
      simp only [List.map_map]
      apply List.map_congr_left
      intro c hc
      have same : c.type.unwrapped = c.type := c.type.unwrapped_eq_self (own c hc)
      simp [readBack, Column.mapType, Column.key, DataType.bare_resolvedIn, same]
  · intro repeated
    rw [exportSchema]
    cases hn : duplicate? [] (s.names.map Text.trim) with
    | none => exact (repeated (duplicate?_eq_none.1 hn).1).elim
    | some name => exact ⟨name, rfl⟩

end Exchange
end LogicalTable
