import LogicalTable.Proofs.Exchange.Reimport
import LogicalTable.Proofs.Exchange.TextPaths
import LogicalTable.Proofs.Json.Nesting

/-! How deep documents nest. Empty traits may be left out of a document but are always written, so
that what is written of a schema may nest one level deeper than the text that it was read from. At
the limit the text of the schema is refused. -/
namespace LogicalTable.Exchange

open LogicalTable (Json)
open SerializationError (RefusesType RefusesDocument)
open LogicalTable.Json (itemsDepth membersDepth itemsDepth_le membersDepth_le Gives)

section Written

theorem depth_traitMap (m : TraitMap) : m.json.depth = 1 := by
  obtain ⟨logical, inner, key⟩ := m
  cases logical <;> cases inner <;> cases key <;> rfl

theorem depth_simple (own : TraitMap) : (Traits.simple own).json.depth = 2 := by
  rw [Traits.json, Json.depth, membersDepth, membersDepth, depth_traitMap]
  rfl

theorem two_le_depth (node : Traits) : 2 ≤ node.json.depth := by
  cases node with
  | simple own => exact Nat.le_of_eq (depth_simple own).symm
  | list own item =>
    rw [Traits.json, Json.depth, membersDepth, membersDepth, depth_traitMap]
    omega
  | struct own members =>
    rw [Traits.json, Json.depth, membersDepth, membersDepth, depth_traitMap]
    omega

theorem depth_list (own : TraitMap) (item : Traits) :
    (Traits.list own item).json.depth = item.json.depth + 1 := by
  have deep := two_le_depth item
  simp only [Traits.json, Json.depth, membersDepth, depth_traitMap]
  omega

theorem depth_struct (own : TraitMap) (members : List Traits) :
    (Traits.struct own members).json.depth = itemsDepth (Traits.jsonAll members) + 2 := by
  simp only [Traits.json, Json.depth, membersDepth, depth_traitMap]
  omega

theorem depth_withOwn (node : Traits) (m : TraitMap) :
    (node.withOwn m).json.depth = node.json.depth := by
  cases node with
  | simple own => rw [Traits.withOwn, depth_simple, depth_simple]
  | list own item => rw [Traits.withOwn, depth_list, depth_list]
  | struct own members => rw [Traits.withOwn, depth_struct, depth_struct]

theorem depth_listSpec (item : Spec) : (Spec.list item).json.depth = item.json.depth + 1 := by
  simp [Spec.json, Json.depth, membersDepth]

theorem depth_structSpec (members : List Spec) :
    (Spec.struct members).json.depth = itemsDepth (Spec.jsonAll members) + 2 := by
  simp [Spec.json, Json.depth, membersDepth]

mutual

/-- The traits of a shape nest two levels deeper than its specification. -/
theorem depth_shapeTraits (r : Registry) : ∀ s : Shape,
    (shapeTraits r s).json.depth = (shapeSpec s).json.depth + 2
  | .primitive _ => depth_simple _
  | .list item => by rw [shapeTraits, shapeSpec, depth_list, depth_listSpec, depth_typeTraits r item]
  | .struct members => by
    rw [shapeTraits, shapeSpec, depth_struct, depth_structSpec, depth_membersTraits r members]

theorem depth_typeTraits (r : Registry) : ∀ t : DataType,
    (typeTraits r t).json.depth = (typeSpec t).json.depth + 2
  | .plain s => depth_shapeTraits r s
  | .logical _ s _ => by rw [typeTraits, typeSpec, depth_withOwn, depth_shapeTraits r s]

theorem depth_membersTraits (r : Registry) : ∀ ts : Members,
    itemsDepth (Traits.jsonAll (membersTraits r ts)) = itemsDepth (Spec.jsonAll (membersSpec ts)) + 2
  | .one t => by
    simp only [membersTraits, membersSpec, Traits.jsonAll, Spec.jsonAll, itemsDepth,
      depth_typeTraits r t]
    omega
  | .cons t ts => by
    simp only [membersTraits, membersSpec, Traits.jsonAll, Spec.jsonAll, itemsDepth,
      depth_typeTraits r t, depth_membersTraits r ts]
    omega

end

theorem specs_jsonAll_eq (ss : List Spec) : Spec.jsonAll ss = ss.map Spec.json := by
  induction ss with
  | nil => rfl
  | cons s ss ih => rw [Spec.jsonAll, ih, List.map_cons]

theorem traits_jsonAll_eq (nodes : List Traits) : Traits.jsonAll nodes = nodes.map Traits.json := by
  induction nodes with
  | nil => rfl
  | cons node nodes ih => rw [Traits.jsonAll, ih, List.map_cons]

theorem depth_le_of_mem {nodes : List Traits} {node : Traits} (h : node ∈ nodes) :
    node.json.depth ≤ itemsDepth (Traits.jsonAll nodes) := by
  rw [traits_jsonAll_eq]
  exact itemsDepth_le.1 (Nat.le_refl _) _ (List.mem_map_of_mem h)

theorem depth_columnTraits {r : Registry} {ts : List DataType} {n : Nat} :
    itemsDepth (Traits.jsonAll (columnTraits r ts)) ≤ n ↔
      ∀ t ∈ ts, (typeSpec t).json.depth + 2 ≤ n := by
  rw [traits_jsonAll_eq, itemsDepth_le]
  cases ts with
  | nil => simp [columnTraits]
  | cons t ts =>
    have first : (rowKeyTraits r t).json.depth = (typeSpec t).json.depth + 2 := by
      rw [rowKeyTraits, depth_withOwn, depth_typeTraits]
    simp [columnTraits, first, depth_typeTraits]

theorem depth_strings (names : List String) : (Json.array (names.map .string)).depth = 1 := by
  have flat : itemsDepth (names.map Json.string) ≤ 0 := by
    rw [itemsDepth_le]
    simp [Json.depth]
  rw [Json.depth, Nat.le_zero.1 flat]

theorem depth_optionalStrings (texts : List (Option String)) :
    (Json.array (texts.map .ofOption)).depth = 1 := by
  have flat : itemsDepth (texts.map Json.ofOption) ≤ 0 := by
    rw [itemsDepth_le]
    simp only [List.forall_mem_map]
    rintro (_ | text) _ <;> exact Nat.le_refl 0
  rw [Json.depth, Nat.le_zero.1 flat]

theorem depth_document (d : Document) : d.json.depth =
    max (itemsDepth (Spec.jsonAll d.specs)) (itemsDepth (Traits.jsonAll d.traits)) + 3 := by
  change (assembled _ _ _ _).depth = _
  rw [depth_assembled, depth_strings, depth_optionalStrings, Json.depth, Json.depth]
  omega

/-- Three levels enclose the columns, and traits take two more than specifications. -/
theorem depth_exportSchema {s : Schema} {r : Registry} {d : Document}
    (h : exportSchema s r = .ok d) {n : Nat} :
    d.json.depth ≤ n + 5 ↔ ∀ c ∈ s.columns, (typeSpec c.type).json.depth ≤ n := by
  have traits : itemsDepth (Traits.jsonAll (columnTraits r s.types)) ≤ n + 2 ↔
      ∀ c ∈ s.columns, (typeSpec c.type).json.depth ≤ n := by
    simp [depth_columnTraits, Schema.types]
  have specs : (∀ c ∈ s.columns, (typeSpec c.type).json.depth ≤ n) →
      itemsDepth (Spec.jsonAll (s.types.map typeSpec)) ≤ n := by
    intro shallow
    rw [specs_jsonAll_eq, itemsDepth_le]
    simpa [Schema.types] using shallow
  rw [exportSchema] at h
  split at h
  · cases h
  · cases h
    rw [← traits] at specs ⊢
    rw [depth_document]
    dsimp only
    constructor
    · intro deep
      omega
    · intro shallow
      have := specs shallow
      omega

end Written

section Read

theorem depth_of_held {p : String → Bool} {ms : List (String × Json)} {j : Json}
    (h : (held p ms).bind id = some j) : ∃ m ∈ ms, m.2 = j ∧ j.depth < (Json.object ms).depth := by
  obtain ⟨found, hf, rfl⟩ := Option.bind_eq_some_iff.1 h
  obtain ⟨m, mem, rfl⟩ := mem_of_held hf
  exact ⟨m, mem, rfl, Nat.succ_le_succ (membersDepth_le.1 (Nat.le_refl _) m mem)⟩

mutual

/-- As it is written, a node nests at most one level deeper than what it was read from. -/
theorem depth_of_traits? : ∀ (byPosition : Bool) (j : Json) (node : Traits),
    traits? byPosition j = some node → node.json.depth ≤ j.depth + 1
  | _, .null, _, h | _, .bool _, _, h | _, .natural _, _, h | _, .number _, _, h
  | _, .string _, _, h | _, .array [], _, h => by cases h
  | byPosition, .array (tag :: js), node, h => by
    rw [traits?_array] at h
    obtain ⟨kind, _, h⟩ := Option.bind_eq_some_iff.1 h
    match js, h with
    | [], h =>
      obtain ⟨_, rfl⟩ : kind = "simple" ∧ Traits.simple .empty = node := by simpa using h
      rw [depth_simple, Json.depth]
      omega
    | [own], h =>
      obtain ⟨_, own, _, rfl⟩ : kind = "simple" ∧ ∃ m, traitMap? own = some m ∧ .simple m = node := by
        simpa using h
      rw [depth_simple, Json.depth]
      omega
    | [own, inner], h =>
      obtain ⟨_, _, h⟩ := Option.bind_eq_some_iff.1 h
      have below : inner.depth < (Json.array [tag, own, inner]).depth := by
        simp only [Json.depth, itemsDepth]
        omega
      split at h
      · obtain ⟨item, hi, rfl⟩ := Option.map_eq_some_iff.1 h
        have part := depth_of_traits? true inner item hi
        rw [depth_list]
        omega
      split at h
      · obtain ⟨members, hm, rfl⟩ := Option.map_eq_some_iff.1 h
        have part := depth_of_memberTraits? inner members hm
        rw [depth_struct]
        omega
      · cases h
    | _ :: _ :: _ :: _, h => cases h
  | byPosition, .object ms, node, h => by
    have each := depth_of_traitMembers ms
    rw [traits?] at h
    split at h
    · obtain ⟨own, _, rfl⟩ := Option.map_eq_some_iff.1 h
      rw [depth_simple, Json.depth]
      omega
    · obtain ⟨own, _, h⟩ := Option.bind_eq_some_iff.1 h
      obtain ⟨item, hi, h⟩ := Option.bind_eq_some_iff.1 h
      cases h
      rw [traitsMember?_eq] at hi
      obtain ⟨j, held, hi⟩ := Option.bind_eq_some_iff.1 hi
      obtain ⟨m, mem, rfl, below⟩ := depth_of_held held
      have part := (each m mem).1 item hi
      rw [depth_list]
      omega
    · obtain ⟨own, _, h⟩ := Option.bind_eq_some_iff.1 h
      obtain ⟨members, hm, h⟩ := Option.bind_eq_some_iff.1 h
      cases h
      rw [membersMember?_eq] at hm
      obtain ⟨j, held, hm⟩ := Option.bind_eq_some_iff.1 hm
      obtain ⟨m, mem, rfl, below⟩ := depth_of_held held
      have part := (each m mem).2 members hm
      rw [depth_struct]
      omega
    · cases h

theorem depth_of_memberTraits? : ∀ (j : Json) (nodes : List Traits),
    memberTraits? j = some nodes → itemsDepth (Traits.jsonAll nodes) ≤ j.depth
  | .array js, nodes, h => depth_of_traitsAll? true js nodes h
  | .null, _, h | .bool _, _, h | .natural _, _, h | .number _, _, h
  | .string _, _, h | .object _, _, h => by cases h

theorem depth_of_traitsAll? : ∀ (byPosition : Bool) (js : List Json) (nodes : List Traits),
    traitsAll? byPosition js = some nodes → itemsDepth (Traits.jsonAll nodes) ≤ itemsDepth js + 1
  | _, [], _, h => by
    cases h
    exact Nat.zero_le _
  | byPosition, j :: js, nodes, h => by
    rw [traitsAll?] at h
    obtain ⟨node, hj, h⟩ := Option.bind_eq_some_iff.1 h
    obtain ⟨more, hjs, h⟩ := Option.bind_eq_some_iff.1 h
    cases h
    have first := depth_of_traits? byPosition j node hj
    have others := depth_of_traitsAll? byPosition js more hjs
    rw [Traits.jsonAll, itemsDepth, itemsDepth]
    omega

theorem depth_of_traitMembers : ∀ ms : List (String × Json), ∀ m ∈ ms,
    (∀ node, traits? true m.2 = some node → node.json.depth ≤ m.2.depth + 1) ∧
      ∀ nodes, memberTraits? m.2 = some nodes → itemsDepth (Traits.jsonAll nodes) ≤ m.2.depth
  | [] => fun _ hm => (List.not_mem_nil hm).elim
  | (_, j) :: ms => List.forall_mem_cons.2
    ⟨⟨depth_of_traits? true j, depth_of_memberTraits? j⟩, depth_of_traitMembers ms⟩

end

theorem depth_of_recordValues? {names : List String} {j : Json} {js : List Json}
    (h : recordValues? names j = some js) : ∀ v ∈ js, v.depth < j.depth := by
  cases j with
  | object ms =>
    rw [recordValues?] at h
    induction names generalizing js with
    | nil =>
      cases h
      simp
    | cons name names ih =>
      rw [List.mapM_cons] at h
      obtain ⟨v, hv, h⟩ := Option.bind_eq_some_iff.1 h
      obtain ⟨vs, hvs, h⟩ := Option.bind_eq_some_iff.1 h
      cases h
      rw [only?_eq] at hv
      obtain ⟨_, _, _, below⟩ := depth_of_held hv
      exact List.forall_mem_cons.2 ⟨below, ih hvs⟩
  | array items =>
    rw [recordValues?] at h
    split at h
    · cases h
      intro v hv
      exact Nat.succ_le_succ (itemsDepth_le.1 (Nat.le_refl _) v hv)
    · cases h
  | _ => cases h

/-- The list of traits stands under two levels. -/
theorem depth_of_ofJson? {j : Json} {d : Document} (h : Document.ofJson? j = some d) :
    itemsDepth (Traits.jsonAll d.traits) + 2 ≤ j.depth := by
  rw [Document.ofJson?] at h
  obtain ⟨parts, outer, h⟩ := Option.bind_eq_some_iff.1 h
  have outside := depth_of_recordValues? outer
  rcases parts with _ | ⟨schema, _ | ⟨names, _ | ⟨metadata, _ | _⟩⟩⟩
  case cons.cons.cons.nil =>
    obtain ⟨types, inner, h⟩ := Option.bind_eq_some_iff.1 h
    have inside := depth_of_recordValues? inner
    rcases types with _ | ⟨specs, _ | ⟨traits, _ | _⟩⟩
    case cons.cons.nil =>
      change ofParts? specs traits names metadata = some d at h
      rw [ofParts?] at h
      simp only [Option.bind_eq_bind, Option.bind_eq_some_iff] at h
      obtain ⟨_, _, nodes, read, _, _, _, _, h⟩ := h
      cases h
      have first := outside schema (by simp)
      have second := inside traits (by simp)
      cases traits with
      | array js =>
        have list := depth_of_traitsAll? false js nodes read
        rw [Json.depth] at second
        dsimp only
        omega
      | _ => cases read
    all_goals cases h
  all_goals cases h

theorem documentReader_gives : Gives documentReader fun js => ∀ j ∈ js, j.depth ≤ Json.maxDepth - 1 := by
  have types : Gives typesReader fun j => j.depth ≤ Json.maxDepth - 1 := by
    have parts : Gives (Json.record [⟨"specs", valueUnder 2⟩, ⟨"traits", valueUnder 2⟩]) fun js =>
        ∀ j ∈ js, j.depth ≤ Json.maxDepth - 2 := by
      apply Json.record_gives
      simp only [List.forall_mem_cons]
      exact ⟨Json.value_gives true _, Json.value_gives true _, by simp⟩
    exact parts.map fun js hjs => Nat.succ_le_succ (itemsDepth_le.2 hjs)
  apply Json.record_gives
  simp only [List.forall_mem_cons]
  exact ⟨types, Json.value_gives true _, Json.value_gives true _, by simp⟩

theorem depth_of_ofText? {text : String} {d : Document} (h : Document.ofText? text = some d) :
    itemsDepth (Traits.jsonAll d.traits) + 2 ≤ Json.maxDepth := by
  rw [Document.ofText?] at h
  obtain ⟨js, read, h⟩ := Option.bind_eq_some_iff.1 h
  have parts := documentReader_gives.whole read
  have whole : (Json.array js).depth ≤ Json.maxDepth := by
    rw [Json.depth]
    exact Nat.succ_le_succ (itemsDepth_le.2 parts)
  exact Nat.le_trans (depth_of_ofJson? h) whole

theorem applyLogical_spec (r : Registry) (s : Shape) (id : Option String) :
    Yields RefusesType (fun t => typeSpec t = shapeSpec s) (applyLogical r s id) := by
  cases id with
  | none => exact Yields.ok rfl
  | some id =>
    rw [applyLogical]
    by_cases hw : isHostWrapper id s = true
    · rw [if_pos hw]
      exact Yields.ok rfl
    · rw [if_neg hw]
      cases r.find? id with
      | none => exact Yields.error trivial
      | some c =>
        dsimp only
        by_cases hp : c.storage.samePhysical s = true
        · rw [if_pos hp]
          exact Yields.ok rfl
        · rw [if_neg hp]
          exact Yields.error trivial

theorem membersSpec_ofList (t : DataType) (ts : List DataType) :
    membersSpec (.ofList t ts) = (t :: ts).map typeSpec := by
  induction ts generalizing t with
  | nil => rfl
  | cons u us ih =>
    rw [Members.ofList, membersSpec, ih u]
    rfl

/-- Specifications nest two levels less than the traits that they are read with. -/
theorem depth_invariant (r : Registry) :
    NodeInvariant r (fun node s => (shapeSpec s).json.depth + 2 ≤ node.json.depth)
      fun node t => (typeSpec t).json.depth + 2 ≤ node.json.depth where
  leaf := fun _ _ => two_le_depth _
  list := by
    intro own node t ht
    rw [shapeSpec, depth_listSpec, depth_list]
    omega
  struct := by
    intro own nodes t ts h
    have each : ∀ u ∈ t :: ts,
        (typeSpec u).json.depth + 2 ≤ itemsDepth (Traits.jsonAll nodes) := by
      intro u hu
      obtain ⟨node, mem, deep⟩ := h u hu
      exact Nat.le_trans deep (depth_le_of_mem mem)
    have first := each t List.mem_cons_self
    have all : itemsDepth (((t :: ts).map typeSpec).map Spec.json) ≤
        itemsDepth (Traits.jsonAll nodes) - 2 := by
      rw [itemsDepth_le]
      simp only [List.map_map, List.forall_mem_map]
      intro u hu
      exact Nat.le_sub_of_add_le (each u hu)
    rw [shapeSpec, depth_structSpec, depth_struct, membersSpec_ofList, specs_jsonAll_eq]
    omega
  apply := by
    intro node s id hs
    refine (applyLogical_spec r s id).imp (fun _ he => he) fun t ht => ?_
    rw [ht]
    exact hs

theorem importSchema_depth (d : Document) (r : Registry) : Yields RefusesDocument
    (fun s => ∀ c ∈ s.columns,
      (typeSpec c.type).json.depth + 2 ≤ itemsDepth (Traits.jsonAll d.traits)) (importSchema d r) := by
  refine (importSchema_each (depth_invariant r) d).imp (fun _ he => he) fun s hs c hc => ?_
  obtain ⟨node, mem, deep⟩ := hs c hc
  exact Nat.le_trans deep (depth_le_of_mem mem)

end Read

section Limit

theorem distinct_of_exportSchema {s : Schema} {r : Registry} {d : Document}
    (h : exportSchema s r = .ok d) : (s.names.map Text.trim).Nodup := by
  rw [exportSchema] at h
  split at h
  · cases h
  · rename_i fresh
    exact (duplicate?_eq_none.1 fresh).1

/-- Types may nest up to 122 levels in text that is read back. -/
theorem importText_json_of_exportSchema {s : Schema} {r : Registry} {d : Document}
    (written : exportSchema s r = .ok d) :
    ((∀ c ∈ s.columns, (typeSpec c.type).json.depth ≤ 122) →
      importText d.json.text r = importSchema d r) ∧
    (¬ (∀ c ∈ s.columns, (typeSpec c.type).json.depth ≤ 122) →
      importText d.json.text r = .error .invalidJson) := by
  have limit : d.json.depth ≤ Json.maxDepth ↔ ∀ c ∈ s.columns, (typeSpec c.type).json.depth ≤ 122 :=
    depth_exportSchema written
  have read : importText (d.json.text ++ "") r = _ := importText_json d r (by decide)
  rw [String.append_empty] at read
  constructor
  · intro shallow
    rw [read, if_pos (limit.2 shallow)]
  · intro deep
    rw [read, if_neg fun h => deep (limit.1 h)]

section Lists

def listsOf : Nat → Shape
  | 0 => .int32
  | n + 1 => .list (.plain (listsOf n))

/-- The traits of such lists with all empty ones left out. -/
def bareTraits : Nat → Json
  | 0 => .object [("type", .string "simple")]
  | n + 1 => .object [("type", .string "list"), ("inner", bareTraits n)]

def schemaOfLists (n : Nat) : Schema := ⟨[⟨.plain (listsOf n), "deep", none, by decide⟩]⟩

def bareDocument (n : Nat) : Json :=
  assembled (.array [(shapeSpec (listsOf n)).json]) (.array [bareTraits n])
    (.array [.string "deep"]) (.array [.null])

theorem depth_listsOf (n : Nat) : (shapeSpec (listsOf n)).json.depth = n := by
  induction n with
  | zero => rfl
  | succ n ih => rw [listsOf, shapeSpec, depth_listSpec, typeSpec, ih]

theorem depth_bareTraits (n : Nat) : (bareTraits n).depth = n + 1 := by
  induction n with
  | zero => rfl
  | succ n ih => simp [bareTraits, Json.depth, membersDepth, ih]

theorem textual_bareTraits (n : Nat) : (bareTraits n).Textual := by
  induction n with
  | zero => exact ⟨trivial, trivial⟩
  | succ n ih => exact ⟨trivial, ih, trivial⟩

theorem own_listsOf (r : Registry) (n : Nat) : (shapeTraits r (listsOf n)).own = .empty := by
  cases n <;> rfl

theorem traits?_bareTraits (r : Registry) (byPosition : Bool) (n : Nat) :
    traits? byPosition (bareTraits n) = some (shapeTraits r (listsOf n)) := by
  induction n generalizing byPosition with
  | zero => cases byPosition <;> rfl
  | succ n ih =>
    have tag : (only? "type" [("type", .string "list"), ("inner", bareTraits n)]).bind
        (kindOf? traitKinds byPosition) = some "list" := rfl
    rw [bareTraits, traits?, tag]
    simp [ownMember?, traitsMember?, ih true, listsOf, shapeTraits, typeTraits, DataType.isLogical]

theorem importShape_listsOf (r : Registry) (n : Nat) :
    importShape r (shapeSpec (listsOf n)) (shapeTraits r (listsOf n)) = .ok (listsOf n) := by
  induction n with
  | zero => rfl
  | succ n ih =>
    rw [listsOf, shapeSpec, shapeTraits, typeSpec, typeTraits, importShape, ih, own_listsOf]
    rfl

theorem importText_bareDocument (r : Registry) {n : Nat} (h : n ≤ 123) :
    importText (bareDocument n).text r = .ok (schemaOfLists n) := by
  have specs : (Json.array [(shapeSpec (listsOf n)).json]).Textual := ⟨textual_spec _, trivial⟩
  have traits : (Json.array [bareTraits n]).Textual := ⟨textual_bareTraits n, trivial⟩
  have shallow : (bareDocument n).depth ≤ Json.maxDepth := by
    rw [bareDocument, depth_assembled]
    simp only [Json.depth, itemsDepth, depth_listsOf, depth_bareTraits, Json.maxDepth]
    omega
  have parts : ofParts? (.array [(shapeSpec (listsOf n)).json]) (.array [bareTraits n])
      (.array [.string "deep"]) (.array [.null]) =
      some ⟨[shapeSpec (listsOf n)], [shapeTraits r (listsOf n)], ["deep"], [none]⟩ := by
    simp [ofParts?, specList?, specs?, spec?_json, traitsList?, traitsAll?, traits?_bareTraits r,
      strings?, string?, optionalStrings?, optionalString?]
  have read : Document.ofText? ((bareDocument n).text ++ "") =
      if (bareDocument n).depth ≤ Json.maxDepth then
        ofParts? (.array [(shapeSpec (listsOf n)).json]) (.array [bareTraits n])
          (.array [.string "deep"]) (.array [.null])
      else none :=
    ofText?_assembled specs traits (textual_strings ["deep"]) (textual_optionalStrings [none])
      (by decide)
  have type : importColumnType r 0 (shapeSpec (listsOf n)) (shapeTraits r (listsOf n)) =
      .ok (.plain (listsOf n)) := by
    rw [importColumnType, importShape_listsOf, own_listsOf]
    rfl
  rw [String.append_empty, if_pos shallow, parts] at read
  rw [importText, read]
  simp only [importSchema, List.length_singleton, ne_eq, not_true_eq_false, or_self, if_false,
    importColumns, type]
  rfl

end Lists

/-- A schema that was read from text is read back from its own text, unless one of its types nests
123 levels, the most that can be read. -/
theorem importText_exportText {text written : String} {s : Schema} {r : Registry}
    (read : importText text r = .ok s) (write : exportText s r = .ok written) :
    (∀ c ∈ s.columns, (typeSpec c.type).json.depth ≤ 123) ∧
    ((∀ c ∈ s.columns, (typeSpec c.type).json.depth ≠ 123) → importText written r = .ok s) ∧
    ((∃ c ∈ s.columns, (typeSpec c.type).json.depth = 123) →
      importText written r = .error .invalidJson) := by
  obtain ⟨d, hd, hs⟩ : ∃ d, Document.ofText? text = some d ∧ importSchema d r = .ok s := by
    rw [importText] at read
    cases h : Document.ofText? text with
    | none => simp [h] at read
    | some d => exact ⟨d, rfl, by simpa [h] using read⟩
  have bound : ∀ c ∈ s.columns, (typeSpec c.type).json.depth ≤ 123 := by
    intro c hc
    have type := (importSchema_depth d r).value s hs c hc
    have traits : _ + 2 ≤ 127 := depth_of_ofText? hd
    omega
  obtain ⟨d', hd', same⟩ : ∃ d', exportSchema s r = .ok d' ∧ d'.json.text = written := by
    rw [exportText, exportJson] at write
    cases h : exportSchema s r with
    | error e => simp [h, Except.map] at write
    | ok d' => exact ⟨d', rfl, by simpa [h, Except.map] using write⟩
  have again : importSchema d' r = .ok s := by
    obtain ⟨e, he, again⟩ :=
      importSchema_of_linked (distinct_of_exportSchema hd') ((importSchema_linked d r).value s hs)
    rw [hd'] at he
    cases he
    exact again
  have outcome := importText_json_of_exportSchema hd'
  rw [same, again] at outcome
  refine ⟨bound, fun other => outcome.1 fun c hc => ?_, ?_⟩
  · have := bound c hc
    have := other c hc
    omega
  · rintro ⟨c, hc, deep⟩
    apply outcome.2
    intro shallow
    have := shallow c hc
    omega

theorem importText_exportText_lists :
    importText (bareDocument 2).text .empty = .ok (schemaOfLists 2) ∧
    ∃ written, exportText (schemaOfLists 2) .empty = .ok written ∧
      importText written .empty = .ok (schemaOfLists 2) := by
  have read := importText_bareDocument .empty (by decide : 2 ≤ 123)
  obtain ⟨written, write⟩ : ∃ written, exportText (schemaOfLists 2) .empty = .ok written := ⟨_, rfl⟩
  refine ⟨read, written, write, (importText_exportText read write).2.1 ?_⟩
  simp [schemaOfLists, typeSpec, depth_listsOf]

/-- Text at the limit is read, and its schema written as text that is refused. -/
theorem importText_exportText_limit :
    importText (bareDocument 123).text .empty = .ok (schemaOfLists 123) ∧
    ∃ written, exportText (schemaOfLists 123) .empty = .ok written ∧
      importText written .empty = .error .invalidJson := by
  refine ⟨importText_bareDocument .empty (Nat.le_refl _), ?_⟩
  obtain ⟨d, written⟩ : ∃ d, exportSchema (schemaOfLists 123) .empty = .ok d := ⟨_, rfl⟩
  refine ⟨d.json.text, by rw [exportText, exportJson, written]; rfl, ?_⟩
  apply (importText_json_of_exportSchema written).2
  intro shallow
  have deep := shallow _ List.mem_cons_self
  rw [typeSpec, depth_listsOf] at deep
  omega

end Limit

end LogicalTable.Exchange
