import LogicalTable.Proofs.Exchange.Documents
import LogicalTable.Proofs.Exchange.RoundTrip

/-! What reading a document passes over. Integers go by two names, the host's own identifiers stand
where they belong or are left out, key widths are not read at all, and inner identifiers only under
the tag of the row key. Documents of one form that differ in nothing else are read alike. -/
namespace LogicalTable

/-- What the host calls a primitive; it has no factory for blobs. -/
def Primitive.hostName? : Primitive → Option String
  | int32 => some "Int"
  | int64 => some "Long"
  | double => some "Double"
  | string => some "String"
  | bool => some "Boolean"
  | blob => none

namespace Exchange

section HostFactories

theorem afterStart?_append (start rest : List Char) : afterStart? start (start ++ rest) = some rest := by
  rw [afterStart?, if_pos (List.isPrefixOf_iff_prefix.2 (List.prefix_append start rest)),
    List.drop_left]

theorem beforeEnd?_append (front stop : List Char) : beforeEnd? stop (front ++ stop) = some front := by
  rw [beforeEnd?, if_pos (List.isSuffixOf_iff_suffix.2 (List.suffix_append front stop)),
    List.length_append, Nat.add_sub_cancel, List.take_left]

theorem hostPrimitive?_hostName {p : Primitive} {name : String} (h : p.hostName? = some name) :
    hostPrimitive? name.toList = some p := by
  cases p <;> cases h <;> decide

theorem hostName_ne_empty {p : Primitive} {name : String} (h : p.hostName? = some name) :
    name.toList ≠ [] := by
  cases p <;> cases h <;> decide

/-- Whether an identifier names a class in the host's package, however its text is laid out. -/
def NamesHostClass (id name : String) : Prop := factoryClass? id = some (hostPackage ++ name)

theorem hostClass?_eq {id name : String} (h : NamesHostClass id name) :
    hostClass? id = some name.toList := by
  rw [hostClass?, h, Option.bind_some, String.toList_append, afterStart?_append]

/-- The plain text of an identifier names its class. -/
theorem factoryClass?_factoryId (name : String) : factoryClass? (factoryId name) = some name := by
  have each : ∀ m ∈ [("value_factory_class", Json.string name)],
      ∃ field, [(⟨"value_factory_class", valueUnder 1⟩ : Json.FieldReader)].find? (·.name = m.1) =
        some field ∧ Json.Reads field.read m.2.chars (some m.2) ∧ Json.Starts m.2.chars := by
    intro m hm
    obtain rfl := List.mem_singleton.1 hm
    refine ⟨_, rfl, ?_, Json.starts_chars trivial⟩
    have flat : (Json.string name).depth ≤ Json.maxDepth - 1 := Nat.zero_le _
    have read := Json.reads_value true (.string name) trivial (Json.maxDepth - 1)
    rwa [Json.within, if_pos flat] at read
  have read := Json.whole_of_reads_alone (Json.reads_record each)
    (Json.starts_chars ⟨trivial, trivial⟩)
  rw [factoryClass?, factoryId, Json.text, String.toList_ofList, read]
  rfl

theorem isHostWrapper_primitive {p : Primitive} {id name : String} (hp : p.hostName? = some name)
    (h : NamesHostClass id (name ++ "ValueFactory")) : isHostWrapper id (.primitive p) = true := by
  simp only [isHostWrapper, hostClass?_eq h, String.toList_append, beforeEnd?_append,
    Option.bind_some, hostPrimitive?_hostName hp, beq_self_eq_true]

theorem isHostWrapper_list {id : String} (h : NamesHostClass id "ListValueFactory") (t : DataType) :
    isHostWrapper id (.list t) = true := by
  have whole : beforeEnd? "ListValueFactory".toList "ListValueFactory".toList = some [] := by decide
  simp only [isHostWrapper, hostClass?_eq h, whole]

theorem isHostWrapper_primitives {p : Primitive} {id name : String} (hp : p.hostName? = some name)
    (h : NamesHostClass id (name ++ "ListValueFactory")) :
    isHostWrapper id (.list (.plain (.primitive p))) = true := by
  simp only [isHostWrapper, hostClass?_eq h, String.toList_append, beforeEnd?_append]
  cases text : name.toList with
  | nil => exact (hostName_ne_empty hp text).elim
  | cons c cs =>
    have named := hostPrimitive?_hostName hp
    rw [text] at named
    simp only [named, beq_self_eq_true]

end HostFactories

/-- The type that a node stands for, its own identifier applied. -/
def importType (r : Registry) (spec : Spec) (node : Traits) : Except SerializationError DataType := do
  let s ← importShape r spec node
  applyLogical r s node.own.logicalType

/-- Tags that name one primitive. -/
inductive SameTag : String → String → Prop where
  | refl (tag : String) : SameTag tag tag
  | int : SameTag "int32" "int"
  | long : SameTag "int64" "long"
  | symm {tag tag' : String} : SameTag tag tag' → SameTag tag' tag

/-- What may stand as the identifier of a node that needs none: nothing, the host's factory for the
primitive of a leaf, that for lists, or that for lists of the primitive that the items are read as. -/
inductive Dispensable (r : Registry) : Spec → Traits → Option String → Prop where
  | absent (spec : Spec) (node : Traits) : Dispensable r spec node none
  | primitive {tag : String} {node : Traits} {p : Primitive} {id name : String}
      (leaf : Primitive.ofTag? tag = some p) (host : p.hostName? = some name)
      (names : NamesHostClass id (name ++ "ValueFactory")) :
      Dispensable r (.leaf tag) node (some id)
  | list {spec : Spec} {node : Traits} {id : String} (names : NamesHostClass id "ListValueFactory") :
      Dispensable r (.list spec) node (some id)
  | primitives {spec : Spec} {own : TraitMap} {item : Traits} {p : Primitive} {id name : String}
      (items : importType r spec item = .ok (.plain (.primitive p))) (host : p.hostName? = some name)
      (names : NamesHostClass id (name ++ "ListValueFactory")) :
      Dispensable r (.list spec) (.list own item) (some id)

/-- Identifiers of two nodes that are the same or both dispensable. -/
inductive SameId (r : Registry) (spec : Spec) (node : Traits) (spec' : Spec) (node' : Traits) :
    Option String → Option String → Prop where
  | refl (id : Option String) : SameId r spec node spec' node' id id
  | dispensable {id id' : Option String} (left : Dispensable r spec node id)
      (right : Dispensable r spec' node' id') : SameId r spec node spec' node' id id'

/-- Whether the traits are of the kind that the specification calls for. -/
def Spec.Fits (spec : Spec) (node : Traits) : Prop :=
  (spec.kind, node.kind) ∈ [("leaf", "simple"), ("list", "list"), ("struct", "struct")]

mutual

/-- Trees of one form that differ only in what is passed over, the traits of the two nodes themselves
left aside. Where specification and traits are of different kinds nothing below them is read. -/
inductive Alike (r : Registry) : Spec → Traits → Spec → Traits → Prop where
  | leaf {tag tag' : String} (own own' : TraitMap) (same : SameTag tag tag') :
      Alike r (.leaf tag) (.simple own) (.leaf tag') (.simple own')
  | list {spec spec' : Spec} {node node' : Traits} (own own' : TraitMap)
      (below : Alike r spec node spec' node')
      (id : SameId r spec node spec' node' node.own.logicalType node'.own.logicalType) :
      Alike r (.list spec) (.list own node) (.list spec') (.list own' node')
  | struct {specs specs' : List Spec} {nodes nodes' : List Traits} (own own' : TraitMap)
      (sameSpecs : specs.length = specs'.length) (sameNodes : nodes.length = nodes'.length)
      (members : AlikeTypes r specs nodes specs' nodes') :
      Alike r (.struct specs) (.struct own nodes) (.struct specs') (.struct own' nodes')
  | unfit {spec spec' : Spec} {node node' : Traits} (unfit : ¬ spec.Fits node)
      (sameSpec : spec.kind = spec'.kind) (sameNode : node.kind = node'.kind) :
      Alike r spec node spec' node'

/-- The same of nodes in a row, with the identifiers that the nodes carry themselves. -/
inductive AlikeTypes (r : Registry) : List Spec → List Traits → List Spec → List Traits → Prop where
  | noSpecs (nodes nodes' : List Traits) : AlikeTypes r [] nodes [] nodes'
  | noNodes (specs specs' : List Spec) : AlikeTypes r specs [] specs' []
  | cons {spec spec' : Spec} {node node' : Traits} {specs specs' : List Spec}
      {nodes nodes' : List Traits} (below : Alike r spec node spec' node')
      (id : SameId r spec node spec' node' node.own.logicalType node'.own.logicalType)
      (rest : AlikeTypes r specs nodes specs' nodes') :
      AlikeTypes r (spec :: specs) (node :: nodes) (spec' :: specs') (node' :: nodes')

end

section Reading

variable {r : Registry} {spec spec' : Spec} {node node' : Traits} {id id' : Option String}

theorem ofTag?_of_sameTag {tag tag' : String} (h : SameTag tag tag') :
    tag = tag' ∨ ∃ p, Primitive.ofTag? tag = some p ∧ Primitive.ofTag? tag' = some p := by
  induction h with
  | refl => exact Or.inl rfl
  | int => exact Or.inr ⟨.int32, by decide, by decide⟩
  | long => exact Or.inr ⟨.int64, by decide, by decide⟩
  | symm _ ih =>
    rcases ih with rfl | ⟨p, left, right⟩
    · exact Or.inl rfl
    · exact Or.inr ⟨p, right, left⟩

theorem importShape_list (r : Registry) (spec : Spec) (own : TraitMap) (node : Traits) :
    importShape r (.list spec) (.list own node) = (importType r spec node).map .list := by
  rw [importShape, importType]
  cases importShape r spec node with
  | error e => rfl
  | ok s =>
    rw [ok_bind, ok_bind]
    cases applyLogical r s node.own.logicalType <;> rfl

theorem importTypes_cons (r : Registry) (spec : Spec) (node : Traits) (specs : List Spec)
    (nodes : List Traits) : importTypes r (spec :: specs) (node :: nodes) =
      (do
        let t ← importType r spec node
        let ts ← importTypes r specs nodes
        return t :: ts) := by
  rw [importTypes, importType, bind_assoc]

/-- A dispensable identifier is taken off whatever its node is read as. -/
theorem applyLogical_dispensable {s : Shape} (h : Dispensable r spec node id)
    (read : importShape r spec node = .ok s) : applyLogical r s id = .ok (.plain s) := by
  cases h with
  | absent => rfl
  | @primitive tag node p id name leaf host names =>
    cases node with
    | simple own =>
      rw [importShape, leaf] at read
      cases read
      rw [applyLogical, if_pos (isHostWrapper_primitive host names)]
    | list | struct => cases read
  | @list spec node id names =>
    cases node with
    | list own item =>
      rw [importShape_list] at read
      obtain ⟨t, _, rfl⟩ := map_eq_ok.1 read
      rw [applyLogical, if_pos (isHostWrapper_list names t)]
    | simple | struct => cases read
  | @primitives spec own item p id name items host names =>
    rw [importShape_list, items] at read
    cases read
    rw [applyLogical, if_pos (isHostWrapper_primitives host names)]

/-- Nodes whose shapes are read alike stand for one type, if their identifiers are the same. -/
theorem applyLogical_sameId (same : importShape r spec node = importShape r spec' node')
    (h : SameId r spec node spec' node' id id') :
    (importShape r spec node >>= fun s => applyLogical r s id) =
      importShape r spec' node' >>= fun s => applyLogical r s id' := by
  cases h with
  | refl => rw [same]
  | dispensable left right =>
    cases read : importShape r spec node with
    | error e =>
      rw [← same, read]
      rfl
    | ok s =>
      rw [← same, read, ok_bind, ok_bind, applyLogical_dispensable left read,
        applyLogical_dispensable right (same ▸ read)]

theorem importShape_unfit (h : ¬ spec.Fits node) :
    importShape r spec node = .error (.shapeMismatch spec.kind node.kind) := by
  cases spec <;> cases node <;> first | rfl | simp [Spec.Fits, Spec.kind, Traits.kind] at h

mutual

theorem importShape_alike : ∀ {spec spec' : Spec} {node node' : Traits},
    Alike r spec node spec' node' → importShape r spec node = importShape r spec' node'
  | _, _, _, _, .leaf own own' same => by
    rcases ofTag?_of_sameTag same with rfl | ⟨p, left, right⟩
    · rfl
    · rw [importShape, importShape, left, right]
  | _, _, _, _, .list own own' below id => by
    have item : importType r _ _ = importType r _ _ :=
      applyLogical_sameId (importShape_alike below) id
    rw [importShape_list, importShape_list, item]
  | _, _, _, _, .struct own own' sameSpecs sameNodes members => by
    rw [importShape, importShape, sameSpecs, sameNodes, importTypes_alike members]
  | spec, spec', node, node', .unfit unfit sameSpec sameNode => by
    have unfit' : ¬ spec'.Fits node' := by
      rwa [Spec.Fits, ← sameSpec, ← sameNode]
    rw [importShape_unfit unfit, importShape_unfit unfit', sameSpec, sameNode]

theorem importTypes_alike : ∀ {specs specs' : List Spec} {nodes nodes' : List Traits},
    AlikeTypes r specs nodes specs' nodes' → importTypes r specs nodes = importTypes r specs' nodes'
  | _, _, _, _, .noSpecs nodes nodes' => by rw [importTypes, importTypes] <;> simp
  | _, _, _, _, .noNodes specs specs' => by rw [importTypes, importTypes] <;> simp
  | _, _, _, _, .cons below id rest => by
    have head : importType r _ _ = importType r _ _ :=
      applyLogical_sameId (importShape_alike below) id
    rw [importTypes_cons, importTypes_cons, head, importTypes_alike rest]

end

/-- The identifier that a column's traits declare. The first column may be tagged as the row key, and
then declares the inner one. -/
inductive Declares : (index : Nat) → TraitMap → Option String → Prop where
  | own {index : Nat} {m : TraitMap} (plain : ¬ (index = 0 ∧ m.logicalType = some rowKeyId)) :
      Declares index m m.logicalType
  | rowKey {m : TraitMap} (tagged : m.logicalType = some rowKeyId) :
      Declares 0 m m.innerLogicalType

theorem columnId_eq {index : Nat} {m : TraitMap} {id : Option String} (h : Declares index m id) :
    columnId index m = id := by
  cases h with
  | own plain => exact if_neg plain
  | rowKey tagged => exact if_pos ⟨rfl, tagged⟩

/-- Columns whose trees are alike and declare the same identifier. -/
structure AlikeColumn (r : Registry) (index : Nat) (spec : Spec) (node : Traits) (spec' : Spec)
    (node' : Traits) : Prop where
  below : Alike r spec node spec' node'
  id : ∃ id id', Declares index node.own id ∧ Declares index node'.own id' ∧
    SameId r spec node spec' node' id id'

inductive AlikeColumns (r : Registry) : (index : Nat) → List Spec → List Traits → List Spec →
    List Traits → Prop where
  | noSpecs (index : Nat) (nodes nodes' : List Traits) : AlikeColumns r index [] nodes [] nodes'
  | noNodes (index : Nat) (specs specs' : List Spec) : AlikeColumns r index specs [] specs' []
  | cons {index : Nat} {spec spec' : Spec} {node node' : Traits} {specs specs' : List Spec}
      {nodes nodes' : List Traits} (head : AlikeColumn r index spec node spec' node')
      (rest : AlikeColumns r (index + 1) specs nodes specs' nodes') :
      AlikeColumns r index (spec :: specs) (node :: nodes) (spec' :: specs') (node' :: nodes')

/-- Documents of the same columns, up to what is passed over. -/
structure Document.Alike (r : Registry) (d d' : Document) : Prop where
  names : d.names = d'.names
  metadata : d.metadata = d'.metadata
  specs : d.specs.length = d'.specs.length
  traits : d.traits.length = d'.traits.length
  columns : AlikeColumns r 0 d.specs d.traits d'.specs d'.traits

theorem importColumnType_alike {index : Nat} (h : AlikeColumn r index spec node spec' node') :
    importColumnType r index spec node = importColumnType r index spec' node' := by
  obtain ⟨below, id, id', left, right, same⟩ := h
  rw [importColumnType, importColumnType, columnId_eq left, columnId_eq right]
  exact applyLogical_sameId (importShape_alike below) same

theorem importColumns_alike {index : Nat} {specs specs' : List Spec} {nodes nodes' : List Traits}
    (h : AlikeColumns r index specs nodes specs' nodes') (names : List String)
    (metadata : List (Option String)) : importColumns r index specs nodes names metadata =
      importColumns r index specs' nodes' names metadata := by
  induction h generalizing names metadata with
  | noSpecs => rw [importColumns, importColumns] <;> simp
  | noNodes => rw [importColumns, importColumns] <;> simp
  | cons head rest ih =>
    cases names with
    | nil => rw [importColumns, importColumns] <;> simp
    | cons name names =>
      cases metadata with
      | nil => rw [importColumns, importColumns] <;> simp
      | cons text metadata =>
        rw [importColumns, importColumns, importColumnType_alike head, ih]

/-- Documents that are alike have one outcome, be it a schema or a failure. -/
theorem importSchema_alike {d d' : Document} (h : d.Alike r d') :
    importSchema d r = importSchema d' r := by
  rw [importSchema, importSchema, h.specs, h.traits, h.names, h.metadata]
  rw [importColumns_alike h.columns]

end Reading

def hostId (name : String) : String := factoryId (hostPackage ++ name)

theorem namesHostClass_hostId (name : String) : NamesHostClass (hostId name) name :=
  factoryClass?_factoryId _

/-- A key, a list and a record with no tag that could be left out. -/
def Document.bare : Document where
  specs := [.leaf "string", .list (.leaf "int32"), .struct [.leaf "int64", .list (.leaf "double")]]
  traits := [.simple {}, .list {} (.simple {}), .struct {} [.simple {}, .list {} (.simple {})]]
  names := ["key", "counts", "track"]
  metadata := [none, some "daily", none]

/-- The same with the host's tags in all places. -/
def Document.dressed : Document where
  specs := [.leaf "string", .list (.leaf "int"), .struct [.leaf "long", .list (.leaf "double")]]
  traits := [
    .simple { logicalType := rowKeyId, innerLogicalType := hostId "StringValueFactory" },
    .list { logicalType := hostId "IntListValueFactory", dictEncoding := some .int }
      (.simple { logicalType := hostId "IntValueFactory", innerLogicalType := "none" }),
    .struct { innerLogicalType := rowKeyId } [.simple { logicalType := hostId "LongValueFactory" },
      .list { logicalType := listId } (.simple { dictEncoding := some .byte })]]
  names := ["key", "counts", "track"]
  metadata := [none, some "daily", none]

theorem alike_dressed : Document.bare.Alike .empty .dressed where
  names := rfl
  metadata := rfl
  specs := rfl
  traits := rfl
  columns := by
    have lists : NamesHostClass listId "ListValueFactory" :=
      namesHostClass_hostId "ListValueFactory"
    have int (node : Traits) : Dispensable .empty (.leaf "int") node (hostId "IntValueFactory") :=
      .primitive (p := .int32) rfl rfl (namesHostClass_hostId _)
    have long (node : Traits) : Dispensable .empty (.leaf "long") node (hostId "LongValueFactory") :=
      .primitive (p := .int64) rfl rfl (namesHostClass_hostId _)
    have string (node : Traits) :
        Dispensable .empty (.leaf "string") node (hostId "StringValueFactory") :=
      .primitive (p := .string) rfl rfl (namesHostClass_hostId _)
    have counts (own : TraitMap) : Dispensable .empty (.list (.leaf "int"))
        (.list own (.simple { logicalType := hostId "IntValueFactory", innerLogicalType := "none" }))
        (hostId "IntListValueFactory") :=
      .primitives (p := .int32) rfl rfl (namesHostClass_hostId _)
    refine .cons ⟨.leaf _ _ (.refl _), none, _, .own (by decide), .rowKey rfl, ?_⟩ (.cons
      ⟨.list _ _ (.leaf _ _ .int) ?_, none, _, .own (by decide), .own (by decide), ?_⟩ (.cons
        ⟨.struct _ _ rfl rfl ?_, none, none, .own (by decide), .own (by decide), .refl _⟩
          (.noSpecs _ _ _)))
    · exact .dispensable (.absent _ _) (string _)
    · exact .dispensable (.absent _ _) (int _)
    · exact .dispensable (.absent _ _) (counts _)
    · exact .cons (.leaf _ _ .long) (.dispensable (.absent _ _) (long _)) (.cons
        (.list _ _ (.leaf _ _ (.refl _)) (.refl _)) (.dispensable (.absent _ _) (.list lists))
          (.noSpecs _ _))

theorem importSchema_dressed : importSchema .bare .empty = importSchema .dressed .empty ∧
    ∃ s, importSchema .bare .empty = .ok s :=
  ⟨importSchema_alike alike_dressed, _, rfl⟩

end Exchange
end LogicalTable
