import LogicalTable.Proofs.Exchange.RoundTrip

/-! The tag of lists in exported documents. The node of a list of logical items carries it unless another
identifier takes its place: that of a logical type over the list, or in the first column that of row
keys. -/
namespace LogicalTable

namespace DataType

/-- The types right below a type; a logical type has those of its storage. -/
def parts (t : DataType) : List DataType :=
  match t.shape with
  | .primitive _ => []
  | .list item => [item]
  | .struct members => members.toList

/-- The type at the end of a path, which names a part at each level. -/
def at? : (path : List Nat) → DataType → Option DataType
  | [], t => some t
  | i :: path, t => t.parts[i]?.bind (at? path)

/-- Whether the type is stored as a list of logical items. -/
def ListsLogical (t : DataType) : Prop := ∃ item, t.shape = .list item ∧ item.isLogical = true

end DataType

namespace Exchange

namespace Traits

def parts : Traits → List Traits
  | simple _ => []
  | list _ item => [item]
  | struct _ members => members

def at? : (path : List Nat) → Traits → Option Traits
  | [], node => some node
  | i :: path, node => node.parts[i]?.bind (at? path)

/-- Whether a node carries the identifier of lists, under whichever key. -/
def TaggedList (node : Traits) : Prop :=
  node.own.logicalType = some listId ∨ node.own.innerLogicalType = some listId

instance (node : Traits) : Decidable node.TaggedList := inferInstanceAs (Decidable (_ ∨ _))

theorem parts_withOwn (m : TraitMap) (node : Traits) : (node.withOwn m).parts = node.parts := by
  cases node <;> rfl

theorem at?_withOwn (m : TraitMap) (node : Traits) (i : Nat) (path : List Nat) :
    (node.withOwn m).at? (i :: path) = node.at? (i :: path) := by
  rw [at?, at?, parts_withOwn]

end Traits

def Document.node? (d : Document) (column : Nat) (path : List Nat) : Option Traits :=
  d.traits[column]?.bind (Traits.at? path)

variable {r : Registry}

theorem membersTraits_eq (ms : Members) : membersTraits r ms = ms.toList.map (typeTraits r) := by
  cases ms with
  | one t => rfl
  | cons t ts => exact congrArg (typeTraits r t :: ·) (membersTraits_eq ts)

/-- Nodes branch as types do. -/
theorem parts_typeTraits (t : DataType) : (typeTraits r t).parts = t.parts.map (typeTraits r) := by
  have shape : ∀ s : Shape, (shapeTraits r s).parts = (DataType.plain s).parts.map (typeTraits r) := by
    intro s
    cases s with
    | primitive p => rfl
    | list item => rfl
    | struct members => exact membersTraits_eq members
  cases t with
  | plain s => exact shape s
  | logical id s c =>
    rw [typeTraits, Traits.parts_withOwn]
    exact shape s

theorem at?_typeTraits (path : List Nat) (t : DataType) :
    (typeTraits r t).at? path = (t.at? path).map (typeTraits r) := by
  induction path generalizing t with
  | nil => rfl
  | cons i path ih =>
    rw [Traits.at?, DataType.at?, parts_typeTraits, List.getElem?_map]
    cases t.parts[i]? with
    | none => rfl
    | some u => exact ih u

/-- The node of a list of logical items keeps the tag of lists unless a logical type stands over it. -/
theorem taggedList_typeTraits {t : DataType} (list : t.ListsLogical) :
    ∃ own below, typeTraits r t = .list own below ∧
      ((Traits.list own below).TaggedList ↔ t.id? = some listId ∨ t.id? = none) := by
  obtain ⟨item, shape, logical⟩ := list
  cases t with
  | plain s =>
    cases shape
    refine ⟨_, _, rfl, ?_⟩
    rw [if_pos logical]
    exact ⟨fun _ => Or.inr rfl, fun _ => Or.inl rfl⟩
  | logical id s c =>
    cases shape
    refine ⟨_, _, rfl, ?_⟩
    simp [Traits.TaggedList, Traits.own, shapeTraits, logical, DataType.id?]

/-- As the first column, it keeps none but the identifier over it. -/
theorem taggedList_rowKeyTraits {t : DataType} (list : t.ListsLogical) :
    ∃ own below, rowKeyTraits r t = .list own below ∧
      ((Traits.list own below).TaggedList ↔ t.id? = some listId) := by
  obtain ⟨own, below, node, _⟩ := taggedList_typeTraits (r := r) list
  have other : rowKeyId ≠ listId := by decide
  refine ⟨_, below, by rw [rowKeyTraits, node]; rfl, ?_⟩
  simp [Traits.TaggedList, Traits.own, other]

theorem node?_exportSchema {s : Schema} {d : Document} (exported : exportSchema s r = .ok d)
    {column : Nat} {path : List Nat} {whole t : DataType} (there : s.types[column]? = some whole)
    (place : whole.at? path = some t) :
    d.node? column path =
      some (if column = 0 ∧ path = [] then rowKeyTraits r t else typeTraits r t) := by
  have traits : d.traits = columnTraits r s.types := by
    rw [exportSchema] at exported
    split at exported
    · cases exported
    · cases exported
      rfl
  have below : (typeTraits r whole).at? path = some (typeTraits r t) := by
    rw [at?_typeTraits, place, Option.map_some]
  rw [Document.node?, traits]
  cases types : s.types with
  | nil =>
    rw [types] at there
    cases there
  | cons first rest =>
    rw [types] at there
    cases column with
    | zero =>
      cases there
      cases path with
      | nil =>
        cases place
        rfl
      | cons i path =>
        rw [if_neg (by simp), ← below]
        exact Traits.at?_withOwn _ _ i path
    | succ i =>
      rw [List.getElem?_cons_succ] at there
      rw [columnTraits, List.getElem?_cons_succ, List.getElem?_map, there, if_neg (by simp), ← below]
      rfl

/-- The node of every list of logical items is a list node. It carries the tag of lists just if no other
identifier stands over the list, neither that of a logical type nor, for the type of the first column, that
of row keys. -/
theorem exportSchema_listTag_iff {s : Schema} {d : Document} (exported : exportSchema s r = .ok d)
    {column : Nat} {path : List Nat} {whole t : DataType} (there : s.types[column]? = some whole)
    (place : whole.at? path = some t) (list : t.ListsLogical) :
    ∃ own below, d.node? column path = some (.list own below) ∧
      ((Traits.list own below).TaggedList ↔
        t.id? = some listId ∨ t.id? = none ∧ (column ≠ 0 ∨ path ≠ [])) := by
  have node := node?_exportSchema exported there place
  by_cases first : column = 0 ∧ path = []
  · obtain ⟨own, below, traits, tagged⟩ := taggedList_rowKeyTraits (r := r) list
    rw [if_pos first, traits] at node
    refine ⟨own, below, node, tagged.trans ⟨Or.inl, ?_⟩⟩
    rintro (id | ⟨_, later⟩)
    · exact id
    · exact (later.elim (fun h => h first.1) fun h => h first.2).elim
  · obtain ⟨own, below, traits, tagged⟩ := taggedList_typeTraits (r := r) list
    rw [if_neg first, traits] at node
    exact ⟨own, below, node, tagged.trans (or_congr_right (and_iff_left (not_and_or.1 first)).symm)⟩

end Exchange

/-- Days off, the lists of them for every year, and a season of days that is a type of its own. -/
def Schema.ofSeasons : Schema := ⟨[
  ⟨.list (.logical "day" .int64 none), "days off", none, by decide⟩,
  ⟨.list (.list (.logical "day" .int64 none)), "years", none, by decide⟩,
  ⟨.logical "season" (.list (.logical "day" .int64 none)) none, "season", none, by decide⟩]⟩

namespace Exchange

/-- The lists inside the second column keep their tag. -/
theorem listTag_ofSeasons :
    ∃ d, exportSchema .ofSeasons .empty = .ok d ∧
      ∃ own below, d.node? 1 [0] = some (.list own below) ∧ (Traits.list own below).TaggedList := by
  let days : DataType := .list (.logical "day" .int64 none)
  have exported : exportSchema .ofSeasons .empty = .ok _ := rfl
  have there : Schema.ofSeasons.types[1]? = some (.list days) := rfl
  have place : (DataType.list days).at? [0] = some days := rfl
  obtain ⟨own, below, node, tagged⟩ :=
    exportSchema_listTag_iff exported there place ⟨_, rfl, rfl⟩
  exact ⟨_, exported, own, below, node, tagged.2 (Or.inr ⟨rfl, Or.inl (by decide)⟩)⟩

/-- The row key takes the place of the tag in the first column, and the season that in the third. -/
theorem exportSchema_untagged :
    ∃ d, exportSchema .ofSeasons .empty = .ok d ∧
      ∀ column ∈ [0, 2], ∃ t node, Schema.ofSeasons.types[column]? = some t ∧ t.ListsLogical ∧
        d.node? column [] = some node ∧ ¬node.TaggedList := by
  refine ⟨_, rfl, ?_⟩
  intro column h
  simp only [List.mem_cons, List.not_mem_nil, or_false] at h
  rcases h with rfl | rfl
  · exact ⟨_, _, rfl, ⟨_, rfl, rfl⟩, rfl, by decide⟩
  · exact ⟨_, _, rfl, ⟨_, rfl, rfl⟩, rfl, by decide⟩

end Exchange
end LogicalTable
