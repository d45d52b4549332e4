import LogicalTable.Exchange.Document

/-! Reading schema documents from JSON.

Nodes are told apart by a tag, given by name or, except on the traits node of a column, by the
position of the kind in its list. A node may be an object or an array that starts with its tag, and
a record of traits may be an array of its values. Members that are not known are passed over; known
ones must not repeat. -/
namespace LogicalTable.Exchange

open LogicalTable (Json)

def only? (name : String) (ms : List (String × Json)) : Option Json :=
  match ms.filter (·.1 = name) with
  | [(_, j)] => some j
  | _ => none

def string? : Json → Option String
  | .string s => some s
  | _ => none

def strings? : Json → Option (List String)
  | .array js => js.mapM string?
  | _ => none

def optionalString? : Json → Option (Option String)
  | .null => some none
  | .string s => some (some s)
  | _ => none

def optionalStrings? : Json → Option (List (Option String))
  | .array js => js.mapM optionalString?
  | _ => none

/-- The kind that a tag stands for, of kinds listed in order. -/
def kindOf? (kinds : List String) (byPosition : Bool) : Json → Option String
  | .string s => if kinds.contains s then some s else none
  | .natural n => if byPosition then kinds[n]? else none
  | _ => none

mutual

def spec? : Json → Option Spec
  | .string tag => some (.leaf tag)
  | .object ms =>
    match (only? "type" ms).bind (kindOf? ["list", "struct"] true) with
    | some "list" => (specMember? "inner_type" ms).map .list
    | some "struct" => (specsMember? "inner_types" ms).map .struct
    | _ => none
  | .array (tag :: js) =>
    match kindOf? ["list", "struct"] true tag, js with
    | some "list", [j] => (spec? j).map .list
    | some "struct", [.array js] => (specs? js).map .struct
    | _, _ => none
  | _ => none

def specs? : List Json → Option (List Spec)
  | [] => some []
  | j :: js => do
    let s ← spec? j
    let ss ← specs? js
    return s :: ss

def specMember? (name : String) : List (String × Json) → Option Spec
  | [] => none
  | (k, j) :: ms =>
    if k = name then (if ms.any (·.1 = name) then none else spec? j) else specMember? name ms

def specsMember? (name : String) : List (String × Json) → Option (List Spec)
  | [] => none
  | (k, j) :: ms =>
    if k = name then
      match j with
      | .array js => if ms.any (·.1 = name) then none else specs? js
      | _ => none
    else specsMember? name ms

end

/-- A key width by name, possibly wrapped in an object over nothing. -/
def dictKey? : Json → Option (Option DictKey)
  | .null => some none
  | .string s => (DictKey.ofName? s).map some
  | .object [(s, .null)] | .object [(s, .object [])] => (DictKey.ofName? s).map some
  | _ => none

/-- The value of a member that may be missing but not repeated. -/
def optionalMember? (name : String) (ms : List (String × Json)) : Option Json :=
  match ms.filter (·.1 = name) with
  | [] => some .null
  | [(_, j)] => some j
  | _ => none

def traitMap? : Json → Option TraitMap
  | .object ms => do
    let logicalType ← (optionalMember? "logical_type" ms).bind optionalString?
    let innerLogicalType ← (optionalMember? "inner_logical_type" ms).bind optionalString?
    let dictEncoding ← (optionalMember? "dict_encoding" ms).bind dictKey?
    return ⟨logicalType, innerLogicalType, dictEncoding⟩
  | .array js =>
    if 3 < js.length then none
    else do
      let logicalType ← optionalString? (js[0]?.getD .null)
      let innerLogicalType ← optionalString? (js[1]?.getD .null)
      let dictEncoding ← dictKey? (js[2]?.getD .null)
      return ⟨logicalType, innerLogicalType, dictEncoding⟩
  | _ => none

/-- The traits member of a node, empty if it is missing. -/
def ownMember? (ms : List (String × Json)) : Option TraitMap :=
  match ms.filter (·.1 = "traits") with
  | [] => some .empty
  | [(_, j)] => traitMap? j
  | _ => none

def traitKinds : List String := ["simple", "list", "struct"]

/-- The members of a struct node go by two names. -/
def isMembersName (name : String) : Bool := name = "inner" || name = "inner_types"

mutual

/-- A traits node, whose tag may be a position if `byPosition`. -/
def traits? (byPosition : Bool) : Json → Option Traits
  | .object ms =>
    match (only? "type" ms).bind (kindOf? traitKinds byPosition) with
    | some "simple" => (ownMember? ms).map .simple
    | some "list" => do
      let own ← ownMember? ms
      let item ← traitsMember? ms
      return .list own item
    | some "struct" => do
      let own ← ownMember? ms
      let members ← membersMember? ms
      return .struct own members
    | _ => none
  | .array (tag :: js) =>
    match kindOf? traitKinds byPosition tag, js with
    | some "simple", [] => some (.simple .empty)
    | some "simple", [own] => (traitMap? own).map .simple
    | some "list", [own, item] => do
      let own ← traitMap? own
      let item ← traits? true item
      return .list own item
    | some "struct", [own, .array js] => do
      let own ← traitMap? own
      let members ← traitsAll? true js
      return .struct own members
    | _, _ => none
  | _ => none

def traitsAll? (byPosition : Bool) : List Json → Option (List Traits)
  | [] => some []
  | j :: js => do
    let t ← traits? byPosition j
    let ts ← traitsAll? byPosition js
    return t :: ts

def traitsMember? : List (String × Json) → Option Traits
  | [] => none
  | (k, j) :: ms =>
    if k = "inner" then (if ms.any (·.1 = "inner") then none else traits? true j)
    else traitsMember? ms

def membersMember? : List (String × Json) → Option (List Traits)
  | [] => none
  | (k, j) :: ms =>
    if isMembersName k then
      match j with
      | .array js => if ms.any (isMembersName ·.1) then none else traitsAll? true js
      | _ => none
    else membersMember? ms

end

def specList? : Json → Option (List Spec)
  | .array js => specs? js
  | _ => none

def traitsList? : Json → Option (List Traits)
  | .array js => traitsAll? false js
  | _ => none

def ofParts? (specs traits names metadata : Json) : Option Document := do
  let specs ← specList? specs
  let traits ← traitsList? traits
  let names ← strings? names
  let metadata ← optionalStrings? metadata
  return ⟨specs, traits, names, metadata⟩

def recordValues? (names : List String) : Json → Option (List Json)
  | .object ms => names.mapM fun name => only? name ms
  | .array js => if js.length = names.length then some js else none
  | _ => none

/-- A document from a JSON value, however deeply it nests. -/
def Document.ofJson? (j : Json) : Option Document := do
  let [schema, names, metadata] ← recordValues? ["schema", "columnNames", "columnMetaData"] j | none
  let [specs, traits] ← recordValues? ["specs", "traits"] schema | none
  ofParts? specs traits names metadata

def valueUnder (levels : Nat) : Json.Reader Json := Json.value true (Json.maxDepth - levels)

def typesReader : Json.Reader Json := fun cs =>
  (Json.record [⟨"specs", valueUnder 2⟩, ⟨"traits", valueUnder 2⟩] cs).map
    fun (js, rest) => (.array js, rest)

def documentReader : Json.Reader (List Json) :=
  Json.record [⟨"schema", typesReader⟩, ⟨"columnNames", valueUnder 1⟩,
    ⟨"columnMetaData", valueUnder 1⟩]

def Document.ofText? (text : String) : Option Document := do
  let js ← Json.whole documentReader text.toList
  Document.ofJson? (.array js)

def specOfText? (text : String) : Option Spec := (Json.parse? text.toList).bind spec?

def traitsOfText? (text : String) : Option Traits := (Json.parse? text.toList).bind (traits? false)

end LogicalTable.Exchange
