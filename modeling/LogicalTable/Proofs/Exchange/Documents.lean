import LogicalTable.Proofs.Exchange.MemberOrder

/-! Documents read back from the JSON that they are written as: from the value, and from its text
as written or sorted, if that nests no deeper than texts may. -/
namespace LogicalTable.Exchange

open LogicalTable (Json)
open LogicalTable.Json (Reads Starts within)

section Values

mutual

theorem spec?_json : ∀ s : Spec, spec? s.json = some s
  | .leaf _ => rfl
  | .list item => by
    have tag : (only? "type" [("type", .string "list"), ("inner_type", item.json)]).bind
        (kindOf? ["list", "struct"] true) = some "list" := rfl
    rw [Spec.json, spec?, tag]
    simp [specMember?, spec?_json item]
  | .struct members => by
    have tag : (only? "type" [("type", .string "struct"),
        ("inner_types", .array (Spec.jsonAll members))]).bind
        (kindOf? ["list", "struct"] true) = some "struct" := rfl
    rw [Spec.json, spec?, tag]
    simp [specsMember?, specs?_jsonAll members]

theorem specs?_jsonAll : ∀ ss : List Spec, specs? (Spec.jsonAll ss) = some ss
  | [] => rfl
  | s :: ss => by
    rw [Spec.jsonAll, specs?, spec?_json s, specs?_jsonAll ss]
    rfl

end

theorem traitMap?_json (m : TraitMap) : traitMap? m.json = some m := by
  obtain ⟨logical, inner, key⟩ := m
  cases logical <;> cases inner <;> cases key <;>
    simp [TraitMap.json, traitMap?, optionalMember?, optionalString?, dictKey?, DictKey.ofName?_name]

mutual

theorem traits?_json : ∀ (byPosition : Bool) (node : Traits),
    traits? byPosition node.json = some node
  | byPosition, .simple own => by
    have tag : (only? "type" [("type", .string "simple"), ("traits", own.json)]).bind
        (kindOf? traitKinds byPosition) = some "simple" := rfl
    rw [Traits.json, traits?, tag]
    simp [ownMember?, traitMap?_json]
  | byPosition, .list own item => by
    have tag : (only? "type" [("type", .string "list"), ("traits", own.json),
        ("inner", item.json)]).bind (kindOf? traitKinds byPosition) = some "list" := rfl
    rw [Traits.json, traits?, tag]
    simp [ownMember?, traitMap?_json, traitsMember?, traits?_json true item]
  | byPosition, .struct own members => by
    have tag : (only? "type" [("type", .string "struct"), ("traits", own.json),
        ("inner", .array (Traits.jsonAll members))]).bind (kindOf? traitKinds byPosition) =
        some "struct" := rfl
    rw [Traits.json, traits?, tag]
    simp [ownMember?, traitMap?_json, membersMember?, isMembersName, traitsAll?_jsonAll true members]

theorem traitsAll?_jsonAll : ∀ (byPosition : Bool) (nodes : List Traits),
    traitsAll? byPosition (Traits.jsonAll nodes) = some nodes
  | _, [] => rfl
  | byPosition, node :: nodes => by
    rw [Traits.jsonAll, traitsAll?, traits?_json byPosition node, traitsAll?_jsonAll byPosition nodes]
    rfl

end

theorem strings?_json (names : List String) : strings? (.array (names.map .string)) = some names := by
  rw [strings?]
  induction names with
  | nil => rfl
  | cons name names ih =>
    rw [List.map_cons, List.mapM_cons, ih]
    rfl

theorem optionalStrings?_json (texts : List (Option String)) :
    optionalStrings? (.array (texts.map .ofOption)) = some texts := by
  rw [optionalStrings?]
  induction texts with
  | nil => rfl
  | cons text texts ih =>
    rw [List.map_cons, List.mapM_cons, ih]
    cases text <;> rfl

end Values

def assembled (specs traits names metadata : Json) : Json :=
  .object [("schema", .object [("specs", specs), ("traits", traits)]), ("columnNames", names),
    ("columnMetaData", metadata)]

theorem ofJson?_assembled (specs traits names metadata : Json) :
    Document.ofJson? (assembled specs traits names metadata) =
      ofParts? specs traits names metadata := rfl

theorem ofParts?_json (d : Document) :
    ofParts? (.array (Spec.jsonAll d.specs)) (.array (Traits.jsonAll d.traits))
      (.array (d.names.map .string)) (.array (d.metadata.map .ofOption)) = some d := by
  rw [ofParts?, specList?, traitsList?, specs?_jsonAll, traitsAll?_jsonAll, strings?_json,
    optionalStrings?_json]
  rfl

theorem ofJson?_json (d : Document) : Document.ofJson? d.json = some d :=
  (ofJson?_assembled _ _ _ _).trans (ofParts?_json d)

section Texts

variable {specs traits names metadata : Json}

def typesWithin (depth : Nat) (specs traits : Json) : Option Json :=
  (within depth specs).bind fun s => (within depth traits).map fun t => .array [s, t]

theorem reads_typesReader (hs : specs.Textual) (ht : traits.Textual) :
    Reads typesReader (Json.object [("specs", specs), ("traits", traits)]).chars
      (typesWithin (Json.maxDepth - 2) specs traits) := by
  have each : ∀ m ∈ [("specs", specs), ("traits", traits)],
      ∃ field, [(⟨"specs", valueUnder 2⟩ : Json.FieldReader), ⟨"traits", valueUnder 2⟩].find?
        (·.name = m.1) = some field ∧
        Reads field.read m.2.chars (within (Json.maxDepth - 2) m.2) ∧ Starts m.2.chars := by
    intro m hm
    rcases List.mem_cons.1 hm with rfl | hm
    · exact ⟨_, rfl, Json.reads_value true specs hs _, Json.starts_chars hs⟩
    · obtain rfl := List.mem_singleton.1 hm
      exact ⟨_, rfl, Json.reads_value true traits ht _, Json.starts_chars ht⟩
  intro rest
  rw [typesReader, Json.reads_record each rest, typesWithin]
  simp only [List.mapM_cons, List.mapM_nil]
  cases within (Json.maxDepth - 2) specs with
  | none => rfl
  | some s =>
    cases within (Json.maxDepth - 2) traits with
    | none => rfl
    | some t => simp [Json.fieldValues]

def partsWithin (specs traits names metadata : Json) : Option (List Json) :=
  (typesWithin (Json.maxDepth - 2) specs traits).bind fun types =>
    (within (Json.maxDepth - 1) names).bind fun names =>
      (within (Json.maxDepth - 1) metadata).map fun metadata => [types, names, metadata]

def partWithin (specs traits : Json) (m : String × Json) : Option Json :=
  if m.1 = "schema" then typesWithin (Json.maxDepth - 2) specs traits
  else within (Json.maxDepth - 1) m.2

/-- The reader of documents takes the members in any order. -/
theorem reads_documentReader (hs : specs.Textual) (ht : traits.Textual) (hn : names.Textual)
    (hm : metadata.Textual) {ms : List (String × Json)}
    (h : ∀ m ∈ ms, m = ("schema", .object [("specs", specs), ("traits", traits)]) ∨
      m = ("columnNames", names) ∨ m = ("columnMetaData", metadata)) :
    Reads documentReader (Json.object ms).chars
      ((ms.mapM fun m => (partWithin specs traits m).map fun j => some (m.1, j)).bind fun vs =>
        Json.fieldValues [⟨"schema", typesReader⟩, ⟨"columnNames", valueUnder 1⟩,
          ⟨"columnMetaData", valueUnder 1⟩] (vs.filterMap id)) := by
  apply Json.reads_record
  intro m mem
  rcases h m mem with rfl | rfl | rfl
  · exact ⟨_, rfl, reads_typesReader hs ht, Json.starts_chars ⟨hs, ht, trivial⟩⟩
  · exact ⟨_, rfl, Json.reads_value true names hn _, Json.starts_chars hn⟩
  · exact ⟨_, rfl, Json.reads_value true metadata hm _, Json.starts_chars hm⟩

theorem reads_assembled (hs : specs.Textual) (ht : traits.Textual) (hn : names.Textual)
    (hm : metadata.Textual) : Reads documentReader (assembled specs traits names metadata).chars
      (partsWithin specs traits names metadata) := by
  intro rest
  rw [assembled, reads_documentReader hs ht hn hm (by simp) rest, partsWithin]
  simp only [List.mapM_cons, List.mapM_nil, partWithin]
  cases typesWithin (Json.maxDepth - 2) specs traits with
  | none => rfl
  | some types =>
    cases within (Json.maxDepth - 1) names with
    | none => rfl
    | some names =>
      cases within (Json.maxDepth - 1) metadata with
      | none => rfl
      | some metadata => simp [Json.fieldValues]

theorem sorted_assembled : (assembled specs traits names metadata).sorted =
    .object [("columnMetaData", metadata.sorted), ("columnNames", names.sorted),
      ("schema", .object [("specs", specs.sorted), ("traits", traits.sorted)])] := by
  have names : ¬ "columnNames" < "columnMetaData" := by decide
  have schema : ¬ "schema" < "columnMetaData" ∧ ¬ "schema" < "columnNames" := by decide
  have types : "specs" < "traits" := by decide
  simp [assembled, Json.sorted, Json.sortedMembers, Json.insertMember, names, schema, types]

theorem reads_sorted (hs : specs.Textual) (ht : traits.Textual) (hn : names.Textual)
    (hm : metadata.Textual) :
    Reads documentReader (assembled specs traits names metadata).sorted.chars
      (partsWithin specs.sorted traits.sorted names.sorted metadata.sorted) := by
  intro rest
  rw [sorted_assembled, reads_documentReader hs.sorted ht.sorted hn.sorted hm.sorted (by simp) rest,
    partsWithin]
  simp only [List.mapM_cons, List.mapM_nil, partWithin]
  cases typesWithin (Json.maxDepth - 2) specs.sorted traits.sorted with
  | none =>
    cases within (Json.maxDepth - 1) names.sorted <;>
      cases within (Json.maxDepth - 1) metadata.sorted <;> rfl
  | some types =>
    cases within (Json.maxDepth - 1) names.sorted with
    | none =>
      cases within (Json.maxDepth - 1) metadata.sorted <;> rfl
    | some names =>
      cases within (Json.maxDepth - 1) metadata.sorted with
      | none => rfl
      | some metadata => simp [Json.fieldValues]

theorem depth_assembled : (assembled specs traits names metadata).depth =
    max (max specs.depth traits.depth + 1) (max names.depth metadata.depth) + 1 := by
  simp [assembled, Json.depth, Json.membersDepth]

theorem partsWithin_eq : partsWithin specs traits names metadata =
    if (assembled specs traits names metadata).depth ≤ Json.maxDepth then
      some [.array [specs, traits], names, metadata] else none := by
  rw [depth_assembled, partsWithin, typesWithin, within, within, within, within, Json.maxDepth]
  by_cases hs : specs.depth ≤ 125
  · by_cases ht : traits.depth ≤ 125
    · by_cases hn : names.depth ≤ 126
      · by_cases hm : metadata.depth ≤ 126
        · rw [if_pos hs, if_pos ht, if_pos hn, if_pos hm, if_pos (by omega)]
          rfl
        · simp [hs, ht, hn, hm]
          omega
      · simp [hs, ht, hn]
        omega
    · simp [hs, ht]
      omega
  · simp [hs]
    omega

/-- A document is read from its text, and what white space follows, unless it nests too deep. -/
theorem ofText?_assembled (hs : specs.Textual) (ht : traits.Textual) (hn : names.Textual)
    (hm : metadata.Textual) {blank : String} (spaces : blank.toList.all Json.isSpace = true) :
    Document.ofText? ((assembled specs traits names metadata).text ++ blank) =
      if (assembled specs traits names metadata).depth ≤ Json.maxDepth then
        ofParts? specs traits names metadata else none := by
  have start : (assembled specs traits names metadata).Textual := ⟨⟨hs, ht, trivial⟩, hn, hm, trivial⟩
  have read := Json.whole_of_reads (reads_assembled hs ht hn hm) (Json.starts_chars start) spaces
  rw [Document.ofText?, Json.text, String.toList_append, String.toList_ofList, read, partsWithin_eq]
  split
  · rfl
  · rfl

theorem ofText?_sorted (hs : specs.Textual) (ht : traits.Textual) (hn : names.Textual)
    (hm : metadata.Textual) {blank : String} (spaces : blank.toList.all Json.isSpace = true) :
    Document.ofText? ((assembled specs traits names metadata).sorted.text ++ blank) =
      Document.ofText? ((assembled specs traits names metadata).text ++ blank) := by
  have start : (assembled specs traits names metadata).Textual := ⟨⟨hs, ht, trivial⟩, hn, hm, trivial⟩
  have read := Json.whole_of_reads (reads_sorted hs ht hn hm) (Json.starts_chars start.sorted) spaces
  have depth : (assembled specs.sorted traits.sorted names.sorted metadata.sorted).depth =
      (assembled specs traits names metadata).depth := by
    simp only [depth_assembled, Json.depth_sorted]
  rw [ofText?_assembled hs ht hn hm spaces, Document.ofText?, Json.text, String.toList_append,
    String.toList_ofList, read, partsWithin_eq, depth]
  split
  · exact ofParts?_sorted specs traits names metadata
  · rfl

end Texts

section Textual

mutual

theorem textual_spec : ∀ s : Spec, s.json.Textual
  | .leaf _ => trivial
  | .list item => ⟨trivial, textual_spec item, trivial⟩
  | .struct members => ⟨trivial, textual_specs members, trivial⟩

theorem textual_specs : ∀ ss : List Spec, Json.AllTextual (Spec.jsonAll ss)
  | [] => trivial
  | s :: ss => ⟨textual_spec s, textual_specs ss⟩

end

theorem textual_traitMap (m : TraitMap) : m.json.Textual := by
  obtain ⟨logical, inner, key⟩ := m
  cases logical <;> cases inner <;> cases key <;>
    simp [TraitMap.json, Json.Textual, Json.MembersTextual]

mutual

theorem textual_traits : ∀ node : Traits, node.json.Textual
  | .simple own => ⟨trivial, textual_traitMap own, trivial⟩
  | .list own item => ⟨trivial, textual_traitMap own, textual_traits item, trivial⟩
  | .struct own members => ⟨trivial, textual_traitMap own, textual_traitsAll members, trivial⟩

theorem textual_traitsAll : ∀ nodes : List Traits, Json.AllTextual (Traits.jsonAll nodes)
  | [] => trivial
  | node :: nodes => ⟨textual_traits node, textual_traitsAll nodes⟩

end

theorem textual_strings (names : List String) : (Json.array (names.map .string)).Textual := by
  induction names with
  | nil => trivial
  | cons name names ih => exact ⟨trivial, ih⟩

theorem textual_optionalStrings (texts : List (Option String)) :
    (Json.array (texts.map .ofOption)).Textual := by
  induction texts with
  | nil => trivial
  | cons text texts ih =>
    cases text with
    | none => exact ⟨trivial, ih⟩
    | some text => exact ⟨trivial, ih⟩

end Textual

/-- The document itself comes back from its text, which nests too deep or not at all. -/
theorem ofText?_json (d : Document) {blank : String} (spaces : blank.toList.all Json.isSpace = true) :
    Document.ofText? (d.json.text ++ blank) =
      if d.json.depth ≤ Json.maxDepth then some d else none := by
  have specs : (Json.array (Spec.jsonAll d.specs)).Textual := textual_specs d.specs
  have traits : (Json.array (Traits.jsonAll d.traits)).Textual := textual_traitsAll d.traits
  rw [← ofParts?_json d]
  exact ofText?_assembled specs traits (textual_strings d.names) (textual_optionalStrings d.metadata)
    spaces

theorem ofText?_sorted_json (d : Document) {blank : String}
    (spaces : blank.toList.all Json.isSpace = true) :
    Document.ofText? (d.json.sorted.text ++ blank) = Document.ofText? (d.json.text ++ blank) := by
  have specs : (Json.array (Spec.jsonAll d.specs)).Textual := textual_specs d.specs
  have traits : (Json.array (Traits.jsonAll d.traits)).Textual := textual_traitsAll d.traits
  exact ofText?_sorted specs traits (textual_strings d.names) (textual_optionalStrings d.metadata)
    spaces

end LogicalTable.Exchange
