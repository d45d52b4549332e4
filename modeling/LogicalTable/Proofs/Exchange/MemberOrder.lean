import LogicalTable.Exchange.Import
import LogicalTable.Proofs.Json.Sorted

/-! Documents are read alike in whatever order their objects have their members: every member is
looked up by its name, and what a name finds is the one member that has it. -/
namespace LogicalTable.Exchange

open LogicalTable (Json)
open LogicalTable.Json (sortedItems sortedMembers sortedItems_eq sortedMembers_perm)

/-- The value of the only member, if there is none or one. -/
def sole : List (String × Json) → Option (Option Json)
  | [] => some none
  | [(_, j)] => some (some j)
  | _ => none

/-- The value of the only member with a name that `p` allows. -/
def held (p : String → Bool) (ms : List (String × Json)) : Option (Option Json) :=
  sole (ms.filter (p ·.1))

theorem only?_eq (name : String) (ms : List (String × Json)) :
    only? name ms = (held (· = name) ms).bind id := by
  rw [only?, held]
  generalize ms.filter _ = ns
  rcases ns with _ | ⟨_, _ | _⟩ <;> rfl

theorem optionalMember?_eq (name : String) (ms : List (String × Json)) :
    optionalMember? name ms = (held (· = name) ms).map (·.getD .null) := by
  rw [optionalMember?, held]
  generalize ms.filter _ = ns
  rcases ns with _ | ⟨_, _ | _⟩ <;> rfl

theorem ownMember?_eq (ms : List (String × Json)) :
    ownMember? ms = (held (· = "traits") ms).bind fun j => j.elim (some .empty) traitMap? := by
  rw [ownMember?, held]
  generalize ms.filter _ = ns
  rcases ns with _ | ⟨_, _ | _⟩ <;> rfl

theorem sole_perm {ms ns : List (String × Json)} (h : ms.Perm ns) : sole ms = sole ns := by
  have hl := h.length_eq
  match ms, ns with
  | [], [] => rfl
  | [a], [b] => rw [List.singleton_perm_singleton.1 h]
  | _ :: _ :: _, _ :: _ :: _ => rfl
  | [], _ :: _ | _ :: _, [] | [_], _ :: _ :: _ | _ :: _ :: _, [_] => simp at hl

theorem held_sorted (p : String → Bool) (ms : List (String × Json)) :
    held p (sortedMembers ms) = (held p ms).map (Option.map Json.sorted) := by
  have filtered := (sortedMembers_perm ms).filter (p ·.1)
  rw [held, sole_perm filtered, List.filter_map, held]
  change sole ((ms.filter (p ·.1)).map _) = _
  generalize ms.filter _ = ns
  rcases ns with _ | ⟨_, _ | _⟩ <;> rfl

theorem mem_of_held {p : String → Bool} {ms : List (String × Json)} {j : Json}
    (h : held p ms = some (some j)) : ∃ m ∈ ms, m.2 = j := by
  rw [held] at h
  cases hn : ms.filter (p ·.1) with
  | nil => simp [hn, sole] at h
  | cons m ns =>
    have mem : m ∈ ms := by
      apply List.mem_of_mem_filter (p := (p ·.1))
      rw [hn]
      exact List.mem_cons_self
    refine ⟨m, mem, ?_⟩
    cases ns with
    | nil => simpa [hn, sole] using h
    | cons n ns => simp [hn, sole] at h

/-- A reader that looks at the first member with an allowed name, and fails if another follows. -/
theorem eq_held_bind {p : String → Bool} {g : Json → Option β}
    {f : List (String × Json) → Option β} (empty : f [] = none)
    (step : ∀ k j ms, f ((k, j) :: ms) =
      if p k then (if ms.any (p ·.1) then none else g j) else f ms) (ms : List (String × Json)) :
    f ms = ((held p ms).bind id).bind g := by
  induction ms with
  | nil =>
    rw [empty]
    rfl
  | cons m ms ih =>
    obtain ⟨k, j⟩ := m
    rw [step, held, List.filter_cons]
    by_cases hk : p k = true
    · rw [if_pos hk, if_pos hk]
      cases hf : ms.filter (p ·.1) with
      | nil =>
        have none_left : ¬ ms.any (p ·.1) = true := by
          intro hms
          obtain ⟨n, hn, hp⟩ := List.any_eq_true.1 hms
          exact List.filter_eq_nil_iff.1 hf n hn hp
        rw [if_neg none_left]
        rfl
      | cons n ns =>
        have more : ms.any (p ·.1) = true := by
          have mem : n ∈ ms.filter (p ·.1) := hf ▸ List.mem_cons_self
          obtain ⟨hn, hp⟩ := List.mem_filter.1 mem
          exact List.any_eq_true.2 ⟨n, hn, hp⟩
        rw [if_pos more]
        rfl
    · rw [if_neg hk, if_neg hk, ih, held]

/-- What a name finds among sorted members is read as before, if each member's value is. -/
theorem held_bind_sorted {p : String → Bool} {g : Json → Option β} {ms : List (String × Json)}
    (h : ∀ m ∈ ms, g m.2.sorted = g m.2) :
    ((held p (sortedMembers ms)).bind id).bind g = ((held p ms).bind id).bind g := by
  rw [held_sorted]
  cases hm : held p ms with
  | none => rfl
  | some found =>
    cases found with
    | none => rfl
    | some j =>
      obtain ⟨m, mem, rfl⟩ := mem_of_held hm
      exact h m mem

section Leaves

theorem kindOf?_sorted (kinds : List String) (byPosition : Bool) (j : Json) :
    kindOf? kinds byPosition j.sorted = kindOf? kinds byPosition j := by
  cases j <;> rfl

theorem tag_sorted (kinds : List String) (byPosition : Bool) (ms : List (String × Json)) :
    (only? "type" (sortedMembers ms)).bind (kindOf? kinds byPosition) =
      (only? "type" ms).bind (kindOf? kinds byPosition) := by
  rw [only?_eq, only?_eq]
  exact held_bind_sorted fun m _ => kindOf?_sorted kinds byPosition m.2

theorem optionalString?_sorted (j : Json) : optionalString? j.sorted = optionalString? j := by
  cases j <;> rfl

theorem string?_sorted (j : Json) : string? j.sorted = string? j := by
  cases j <;> rfl

theorem mapM_sortedItems {f : Json → Option β} (h : ∀ j : Json, f j.sorted = f j)
    (js : List Json) : (sortedItems js).mapM f = js.mapM f := by
  rw [sortedItems_eq]
  induction js with
  | nil => rfl
  | cons j js ih => rw [List.map_cons, List.mapM_cons, List.mapM_cons, h, ih]

theorem strings?_sorted (j : Json) : strings? j.sorted = strings? j := by
  cases j with
  | array js => exact mapM_sortedItems string?_sorted js
  | _ => rfl

theorem optionalStrings?_sorted (j : Json) : optionalStrings? j.sorted = optionalStrings? j := by
  cases j with
  | array js => exact mapM_sortedItems optionalString?_sorted js
  | _ => rfl

/-- A key width may be wrapped in an object of one member, which sorting leaves alone. -/
theorem dictKey?_sorted (j : Json) : dictKey? j.sorted = dictKey? j := by
  cases j with
  | object ms =>
    have count := (sortedMembers_perm ms).length_eq
    match ms with
    | [] => rfl
    | [(s, i)] =>
      cases i with
      | object ns =>
        cases ns with
        | nil => rfl
        | cons n ns =>
          have inner := (sortedMembers_perm (n :: ns)).length_eq
          match hn : sortedMembers (n :: ns) with
          | [] => simp [hn] at inner
          | m :: ms =>
            change dictKey? (.object [(s, .object (sortedMembers (n :: ns)))]) = none
            rw [hn]
            rfl
      | _ => rfl
    | a :: b :: ms =>
      match hs : sortedMembers (a :: b :: ms) with
      | [] | [_] => simp [hs] at count
      | _ :: _ :: _ => simp [Json.sorted, hs, dictKey?]
  | _ => rfl

theorem bind_getD_null {f : Json → Option β} (h : ∀ j : Json, f j.sorted = f j)
    (x : Option Json) : f ((x.map Json.sorted).getD .null) = f (x.getD .null) := by
  cases x with
  | none => rfl
  | some j => exact h j

theorem optionalMember?_sorted {f : Json → Option β} (h : ∀ j : Json, f j.sorted = f j)
    (name : String) (ms : List (String × Json)) :
    (optionalMember? name (sortedMembers ms)).bind f = (optionalMember? name ms).bind f := by
  rw [optionalMember?_eq, optionalMember?_eq, held_sorted]
  cases held (· = name) ms with
  | none => rfl
  | some found => exact bind_getD_null h found

theorem traitMap?_sorted (j : Json) : traitMap? j.sorted = traitMap? j := by
  cases j with
  | array js =>
    rw [Json.sorted, traitMap?, traitMap?, sortedItems_eq]
    simp only [List.length_map, List.getElem?_map, bind_getD_null optionalString?_sorted,
      bind_getD_null dictKey?_sorted]
  | object ms =>
    rw [Json.sorted, traitMap?, traitMap?]
    simp only [optionalMember?_sorted optionalString?_sorted, optionalMember?_sorted dictKey?_sorted]
  | _ => rfl

theorem ownMember?_sorted (ms : List (String × Json)) :
    ownMember? (sortedMembers ms) = ownMember? ms := by
  rw [ownMember?_eq, ownMember?_eq, held_sorted]
  cases held (· = "traits") ms with
  | none => rfl
  | some found =>
    cases found with
    | none => rfl
    | some j => exact traitMap?_sorted j

end Leaves

section Specs

theorem specMember?_eq (name : String) (ms : List (String × Json)) :
    specMember? name ms = ((held (· = name) ms).bind id).bind spec? := by
  refine eq_held_bind (by rw [specMember?]) ?_ ms
  intro k j ms
  rw [specMember?]
  simp

theorem specsMember?_eq (name : String) (ms : List (String × Json)) :
    specsMember? name ms = ((held (· = name) ms).bind id).bind specList? := by
  refine eq_held_bind (by rw [specsMember?]) ?_ ms
  intro k j ms
  cases j <;> simp [specsMember?, specList?]

theorem kindOf?_spec (tag : Json) : kindOf? ["list", "struct"] true tag = none ∨
    kindOf? ["list", "struct"] true tag = some "list" ∨
    kindOf? ["list", "struct"] true tag = some "struct" := by
  cases tag with
  | string s =>
    rw [kindOf?]
    by_cases h : ["list", "struct"].contains s = true
    · rw [if_pos h]
      simpa using h
    · rw [if_neg h]
      exact Or.inl rfl
  | natural n =>
    rcases n with _ | _ | n
    · exact Or.inr (Or.inl rfl)
    · exact Or.inr (Or.inr rfl)
    · exact Or.inl rfl
  | _ => exact Or.inl rfl

theorem spec?_array (tag : Json) (js : List Json) : spec? (.array (tag :: js)) =
    (kindOf? ["list", "struct"] true tag).bind fun kind =>
      match js with
      | [j] => if kind = "list" then (spec? j).map .list else (specList? j).map .struct
      | _ => none := by
  rcases kindOf?_spec tag with h | h | h
  · simp [spec?, h]
  · match js with
    | [] => simp [spec?, h]
    | [j] => simp [spec?, h]
    | _ :: _ :: _ => simp [spec?, h]
  · match js with
    | [] => simp [spec?, h]
    | [j] => cases j <;> simp [spec?, h, specList?]
    | _ :: _ :: _ => simp [spec?, h]

mutual

theorem spec?_sorted : ∀ j : Json, spec? j.sorted = spec? j
  | .null | .bool _ | .natural _ | .number _ | .string _ | .array [] => rfl
  | .array (tag :: js) => by
    rw [Json.sorted, sortedItems, spec?_array, spec?_array, kindOf?_sorted]
    match js with
    | [] => rfl
    | [j] => simp only [sortedItems, spec?_sorted j, specList?_sorted j]
    | _ :: _ :: _ => rfl
  | .object ms => by
    have each := specMembers_sorted ms
    rw [Json.sorted, spec?, spec?, tag_sorted, specMember?_eq, specsMember?_eq, specMember?_eq,
      specsMember?_eq, held_bind_sorted fun m hm => (each m hm).1,
      held_bind_sorted fun m hm => (each m hm).2]

theorem specList?_sorted : ∀ j : Json, specList? j.sorted = specList? j
  | .array js => specs?_sorted js
  | .null | .bool _ | .natural _ | .number _ | .string _ | .object _ => rfl

theorem specs?_sorted : ∀ js : List Json, specs? (sortedItems js) = specs? js
  | [] => rfl
  | j :: js => by rw [sortedItems, specs?, specs?, spec?_sorted j, specs?_sorted js]

theorem specMembers_sorted : ∀ ms : List (String × Json), ∀ m ∈ ms,
    spec? m.2.sorted = spec? m.2 ∧ specList? m.2.sorted = specList? m.2
  | [] => fun _ hm => (List.not_mem_nil hm).elim
  | (_, j) :: ms =>
    List.forall_mem_cons.2 ⟨⟨spec?_sorted j, specList?_sorted j⟩, specMembers_sorted ms⟩

end

end Specs

section Nodes

def memberTraits? : Json → Option (List Traits)
  | .array js => traitsAll? true js
  | _ => none

theorem traitsMember?_eq (ms : List (String × Json)) :
    traitsMember? ms = ((held (· = "inner") ms).bind id).bind (traits? true) := by
  refine eq_held_bind (by rw [traitsMember?]) ?_ ms
  intro k j ms
  rw [traitsMember?]
  simp

theorem membersMember?_eq (ms : List (String × Json)) :
    membersMember? ms = ((held isMembersName ms).bind id).bind memberTraits? := by
  refine eq_held_bind (by rw [membersMember?]) ?_ ms
  intro k j ms
  cases j <;> simp [membersMember?, memberTraits?]

theorem kindOf?_traitKinds (byPosition : Bool) (tag : Json) :
    kindOf? traitKinds byPosition tag = none ∨ kindOf? traitKinds byPosition tag = some "simple" ∨
    kindOf? traitKinds byPosition tag = some "list" ∨
    kindOf? traitKinds byPosition tag = some "struct" := by
  cases tag with
  | string s =>
    rw [kindOf?]
    by_cases h : traitKinds.contains s = true
    · rw [if_pos h]
      simpa [traitKinds] using h
    · rw [if_neg h]
      exact Or.inl rfl
  | natural n =>
    cases byPosition with
    | false => exact Or.inl rfl
    | true =>
      rcases n with _ | _ | _ | n
      · exact Or.inr (Or.inl rfl)
      · exact Or.inr (Or.inr (Or.inl rfl))
      · exact Or.inr (Or.inr (Or.inr rfl))
      · exact Or.inl rfl
  | _ => exact Or.inl rfl

theorem traits?_array (byPosition : Bool) (tag : Json) (js : List Json) :
    traits? byPosition (.array (tag :: js)) =
      (kindOf? traitKinds byPosition tag).bind fun kind =>
        match js with
        | [] => if kind = "simple" then some (.simple .empty) else none
        | [own] => if kind = "simple" then (traitMap? own).map .simple else none
        | [own, inner] => (traitMap? own).bind fun own =>
          if kind = "list" then (traits? true inner).map (.list own)
          else if kind = "struct" then (memberTraits? inner).map (.struct own)
          else none
        | _ => none := by
  rcases kindOf?_traitKinds byPosition tag with h | h | h | h
  · simp [traits?, h]
  · match js with
    | [] | [_] | [_, _] | _ :: _ :: _ :: _ => simp [traits?, h]
  · match js with
    | [] | [_] | _ :: _ :: _ :: _ => simp [traits?, h]
    | [own, inner] =>
      simp only [traits?, h, Option.bind_eq_bind, Option.bind_some, if_true]
      cases traitMap? own <;> cases traits? true inner <;> rfl
  · match js with
    | [] | [_] | _ :: _ :: _ :: _ => simp [traits?, h]
    | [own, inner] =>
      cases inner with
      | array js =>
        simp only [traits?, h, Option.bind_eq_bind, Option.bind_some, memberTraits?]
        cases traitMap? own <;> cases traitsAll? true js <;> rfl
      | _ => simp [traits?, h, memberTraits?]

mutual

theorem traits?_sorted : ∀ (byPosition : Bool) (j : Json),
    traits? byPosition j.sorted = traits? byPosition j
  | _, .null | _, .bool _ | _, .natural _ | _, .number _ | _, .string _ | _, .array [] => rfl
  | byPosition, .array (tag :: js) => by
    rw [Json.sorted, sortedItems, traits?_array, traits?_array, kindOf?_sorted]
    match js with
    | [] => rfl
    | [own] => simp only [sortedItems, traitMap?_sorted]
    | [own, inner] =>
      simp only [sortedItems, traitMap?_sorted, traits?_sorted true inner, memberTraits?_sorted inner]
    | _ :: _ :: _ :: _ => rfl
  | byPosition, .object ms => by
    have each := traitMembers_sorted ms
    rw [Json.sorted, traits?, traits?, tag_sorted, ownMember?_sorted, traitsMember?_eq,
      membersMember?_eq, traitsMember?_eq, membersMember?_eq,
      held_bind_sorted fun m hm => (each m hm).1, held_bind_sorted fun m hm => (each m hm).2]

theorem memberTraits?_sorted : ∀ j : Json, memberTraits? j.sorted = memberTraits? j
  | .array js => traitsAll?_sorted true js
  | .null | .bool _ | .natural _ | .number _ | .string _ | .object _ => rfl

theorem traitsAll?_sorted : ∀ (byPosition : Bool) (js : List Json),
    traitsAll? byPosition (sortedItems js) = traitsAll? byPosition js
  | _, [] => rfl
  | byPosition, j :: js => by
    rw [sortedItems, traitsAll?, traitsAll?, traits?_sorted byPosition j,
      traitsAll?_sorted byPosition js]

theorem traitMembers_sorted : ∀ ms : List (String × Json), ∀ m ∈ ms,
    traits? true m.2.sorted = traits? true m.2 ∧ memberTraits? m.2.sorted = memberTraits? m.2
  | [] => fun _ hm => (List.not_mem_nil hm).elim
  | (_, j) :: ms =>
    List.forall_mem_cons.2 ⟨⟨traits?_sorted true j, memberTraits?_sorted j⟩, traitMembers_sorted ms⟩

end

end Nodes

section Documents

theorem traitsList?_sorted (j : Json) : traitsList? j.sorted = traitsList? j := by
  cases j with
  | array js => exact traitsAll?_sorted false js
  | _ => rfl

theorem ofParts?_sorted (specs traits names metadata : Json) :
    ofParts? specs.sorted traits.sorted names.sorted metadata.sorted =
      ofParts? specs traits names metadata := by
  rw [ofParts?, ofParts?, specList?_sorted, traitsList?_sorted, strings?_sorted,
    optionalStrings?_sorted]

theorem recordValues?_sorted (names : List String) (j : Json) :
    recordValues? names j.sorted = (recordValues? names j).map (List.map Json.sorted) := by
  cases j with
  | array js =>
    rw [Json.sorted, recordValues?, recordValues?, sortedItems_eq, List.length_map]
    by_cases h : js.length = names.length
    · rw [if_pos h, if_pos h]
      rfl
    · rw [if_neg h, if_neg h]
      rfl
  | object ms =>
    rw [Json.sorted, recordValues?, recordValues?]
    induction names with
    | nil => rfl
    | cons name names ih =>
      have one : only? name (sortedMembers ms) = (only? name ms).map Json.sorted := by
        rw [only?_eq, only?_eq, held_sorted]
        rcases held (· = name) ms with _ | _ | _ <;> rfl
      rw [List.mapM_cons, List.mapM_cons, ih, one]
      cases only? name ms <;> cases names.mapM fun name => only? name ms <;> rfl
  | _ => rfl

/-- A document is read alike from a value and from the value with all its members sorted. -/
theorem ofJson?_sorted (j : Json) : Document.ofJson? j.sorted = Document.ofJson? j := by
  rw [Document.ofJson?, Document.ofJson?, recordValues?_sorted]
  rcases recordValues? ["schema", "columnNames", "columnMetaData"] j with
    _ | _ | ⟨schema, _ | ⟨names, _ | ⟨metadata, _ | _⟩⟩⟩
  case some.cons.cons.cons.nil =>
    simp only [Option.map_some, List.map_cons, List.map_nil, Option.bind_eq_bind, Option.bind_some,
      recordValues?_sorted]
    rcases recordValues? ["specs", "traits"] schema with _ | _ | ⟨specs, _ | ⟨traits, _ | _⟩⟩
    case some.cons.cons.nil => exact ofParts?_sorted specs traits names metadata
    all_goals rfl
  all_goals rfl

end Documents
end LogicalTable.Exchange
