import LogicalTable.Json.Parser
import LogicalTable.Json.Printer
import Mathlib.Data.List.TakeWhile

/-! Compact text is read back whatever follows it, if it nests no deeper than the reader's limit, and
is refused if it does. Numbers are left out: what follows could extend them. -/
namespace LogicalTable.Json

open LogicalTable.Text

/-- Whatever follows, the reader takes just this text off the front, or refuses it. -/
def Reads (read : Reader α) (text : List Char) (a : Option α) : Prop :=
  ∀ rest, read (text ++ rest) = a.map fun a => (a, rest)

/-- The text starts neither with a blank nor with the end of an array or an object. -/
def Starts (text : List Char) : Prop :=
  ∃ c cs, text = c :: cs ∧ isSpace c = false ∧ c ≠ ']' ∧ c ≠ '\x7d'

theorem skipSpace_of_starts {text : List Char} (h : Starts text) (rest : List Char) :
    skipSpace (text ++ rest) = text ++ rest := by
  obtain ⟨c, cs, rfl, hc, _⟩ := h
  simp [skipSpace, hc]

theorem skipSpace_cons {c : Char} (h : isSpace c = false) (rest : List Char) :
    skipSpace (c :: rest) = c :: rest := by
  simp [skipSpace, h]

theorem whole_of_reads {read : Reader α} {text blank : List Char} {a : Option α}
    (h : Reads read text a) (start : Starts text) (spaces : blank.all isSpace = true) :
    whole read (text ++ blank) = a := by
  have skipped : skipSpace blank = [] := List.dropWhile_eq_nil_iff.2 (List.all_eq_true.1 spaces)
  rw [whole, skipSpace_of_starts start, h]
  cases a <;> simp [skipped]

theorem whole_of_reads_alone {read : Reader α} {text : List Char} {a : Option α}
    (h : Reads read text a) (start : Starts text) : whole read text = a := by
  have blank : ([] : List Char).all isSpace = true := rfl
  have read := whole_of_reads h start blank
  rwa [List.append_nil] at read

section Strings

theorem stringBody_step {paired : Bool} {st : StringState} {c : Char} (next : StringState)
    (read : List Char) (h : stringStep paired st c = some (next, read)) (inside : ¬ (st = .plain ∧ c = '"'))
    (cs : List Char) : stringBody paired st (c :: cs) =
      (stringBody paired next cs).map fun (more, rest) => (read ++ more, rest) := by
  rw [stringBody, if_neg inside, h]
  simp only [Option.bind_eq_bind, Option.bind_some]
  cases stringBody paired next cs <;> rfl

theorem hexValue?_hexDigit : ∀ d, d < 16 → hexValue? (hexDigit d) = some d := by
  decide

/-- A control character is read from the four digits of its code unit. -/
theorem stringBody_unit (paired : Bool) {c : Char} (h : c.toNat < 0x20) (rest : List Char) :
    stringBody paired .plain
      ('\\' :: 'u' :: '0' :: '0' :: hexDigit (c.toNat / 16) :: hexDigit (c.toNat % 16) :: rest) =
      (stringBody paired .plain rest).map fun (more, rest) => (c :: more, rest) := by
  have first := hexValue?_hexDigit (c.toNat / 16) (by omega)
  have second := hexValue?_hexDigit (c.toNat % 16) (by omega)
  have zero : hexValue? '0' = some 0 := by decide
  have unit : 16 * (c.toNat / 16) + c.toNat % 16 = c.toNat := Nat.div_add_mod c.toNat 16
  have high : isHighSurrogate c.toNat = false := by
    rw [isHighSurrogate, Bool.and_eq_false_iff, decide_eq_false_iff_not]
    left
    omega
  have low : isLowSurrogate c.toNat = false := by
    rw [isLowSurrogate, Bool.and_eq_false_iff, decide_eq_false_iff_not]
    left
    omega
  have last : stringStep paired (.unit 1 (c.toNat / 16) none) (hexDigit (c.toNat % 16)) =
      some (.plain, [c]) := by
    cases paired <;> simp [stringStep, second, unit, high, low]
  rw [stringBody_step .escape [] rfl (by simp),
    stringBody_step (.unit 4 0 none) [] rfl (by simp),
    stringBody_step (.unit 3 0 none) [] (by simp [stringStep, zero]) (by simp),
    stringBody_step (.unit 2 0 none) [] (by simp [stringStep, zero]) (by simp),
    stringBody_step (.unit 1 (c.toNat / 16) none) []
      (by simp [stringStep, first]) (by simp),
    stringBody_step .plain [c] last (by simp)]
  cases stringBody paired .plain rest <;> rfl

theorem stringBody_escape {paired : Bool} {c d : Char} (h : escapeOf? c = some d) (hu : c ≠ 'u')
    (rest : List Char) : stringBody paired .plain ('\\' :: c :: rest) =
      (stringBody paired .plain rest).map fun (more, rest) => (d :: more, rest) := by
  have step : stringStep paired .escape c = some (.plain, [d]) := by
    simp [stringStep, hu, h]
  rw [stringBody_step .escape [] rfl (by simp), stringBody_step .plain [d] step (by simp)]
  cases stringBody paired .plain rest <;> rfl

theorem stringBody_escapedChar (paired : Bool) (c : Char) (rest : List Char) :
    stringBody paired .plain (escapedChar c ++ rest) =
      (stringBody paired .plain rest).map fun (more, rest) => (c :: more, rest) := by
  rw [escapedChar]
  by_cases mark : (c = '"' || c = '\\') = true
  · rw [if_pos mark]
    have own : escapeOf? c = some c := by simp_all [escapeOf?]
    refine stringBody_escape own ?_ rest
    rintro rfl
    exact absurd mark (by decide)
  rw [if_neg mark]
  by_cases hb : c = '\x08'
  · rw [if_pos hb, hb]
    exact stringBody_escape rfl (by decide) rest
  rw [if_neg hb]
  by_cases ht : c = '\t'
  · rw [if_pos ht, ht]
    exact stringBody_escape rfl (by decide) rest
  rw [if_neg ht]
  by_cases hn : c = '\n'
  · rw [if_pos hn, hn]
    exact stringBody_escape rfl (by decide) rest
  rw [if_neg hn]
  by_cases hf : c = '\x0c'
  · rw [if_pos hf, hf]
    exact stringBody_escape rfl (by decide) rest
  rw [if_neg hf]
  by_cases hr : c = '\r'
  · rw [if_pos hr, hr]
    exact stringBody_escape rfl (by decide) rest
  rw [if_neg hr]
  by_cases control : c.toNat < 0x20
  · rw [if_pos control]
    exact stringBody_unit paired control rest
  · rw [if_neg control]
    obtain ⟨quote, slash⟩ : c ≠ '"' ∧ c ≠ '\\' := by simpa using mark
    have step : stringStep paired .plain c = some (.plain, [c]) := by
      rw [stringStep, if_neg slash, if_neg control]
    exact stringBody_step .plain [c] step (fun h => quote h.2) rest

theorem stringBody_escaped (paired : Bool) (cs rest : List Char) :
    stringBody paired .plain (cs.flatMap escapedChar ++ '"' :: rest) = some (cs, rest) := by
  induction cs with
  | nil =>
    rw [List.flatMap_nil, List.nil_append, stringBody, if_pos ⟨rfl, rfl⟩]
  | cons c cs ih =>
    rw [List.flatMap_cons, List.append_assoc, stringBody_escapedChar, ih]
    rfl

theorem reads_string (paired : Bool) (s : String) :
    Reads (stringReader paired) (stringText s) (some s) := by
  intro rest
  have body := stringBody_escaped paired s.toList rest
  rw [stringText, List.append_assoc]
  simp only [List.cons_append, List.nil_append, stringReader, body, Option.map_some,
    String.ofList_toList]

end Strings

section Lists

/-- Texts apart by commas and up to a closing character, behind one that came before. -/
def following (text : β → List Char) (close : Char) : List β → List Char
  | [] => [close]
  | b :: bs => ',' :: text b ++ following text close bs

def listed (text : β → List Char) (close : Char) : List β → List Char
  | [] => [close]
  | b :: bs => text b ++ following text close bs

theorem length_le_following (text : β → List Char) (close : Char) (bs : List β) :
    bs.length ≤ (following text close bs).length := by
  induction bs with
  | nil => exact Nat.zero_le _
  | cons b bs ih =>
    simp only [following, List.cons_append, List.length_cons, List.length_append]
    omega

variable {item : Reader α} {text : β → List Char} {value : β → Option α} {close : Char}

/-- Induction on the items: each is read, then the comma or the end decides. -/
theorem reads_commaSeparated (blank : isSpace close = false) (comma : close ≠ ',') :
    ∀ (bs : List β) (b : β) (fuel : Nat), bs.length < fuel →
      (∀ c ∈ b :: bs, Reads item (text c) (value c) ∧ Starts (text c)) →
      Reads (commaSeparated item close fuel) (text b ++ following text close bs)
        ((b :: bs).mapM value) := by
  intro bs
  induction bs with
  | nil =>
    rintro b (_ | fuel) hf hb rest
    · omega
    obtain ⟨hr, hs⟩ := hb b List.mem_cons_self
    rw [commaSeparated, List.append_assoc, skipSpace_of_starts hs, hr, List.mapM_cons]
    cases value b with
    | none => rfl
    | some a =>
      simp [following, skipSpace_cons blank, comma]
  | cons c cs ih =>
    rintro b (_ | fuel) hf hb rest
    · omega
    obtain ⟨hr, hs⟩ := hb b List.mem_cons_self
    have tail := ih c fuel (by simpa using hf) (fun d hd => hb d (List.mem_cons_of_mem b hd)) rest
    have point : isSpace ',' = false := by decide
    rw [commaSeparated, List.append_assoc, skipSpace_of_starts hs, hr, List.mapM_cons]
    cases value b with
    | none => rfl
    | some a =>
      simp only [following, List.cons_append, skipSpace_cons point, Option.map_some,
        Option.bind_eq_bind, Option.bind_some, if_true, tail]
      cases (c :: cs).mapM value <;> rfl

theorem reads_items (blank : isSpace close = false) (comma : close ≠ ',') (bs : List β)
    (hb : ∀ b ∈ bs, Reads item (text b) (value b) ∧ Starts (text b) ∧
      ∀ cs, text b ≠ close :: cs) :
    Reads (items item close) (listed text close bs) (bs.mapM value) := by
  cases bs with
  | nil =>
    intro rest
    simp [items, listed, skipSpace_cons blank]
  | cons b bs =>
    obtain ⟨_, start, other⟩ := hb b List.mem_cons_self
    have all : ∀ c ∈ b :: bs, Reads item (text c) (value c) ∧ Starts (text c) := by
      intro c hc
      exact ⟨(hb c hc).1, (hb c hc).2.1⟩
    intro rest
    have skipped := skipSpace_of_starts start (following text close bs ++ rest)
    obtain ⟨c, cs, hc, _⟩ := start
    have open' : c ≠ close := by
      rintro rfl
      exact other cs hc
    have fuel : bs.length < (cs ++ (following text close bs ++ rest)).length + 1 := by
      have := length_le_following text close bs
      simp only [List.length_append]
      omega
    have read := reads_commaSeparated blank comma bs b _ fuel all rest
    rw [items, listed, List.append_assoc, skipped]
    rw [List.append_assoc, hc, List.cons_append] at read
    rw [hc, List.cons_append]
    dsimp only
    rw [if_neg open', read]

end Lists

mutual

/-- Whether the value holds no number. -/
def Textual : Json → Prop
  | natural _ | number _ => False
  | array items => AllTextual items
  | object members => MembersTextual members
  | _ => True

def AllTextual : List Json → Prop
  | [] => True
  | j :: js => j.Textual ∧ AllTextual js

def MembersTextual : List (String × Json) → Prop
  | [] => True
  | (_, j) :: ms => j.Textual ∧ MembersTextual ms

end

def memberText (m : String × Json) : List Char := stringText m.1 ++ ':' :: m.2.chars

theorem moreItemsText_eq (js : List Json) : moreItemsText js = following chars ']' js := by
  induction js with
  | nil => rfl
  | cons j js ih => rw [moreItemsText, following, ih]

theorem moreMembersText_eq (ms : List (String × Json)) :
    moreMembersText ms = following memberText '\x7d' ms := by
  induction ms with
  | nil => rfl
  | cons m ms ih =>
    rw [moreMembersText, following, ih, memberText]
    simp

theorem chars_array (js : List Json) : (array js).chars = '[' :: listed chars ']' js := by
  cases js with
  | nil => rfl
  | cons j js => rw [chars, itemsText, listed, moreItemsText_eq]

theorem chars_object (ms : List (String × Json)) :
    (object ms).chars = '\x7b' :: listed memberText '\x7d' ms := by
  cases ms with
  | nil => rfl
  | cons m ms =>
    rw [chars, membersText, listed, moreMembersText_eq, memberText]

theorem starts_member (m : String × Json) : Starts (memberText m) :=
  ⟨'"', _, rfl, by decide, by decide, by decide⟩

theorem starts_chars {j : Json} (h : j.Textual) : Starts j.chars := by
  cases j with
  | null => exact ⟨'n', _, rfl, by decide, by decide, by decide⟩
  | bool b =>
    cases b with
    | true => exact ⟨'t', _, rfl, by decide, by decide, by decide⟩
    | false => exact ⟨'f', _, rfl, by decide, by decide, by decide⟩
  | natural n => exact h.elim
  | number literal => exact h.elim
  | string s => exact ⟨'"', _, rfl, by decide, by decide, by decide⟩
  | array js => exact ⟨'[', _, rfl, by decide, by decide, by decide⟩
  | object ms => exact ⟨'\x7b', _, rfl, by decide, by decide, by decide⟩

/-- The value, if it nests at most so deep. -/
def within (depth : Nat) (j : Json) : Option Json := if j.depth ≤ depth then some j else none

theorem mapM_within (depth : Nat) (js : List Json) :
    js.mapM (within depth) = if itemsDepth js ≤ depth then some js else none := by
  induction js with
  | nil => rfl
  | cons j js ih =>
    rw [List.mapM_cons, ih, within, itemsDepth]
    simp only [Nat.max_le]
    by_cases hj : j.depth ≤ depth
    · by_cases hjs : itemsDepth js ≤ depth
      · simp [hj, hjs]
      · simp [hj, hjs]
    · simp [hj]

theorem mapM_within_members (depth : Nat) (ms : List (String × Json)) :
    ms.mapM (fun m => (within depth m.2).map fun j => (m.1, j)) =
      if membersDepth ms ≤ depth then some ms else none := by
  induction ms with
  | nil => rfl
  | cons m ms ih =>
    obtain ⟨k, j⟩ := m
    rw [List.mapM_cons, ih, within, membersDepth]
    simp only [Nat.max_le]
    by_cases hj : j.depth ≤ depth
    · by_cases hms : membersDepth ms ≤ depth
      · simp [hj, hms]
      · simp [hj, hms]
    · simp [hj]

theorem reads_memberName (strict : Bool) (name : String) {text : List Char} (start : Starts text)
    (rest : List Char) :
    memberName strict (stringText name ++ ':' :: text ++ rest) = some (name, text ++ rest) := by
  have colon : isSpace ':' = false := by decide
  have read := reads_string strict name (':' :: (text ++ rest))
  rw [memberName, List.append_assoc, List.cons_append, read]
  simp [skipSpace_cons colon, skipSpace_of_starts start]

theorem value_eq_scalar {strict : Bool} {c : Char} (array : c ≠ '[') (object : c ≠ '\x7b')
    (depth : Nat) (cs : List Char) : value strict depth (c :: cs) = scalar strict (c :: cs) := by
  cases depth with
  | zero => rfl
  | succ depth =>
    rw [value]
    · rintro rest ⟨⟩
      exact array rfl
    · rintro rest ⟨⟩
      exact object rfl

/-- Scalars do not nest. -/
theorem reads_scalar {strict : Bool} {j : Json} {c : Char} {cs : List Char} (text : j.chars = c :: cs)
    (array : c ≠ '[') (object : c ≠ '\x7b') (flat : j.depth = 0)
    (h : Reads (scalar strict) j.chars (some j)) (depth : Nat) :
    Reads (value strict depth) j.chars (within depth j) := by
  intro rest
  have read := h rest
  rw [text, List.cons_append] at read ⊢
  rw [value_eq_scalar array object, read, within, flat, if_pos (Nat.zero_le depth)]

mutual

theorem reads_value (strict : Bool) : ∀ (j : Json), j.Textual → ∀ depth,
    Reads (value strict depth) j.chars (within depth j)
  | .null, _, depth => by
    refine reads_scalar rfl (by decide) (by decide) rfl (fun rest => ?_) depth
    simp [chars, scalar, word]
  | .bool true, _, depth => by
    refine reads_scalar rfl (by decide) (by decide) rfl (fun rest => ?_) depth
    simp [chars, scalar, word]
  | .bool false, _, depth => by
    refine reads_scalar rfl (by decide) (by decide) rfl (fun rest => ?_) depth
    simp [chars, scalar, word]
  | .string s, _, depth => by
    refine reads_scalar rfl (by decide) (by decide) rfl (fun rest => ?_) depth
    have read := reads_string strict s rest
    rw [stringText, List.cons_append, List.cons_append] at read
    simp only [chars, stringText, List.cons_append, scalar, Char.reduceEq, if_false, if_true, read,
      Option.map_some]
  | .array js, h, 0 => by
    intro rest
    rfl
  | .array js, h, depth + 1 => by
    have blank : isSpace ']' = false := by decide
    have each := reads_all strict js h depth
    have read := reads_items blank (by decide) js each
    intro rest
    rw [chars_array, List.cons_append, value, read, mapM_within, within, Json.depth]
    by_cases hd : itemsDepth js ≤ depth
    · simp [hd]
    · simp [hd]
  | .object ms, h, 0 => by
    intro rest
    rfl
  | .object ms, h, depth + 1 => by
    have blank : isSpace '\x7d' = false := by decide
    have each := reads_members strict ms h depth
    have read := reads_items blank (by decide) ms each
    intro rest
    rw [chars_object, List.cons_append, value, read, mapM_within_members, within, Json.depth]
    by_cases hd : membersDepth ms ≤ depth
    · simp [hd]
    · simp [hd]

theorem reads_all (strict : Bool) : ∀ (js : List Json), AllTextual js → ∀ depth, ∀ j ∈ js,
    Reads (value strict depth) j.chars (within depth j) ∧ Starts j.chars ∧
      ∀ cs, j.chars ≠ ']' :: cs
  | [], _, _ => fun _ hm => (List.not_mem_nil hm).elim
  | j :: js, h, depth => by
    refine List.forall_mem_cons.2 ⟨?_, reads_all strict js h.2 depth⟩
    refine ⟨reads_value strict j h.1 depth, starts_chars h.1, fun cs hc => ?_⟩
    obtain ⟨c, rest, text, _, close, _⟩ := starts_chars h.1
    rw [text] at hc
    exact close (List.cons.inj hc).1

theorem reads_members (strict : Bool) : ∀ (ms : List (String × Json)), MembersTextual ms → ∀ depth,
    ∀ m ∈ ms, Reads (member strict (value strict depth)) (memberText m)
      ((within depth m.2).map fun j => (m.1, j)) ∧ Starts (memberText m) ∧
        ∀ cs, memberText m ≠ '\x7d' :: cs
  | [], _, _ => fun _ hm => (List.not_mem_nil hm).elim
  | (k, j) :: ms, h, depth => by
    refine List.forall_mem_cons.2 ⟨?_, reads_members strict ms h.2 depth⟩
    refine ⟨fun rest => ?_, starts_member _, fun cs hc => ?_⟩
    · have read := reads_value strict j h.1 depth rest
      rw [member, memberText, reads_memberName strict k (starts_chars h.1)]
      simp only [Option.bind_eq_bind, Option.bind_some, read]
      cases within depth j <;> rfl
    · exact absurd (List.cons.inj hc).1 (by decide)

end

/-- A record whose members are all known to it, in whichever order they stand. -/
theorem reads_record {fields : List FieldReader} {ms : List (String × Json)}
    {read : String × Json → Option Json}
    (h : ∀ m ∈ ms, ∃ field, fields.find? (·.name = m.1) = some field ∧
      Reads field.read m.2.chars (read m) ∧ Starts m.2.chars) :
    Reads (record fields) (object ms).chars
      ((ms.mapM fun m => (read m).map fun j => some (m.1, j)).bind fun vs =>
        fieldValues fields (vs.filterMap id)) := by
  have blank : isSpace '\x7d' = false := by decide
  have each : ∀ m ∈ ms, Reads (fieldMember fields) (memberText m)
      ((read m).map fun j => some (m.1, j)) ∧ Starts (memberText m) ∧
        ∀ cs, memberText m ≠ '\x7d' :: cs := by
    intro m hm
    obtain ⟨field, hf, hr, start⟩ := h m hm
    refine ⟨fun rest => ?_, starts_member m, fun cs hc => ?_⟩
    · rw [fieldMember, memberText, reads_memberName true m.1 start]
      simp only [Option.bind_eq_bind, Option.bind_some, hf, hr rest]
      cases read m <;> rfl
    · exact absurd (List.cons.inj hc).1 (by decide)
  intro rest
  rw [chars_object, List.cons_append, record, reads_items blank (by decide) ms each]
  cases ms.mapM fun m => (read m).map fun j => some (m.1, j) with
  | none => rfl
  | some vs =>
    simp only [Option.bind_eq_bind, Option.map_some, Option.bind_some]
    cases fieldValues fields (vs.filterMap id) <;> rfl

end LogicalTable.Json
