import LogicalTable.Proofs.DataType.Logical
import Mathlib.Data.List.Basic

/-! Types and their texts. Structs and logical types share the separator and the closing bracket, so a
text is read with whatever stands behind it: it tells the type, up to converters, and where it ends, as
long as no identifier holds the comma that should end it. -/
namespace LogicalTable

/-- An identifier without the comma that ends it in a text. -/
def NoComma (id : String) (_ : Shape) : Prop := ',' ∉ id.toList

/-- No identifier of a logical type, at any depth, holds a comma. -/
def DataType.CommaFree (t : DataType) : Prop := t.EveryLogical NoComma

theorem DataType.text_logical (id : String) (s : Shape) (c : Option Converter) :
    (logical id s c).text = "extension<logical=" ++ id ++ ", storage=" ++ s.text ++ ">" := rfl

mutual

theorem Shape.text_bare : ∀ s : Shape, s.bare.text = s.text
  | .primitive _ => rfl
  | .list t => by simp only [Shape.bare, Shape.text, t.text_bare]
  | .struct ts => by simp only [Shape.bare, Shape.text, ts.text_bare]

theorem DataType.text_bare : ∀ t : DataType, t.bare.text = t.text
  | .plain s => s.text_bare
  | .logical _ s _ => by rw [DataType.bare, DataType.text_logical, DataType.text_logical, s.text_bare]

theorem Members.text_bare : ∀ ts : Members, ts.bare.text = ts.text
  | .one t => by simp only [Members.bare, Members.text, t.text_bare]
  | .cons t ts => by simp only [Members.bare, Members.text, t.text_bare, ts.text_bare]

end

/-- What stands before the first of two equal marks is the same, and so is what stands behind it. -/
theorem append_cons_inj_of_fronts [DecidableEq α] {c : α} {xs ys as bs : List α} (hx : c ∉ xs)
    (hy : c ∉ ys) (h : xs ++ c :: as = ys ++ c :: bs) : xs = ys ∧ as = bs := by
  -- `List.append_cons_inj_of_notMem` asks that no mark is left behind the first, where there may be some.
  have place := congrArg (List.idxOf c) h
  rw [List.idxOf_append_of_notMem hx, List.idxOf_append_of_notMem hy, List.idxOf_cons_self,
    List.idxOf_cons_self] at place
  obtain ⟨front, back⟩ := List.append_inj h (by simpa using place)
  exact ⟨front, (List.cons.inj back).2⟩

section Openings

variable {a b : List Char}

theorem Primitive.name_append_inj {p q : Primitive}
    (h : p.name.toList ++ a = q.name.toList ++ b) : p = q ∧ a = b := by
  cases p <;> cases q <;> simp_all [Primitive.name]

theorem Primitive.name_append_ne_list (p : Primitive) :
    p.name.toList ++ a ≠ "list<".toList ++ b := by
  cases p <;> simp [Primitive.name]

theorem Primitive.name_append_ne_struct (p : Primitive) :
    p.name.toList ++ a ≠ "struct<".toList ++ b := by
  cases p <;> simp [Primitive.name]

/-- Texts of shapes start with another letter than those of logical types. -/
theorem Shape.text_append_ne_extension (s : Shape) :
    s.text.toList ++ a ≠ "extension<logical=".toList ++ b := by
  cases s with
  | primitive p => cases p <;> simp [Shape.text, Primitive.name]
  | list t => simp [Shape.text]
  | struct ts => simp [Shape.text]

end Openings

section Characters

variable (rest : List Char)

theorem Shape.chars_list (t : DataType) :
    (Shape.list t).text.toList ++ rest = "list<".toList ++ (t.text.toList ++ '>' :: rest) := by
  simp [Shape.text]

theorem Shape.chars_struct (ts : Members) :
    (Shape.struct ts).text.toList ++ rest = "struct<".toList ++ (ts.text.toList ++ '>' :: rest) := by
  simp [Shape.text]

theorem DataType.chars_logical (id : String) (s : Shape) (c : Option Converter) :
    (DataType.logical id s c).text.toList ++ rest =
      "extension<logical=".toList ++
        (id.toList ++ ',' :: (" storage=".toList ++ (s.text.toList ++ '>' :: rest))) := by
  simp [DataType.text_logical]

theorem Members.chars_cons (t : DataType) (ts : Members) :
    (Members.cons t ts).text.toList ++ rest =
      t.text.toList ++ ',' :: ' ' :: (ts.text.toList ++ rest) := by
  simp [Members.text]

end Characters

mutual

/-- A text tells the shape, up to converters, and where it ends. -/
theorem Shape.text_append_inj : ∀ {s t : Shape} {a b : List Char},
    s.EveryLogical NoComma → t.EveryLogical NoComma →
    s.text.toList ++ a = t.text.toList ++ b → s.bare = t.bare ∧ a = b
  | .primitive p, t, a, b, _, _, h => by
    cases t with
    | primitive q =>
      obtain ⟨rfl, rfl⟩ := Primitive.name_append_inj h
      exact ⟨rfl, rfl⟩
    | list u =>
      rw [Shape.chars_list] at h
      exact (p.name_append_ne_list h).elim
    | struct us =>
      rw [Shape.chars_struct] at h
      exact (p.name_append_ne_struct h).elim
  | .list t, u, a, b, ht, hu, h => by
    rw [Shape.chars_list] at h
    cases u with
    | primitive q => exact (q.name_append_ne_list h.symm).elim
    | list u =>
      rw [Shape.chars_list] at h
      obtain ⟨same, rest⟩ := DataType.text_append_inj ht hu (List.append_cancel_left h)
      rw [Shape.bare, Shape.bare, same]
      exact ⟨rfl, (List.cons.inj rest).2⟩
    | struct us =>
      rw [Shape.chars_struct] at h
      simp at h
  | .struct ts, u, a, b, hts, hu, h => by
    rw [Shape.chars_struct] at h
    cases u with
    | primitive q => exact (q.name_append_ne_struct h.symm).elim
    | list u =>
      rw [Shape.chars_list] at h
      simp at h
    | struct us =>
      rw [Shape.chars_struct] at h
      obtain ⟨same, rest⟩ := Members.text_append_inj hts hu (List.append_cancel_left h)
      rw [Shape.bare, Shape.bare, same]
      exact ⟨rfl, rest⟩

theorem DataType.text_append_inj : ∀ {t u : DataType} {a b : List Char},
    t.EveryLogical NoComma → u.EveryLogical NoComma →
    t.text.toList ++ a = u.text.toList ++ b → t.bare = u.bare ∧ a = b
  | .plain s, u, a, b, hs, hu, h => by
    cases u with
    | plain v =>
      obtain ⟨same, rest⟩ := Shape.text_append_inj hs hu h
      rw [DataType.bare, DataType.bare, same]
      exact ⟨rfl, rest⟩
    | logical j v d =>
      rw [DataType.chars_logical] at h
      exact (s.text_append_ne_extension h).elim
  | .logical i s c, u, a, b, ht, hu, h => by
    rw [DataType.chars_logical] at h
    cases u with
    | plain v => exact (v.text_append_ne_extension h.symm).elim
    | logical j v d =>
      rw [DataType.chars_logical] at h
      -- Both identifiers end at the first comma.
      obtain ⟨id, storage⟩ := append_cons_inj_of_fronts ht.1 hu.1 (List.append_cancel_left h)
      obtain ⟨same, rest⟩ := Shape.text_append_inj ht.2 hu.2 (List.append_cancel_left storage)
      rw [DataType.bare, DataType.bare, same, String.toList_inj.1 id]
      exact ⟨rfl, (List.cons.inj rest).2⟩

/-- Members end at the bracket that closes their struct. -/
theorem Members.text_append_inj : ∀ {ts us : Members} {a b : List Char},
    ts.EveryLogical NoComma → us.EveryLogical NoComma →
    ts.text.toList ++ '>' :: a = us.text.toList ++ '>' :: b → ts.bare = us.bare ∧ a = b
  | .one t, us, a, b, ht, hus, h => by
    cases us with
    | one u =>
      obtain ⟨same, rest⟩ := DataType.text_append_inj ht hus h
      rw [Members.bare, Members.bare, same]
      exact ⟨rfl, (List.cons.inj rest).2⟩
    | cons u us =>
      rw [Members.chars_cons] at h
      obtain ⟨_, rest⟩ := DataType.text_append_inj ht hus.1 h
      exact absurd (List.cons.inj rest).1 (by decide)
  | .cons t ts, us, a, b, hts, hus, h => by
    rw [Members.chars_cons] at h
    cases us with
    | one u =>
      obtain ⟨_, rest⟩ := DataType.text_append_inj hts.1 hus h
      exact absurd (List.cons.inj rest).1 (by decide)
    | cons u us =>
      rw [Members.chars_cons] at h
      obtain ⟨head, rest⟩ := DataType.text_append_inj hts.1 hus.1 h
      obtain ⟨_, rest⟩ := List.cons.inj rest
      obtain ⟨tail, rest⟩ := Members.text_append_inj hts.2 hus.2 (List.cons.inj rest).2
      rw [Members.bare, Members.bare, head, tail]
      exact ⟨rfl, rest⟩

end

/-- Texts tell types apart just as equality does. -/
theorem DataType.text_eq_iff {t u : DataType} (ht : t.CommaFree) (hu : u.CommaFree) :
    t.text = u.text ↔ (t == u) = true := by
  rw [DataType.beq_iff]
  constructor
  · intro h
    exact (DataType.text_append_inj (a := []) (b := []) ht hu (by rw [h])).1
  · intro h
    rw [← t.text_bare, h, u.text_bare]

/-- The same text with an identifier that takes a separator and brackets for its own. -/
example : let a : DataType := .logical "a" .int32 none
    let b : DataType := .logical "b" .int32 none
    let both : DataType := .logical "a, storage=int32>, extension<logical=b" .int32 none
    (DataType.plain (.struct (.cons a (.one b)))).text = (DataType.plain (.struct (.one both))).text := rfl

/-- A list of structs, whose first member is a logical type over lists. -/
def DataType.marked (id : String) : DataType :=
  .list (.plain (.struct (.cons (.logical id (.list (.ofPrimitive .int32)) none)
    (.one (.ofPrimitive .string)))))

/-- Brackets in an identifier do no harm. -/
theorem DataType.text_eq_iff_marked :
    (marked "a>").CommaFree ∧ (marked "<a").CommaFree ∧
    ((marked "a>").text = (marked "<a").text ↔ (marked "a>" == marked "<a") = true) ∧
    (marked "a>" == marked "<a") = false := by
  have free : ∀ id, ',' ∉ id.toList → (marked id).CommaFree := by
    intro id h
    exact ⟨⟨h, trivial⟩, trivial⟩
  have left := free "a>" (by decide)
  have right := free "<a" (by decide)
  exact ⟨left, right, text_eq_iff left right, by decide⟩

end LogicalTable
