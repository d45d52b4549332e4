import LogicalTable.Columnar.Export
import Mathlib.Data.List.Forall2

/-! What the versions of factories tell about columns. All factories are at one version, so the text can
show how members nest and nothing else. That much it shows: a version is read with whatever stands behind
it, and as neither the mark of a member nor the comma between columns opens a bracket, it tells where it
ends. -/
namespace LogicalTable

/-- How the members of a type nest, whatever they hold. -/
inductive Skeleton where
  | leaf
  | node (members : List Skeleton)

mutual

/-- Lists have one member, whatever the width of their offsets, and structs have their own. Types of
all other kinds, those of fixed-size lists and of maps among them, are leaves. -/
def ArrayType.skeleton : ArrayType → Skeleton
  | .leaf _ => .leaf
  | .list f | .largeList f => .node [f.skeleton]
  | .struct fs => .node (Field.skeletons fs)

def Field.skeleton : Field → Skeleton
  | .mk _ t _ _ => t.skeleton

def Field.skeletons : List Field → List Skeleton
  | [] => []
  | f :: fs => f.skeleton :: Field.skeletons fs

end

theorem Field.skeleton_type (f : Field) : f.type.skeleton = f.skeleton := by
  cases f
  rfl

namespace Skeleton

mutual

def chars : Skeleton → List Char
  | leaf => ['0']
  | node ss => '0' :: '[' :: (memberChars ss ++ [']'])

def memberChars : List Skeleton → List Char
  | [] => []
  | s :: ss => s.chars ++ ';' :: memberChars ss

end

theorem exists_chars (s : Skeleton) : ∃ more, s.chars = '0' :: more := by
  cases s with
  | leaf => exact ⟨_, rfl⟩
  | node ss => exact ⟨_, rfl⟩

section Following

variable (rest : List Char)

theorem chars_node (ss : List Skeleton) :
    (node ss).chars ++ rest = '0' :: '[' :: (memberChars ss ++ ']' :: rest) := by
  simp [chars]

theorem memberChars_cons (s : Skeleton) (ss : List Skeleton) :
    memberChars (s :: ss) ++ rest = s.chars ++ ';' :: (memberChars ss ++ rest) := by
  simp [memberChars]

end Following

section Openings

variable {a b : List Char}

/-- A leaf reads like the start of a node only if what stands behind it opens members. -/
theorem head?_of_leaf_append {ts : List Skeleton} (h : leaf.chars ++ a = (node ts).chars ++ b) :
    a.head? = some '[' := by
  rw [chars_node] at h
  have opened : a = '[' :: (memberChars ts ++ ']' :: b) := (List.cons.inj h).2
  rw [opened]
  rfl

/-- A node that has members does not close where the first of them starts. -/
theorem memberChars_cons_ne (s : Skeleton) (ss : List Skeleton) :
    memberChars (s :: ss) ++ a ≠ ']' :: b := by
  obtain ⟨more, hs⟩ := s.exists_chars
  rw [memberChars_cons, hs]
  simp

end Openings

mutual

/-- A version tells the skeleton and where it ends, if what stands behind it opens no members. -/
theorem chars_append_inj : ∀ {s t : Skeleton} {a b : List Char},
    a.head? ≠ some '[' → b.head? ≠ some '[' → s.chars ++ a = t.chars ++ b → s = t ∧ a = b
  | leaf, leaf, a, b, _, _, h => ⟨rfl, (List.cons.inj h).2⟩
  | leaf, node ts, a, b, ha, _, h => (ha (head?_of_leaf_append h)).elim
  | node ss, leaf, a, b, _, hb, h => (hb (head?_of_leaf_append h.symm)).elim
  | node ss, node ts, a, b, _, _, h => by
    rw [chars_node, chars_node] at h
    have inside := (List.cons.inj (List.cons.inj h).2).2
    obtain ⟨rfl, behind⟩ := memberChars_append_inj inside
    exact ⟨rfl, behind⟩

/-- Members end at the bracket that closes their node. -/
theorem memberChars_append_inj : ∀ {ss ts : List Skeleton} {a b : List Char},
    memberChars ss ++ ']' :: a = memberChars ts ++ ']' :: b → ss = ts ∧ a = b
  | [], [], a, b, h => ⟨rfl, (List.cons.inj h).2⟩
  | [], t :: ts, a, b, h => (memberChars_cons_ne t ts h.symm).elim
  | s :: ss, [], a, b, h => (memberChars_cons_ne s ss h).elim
  | s :: ss, t :: ts, a, b, h => by
    rw [memberChars_cons, memberChars_cons] at h
    -- Behind either member stands its mark, which opens nothing.
    obtain ⟨rfl, later⟩ := chars_append_inj (by simp) (by simp) h
    obtain ⟨rfl, behind⟩ := memberChars_append_inj (List.cons.inj later).2
    exact ⟨rfl, behind⟩

end

def laterChars (ss : List Skeleton) : List Char := ss.flatMap fun s => ',' :: s.chars

theorem laterChars_cons (s : Skeleton) (ss : List Skeleton) :
    laterChars (s :: ss) = ',' :: (s.chars ++ laterChars ss) := by
  simp [laterChars]

theorem head?_laterChars (ss : List Skeleton) : (laterChars ss).head? ≠ some '[' := by
  cases ss <;> simp [laterChars]

theorem laterChars_inj {ss ts : List Skeleton} (h : laterChars ss = laterChars ts) : ss = ts := by
  induction ss generalizing ts with
  | nil =>
    cases ts with
    | nil => rfl
    | cons t ts => cases h
  | cons s ss ih =>
    cases ts with
    | nil => cases h
    | cons t ts =>
      rw [laterChars_cons, laterChars_cons] at h
      obtain ⟨rfl, later⟩ :=
        chars_append_inj (head?_laterChars ss) (head?_laterChars ts) (List.cons.inj h).2
      rw [ih later]

theorem intercalate_chars (s : Skeleton) (ss : List Skeleton) :
    [','].intercalate ((s :: ss).map chars) = s.chars ++ laterChars ss := by
  induction ss generalizing s with
  | nil => simp [laterChars]
  | cons t ts ih =>
    simp only [List.map_cons] at ih ⊢
    rw [List.intercalate_cons_cons, ih, laterChars_cons]
    simp

theorem intercalate_chars_ne_nil (s : Skeleton) (ss : List Skeleton) :
    [','].intercalate ((s :: ss).map chars) ≠ [] := by
  obtain ⟨more, hs⟩ := s.exists_chars
  rw [intercalate_chars, hs]
  exact List.cons_ne_nil _ _

/-- No version is empty, so the versions of no columns are not those of some. -/
theorem intercalate_chars_inj {ss ts : List Skeleton}
    (h : [','].intercalate (ss.map chars) = [','].intercalate (ts.map chars)) : ss = ts := by
  cases ss with
  | nil =>
    cases ts with
    | nil => rfl
    | cons t ts => exact absurd h.symm (intercalate_chars_ne_nil t ts)
  | cons s ss =>
    cases ts with
    | nil => exact absurd h (intercalate_chars_ne_nil s ss)
    | cons t ts =>
      rw [intercalate_chars, intercalate_chars] at h
      obtain ⟨rfl, later⟩ := chars_append_inj (head?_laterChars ss) (head?_laterChars ts) h
      rw [laterChars_inj later]

end Skeleton

mutual

theorem ArrayType.toList_version : ∀ t : ArrayType, t.version.toList = t.skeleton.chars
  | .leaf _ => by simp [ArrayType.version, ArrayType.skeleton, Skeleton.chars]
  | .list f | .largeList f => by
    simp [ArrayType.version, ArrayType.skeleton, Skeleton.chars, Skeleton.memberChars, f.toList_version]
  | .struct fs => by
    simp [ArrayType.version, ArrayType.skeleton, Skeleton.chars, Field.toList_memberVersions fs]

theorem Field.toList_version : ∀ f : Field, f.version.toList = f.skeleton.chars
  | .mk _ t _ _ => t.toList_version

theorem Field.toList_memberVersions : ∀ fs : List Field,
    (Field.memberVersions fs).toList = Skeleton.memberChars (Field.skeletons fs)
  | [] => by simp [Field.memberVersions, Field.skeletons, Skeleton.memberChars]
  | f :: fs => by
    simp [Field.memberVersions, Field.skeletons, Skeleton.memberChars, f.toList_version,
      Field.toList_memberVersions fs]

end

theorem toList_factoryVersions (fs : List Field) :
    (factoryVersions fs).toList = [','].intercalate ((fs.map Field.skeleton).map Skeleton.chars) := by
  have versions : (fs.map Field.version).map String.toList =
      (fs.map Field.skeleton).map Skeleton.chars := by
    simp [Field.toList_version]
  rw [factoryVersions, String.toList_intercalate, versions]
  rfl

/-- Columns have the same versions just if there are as many of them and they nest alike in turn. -/
theorem factoryVersions_eq_iff (fs gs : List Field) :
    factoryVersions fs = factoryVersions gs ↔
      List.Forall₂ (fun f g => f.type.skeleton = g.type.skeleton) fs gs := by
  have nested : List.Forall₂ (fun f g => f.type.skeleton = g.type.skeleton) fs gs ↔
      fs.map Field.skeleton = gs.map Field.skeleton := by
    simp only [Field.skeleton_type]
    rw [← List.forall₂_eq_eq_eq, List.forall₂_map_left_iff, List.forall₂_map_right_iff]
  rw [nested, ← String.toList_inj, toList_factoryVersions, toList_factoryVersions]
  constructor
  · exact Skeleton.intercalate_chars_inj
  · intro h
    rw [h]

/-- A list reads like a struct of one member, but a struct without members not like a leaf. -/
example :
    let item : Field := .plain "item" (.leaf .int64)
    let lists : List Field := [.plain "id" (.leaf .utf8), .plain "ns" (.largeList item)]
    let structs : List Field := [.plain "key" (.leaf .binary), .plain "pair" (.struct [item])]
    let empty : List Field := [.plain "id" (.leaf .utf8), .plain "ns" (.struct [])]
    factoryVersions lists = "0,0[0;]" ∧ factoryVersions structs = factoryVersions lists ∧
      factoryVersions empty = "0,0[]" := by decide

end LogicalTable
