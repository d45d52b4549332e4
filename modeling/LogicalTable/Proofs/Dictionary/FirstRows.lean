import LogicalTable.Dictionary.Basic
import LogicalTable.Proofs.Outcome

/-! Where the rows of a dictionary have their values. A chunk can be read just if every row that is
there has a key and the first row of each key holds the value. -/
namespace LogicalTable

/-- The key of a row; none where the row is missing. -/
def Cell.key? (c : Cell) : Option Int :=
  if c.isMissing then none
  else
    match c.member 0 with
    | .integer k => some k
    | _ => none

theorem Cell.key?_eq_some {c : Cell} {k : Int} :
    c.key? = some k ↔ c.isMissing = false ∧ c.member 0 = .integer k := by
  rw [key?]
  by_cases missing : c.isMissing = true
  · simp [missing]
  · rw [if_neg missing, Bool.eq_false_iff]
    constructor
    · intro h
      split at h
      · next l hl => exact ⟨missing, by rw [hl, Option.some.inj h]⟩
      · cases h
    · rintro ⟨_, hk⟩
      rw [hk]

theorem Cell.member_admitted {key value : Field} {c : Cell}
    (h : (ArrayType.struct [key, value]).admits c = true) : value.admits (c.member 1) = true := by
  cases c with
  | struct present cs =>
    rcases cs with _ | ⟨k, _ | ⟨v, rest⟩⟩
    · cases h
    · simp [ArrayType.admits, Field.admitAll] at h
    · obtain ⟨_, h⟩ := Bool.and_eq_true_iff.1 h
      exact (Bool.and_eq_true_iff.1 h).1
  | _ => cases h

/-- Failures to read a dictionary for what its rows lack. -/
def LayoutError.IsUseFault (e : LayoutError) : Prop :=
  (∃ row, e = .rowWithoutKey row) ∨ ∃ key row, e = .keyWithoutValue key row

def Error.IsUseFault (e : Error) : Prop := ∃ f : LayoutError, f.IsUseFault ∧ e = .layout f

namespace Dictionary

def firstRow (all : List Cell) (k : Int) : Nat := (all.map Cell.key?).idxOf (some k)

theorem firstRow_spec {cells : List Cell} {k : Int} (used : some k ∈ cells.map Cell.key?) :
    ∃ h : firstRow cells k < cells.length, cells[firstRow cells k].key? = some k := by
  have inside := List.idxOf_lt_length_of_mem used
  have here := List.getElem_idxOf inside
  rw [List.getElem_map] at here
  rw [List.length_map] at inside
  exact ⟨inside, here⟩

/-- Whether a row has a key if it is there, and holds the value if it is the first of its key. -/
def RowUsable (value : ArrayType) (all : List Cell) (row : Nat) (c : Cell) : Prop :=
  c.isMissing = true ∨
    ∃ k, c.member 0 = .integer k ∧ (firstRow all k = row → lacks value (c.member 1) = false)

/-- Whether rows are usable, the first of them standing at `row`. -/
def Usable (value : ArrayType) (all : List Cell) : (row : Nat) → List Cell → Prop
  | _, [] => True
  | row, c :: cs => RowUsable value all row c ∧ Usable value all (row + 1) cs

theorem usable_iff {value : ArrayType} {all cs : List Cell} {row : Nat} :
    Usable value all row cs ↔
      ∀ i (h : i < cs.length), RowUsable value all (row + i) cs[i] := by
  induction cs generalizing row with
  | nil => simp [Usable]
  | cons c cs ih =>
    rw [Usable, ih]
    constructor
    · rintro ⟨head, tail⟩ i hi
      cases i with
      | zero => exact head
      | succ i =>
        have := tail i (Nat.lt_of_succ_lt_succ hi)
        rwa [Nat.add_right_comm] at this
    · intro each
      refine ⟨each 0 (Nat.zero_lt_succ _), fun i hi => ?_⟩
      have := each (i + 1) (Nat.succ_lt_succ hi)
      rwa [← Nat.add_assoc, Nat.add_right_comm] at this

def positionOf (all : List Cell) (c : Cell) : Option Nat := c.key?.map (firstRow all)

/-- The first rows of the keys that occur in the rows `us`. -/
def Learned (all us : List Cell) (first : List (Int × Nat)) : Prop :=
  ∀ k, first.find? (·.1 = k) =
    if some k ∈ us.map Cell.key? then some (k, firstRow all k) else none

theorem Learned.same {all us : List Cell} {first : List (Int × Nat)} {c : Cell}
    (h : Learned all us first) (old : c.key? = none ∨ c.key? ∈ us.map Cell.key?) :
    Learned all (us ++ [c]) first := by
  intro k
  have same : some k ∈ (us ++ [c]).map Cell.key? ↔ some k ∈ us.map Cell.key? := by
    rw [List.map_append, List.mem_append, List.map_singleton, List.mem_singleton]
    constructor
    · rintro (hu | hc)
      · exact hu
      · rw [← hc] at old
        exact old.resolve_left nofun
    · exact Or.inl
  rw [h k]
  by_cases hk : some k ∈ us.map Cell.key?
  · rw [if_pos hk, if_pos (same.2 hk)]
  · rw [if_neg hk, if_neg fun h => hk (same.1 h)]

theorem firstRow_of_new {us cs : List Cell} {c : Cell} {k : Int} (hc : c.key? = some k)
    (new : some k ∉ us.map Cell.key?) : firstRow (us ++ c :: cs) k = us.length := by
  rw [firstRow, List.map_append, List.idxOf_append, if_neg new, List.map_cons, hc,
    List.idxOf_cons_self, Nat.zero_add, List.length_map]

theorem firstRow_lt_of_old {us cs : List Cell} {k : Int} (old : some k ∈ us.map Cell.key?) :
    firstRow (us ++ cs) k < us.length := by
  have h := List.idxOf_lt_length_of_mem old
  rw [List.length_map] at h
  rw [firstRow, List.map_append, List.idxOf_append, if_pos old]
  exact h

theorem Learned.new {us cs : List Cell} {first : List (Int × Nat)} {c : Cell} {k : Int}
    (h : Learned (us ++ c :: cs) us first) (hc : c.key? = some k)
    (new : some k ∉ us.map Cell.key?) :
    Learned (us ++ c :: cs) (us ++ [c]) ((k, us.length) :: first) := by
  intro l
  by_cases same : k = l
  · subst same
    have here : some k ∈ (us ++ [c]).map Cell.key? := by
      rw [List.map_append, List.map_singleton, hc]
      exact List.mem_append_right _ List.mem_cons_self
    rw [List.find?_cons_of_pos (by simp), if_pos here, firstRow_of_new hc new]
  · have other : some l ∈ (us ++ [c]).map Cell.key? ↔ some l ∈ us.map Cell.key? := by
      rw [List.map_append, List.mem_append, List.map_singleton, List.mem_singleton, hc]
      exact or_iff_left fun h => same (Option.some.inj h).symm
    rw [List.find?_cons_of_neg (by simp [same]), h l]
    by_cases hl : some l ∈ us.map Cell.key?
    · rw [if_pos hl, if_pos (other.2 hl)]
    · rw [if_neg hl, if_neg fun h => hl (other.1 h)]

theorem locate_settles (value : ArrayType) {all us cs : List Cell} (h : us ++ cs = all)
    {first : List (Int × Nat)} (learned : Learned all us first) :
    Settles LayoutError.IsUseFault (Usable value all us.length cs) (cs.map (positionOf all))
      (locate value us.length first cs) := by
  induction cs generalizing us first with
  | nil => exact Settles.ok _ _
  | cons c cs ih =>
    have rest : (us ++ [c]) ++ cs = all := by
      rw [List.append_assoc]
      exact h
    have next : (us ++ [c]).length = us.length + 1 := List.length_append
    rw [locate, Usable, List.map_cons]
    by_cases missing : c.isMissing = true
    · have keyless : c.key? = none := if_pos missing
      have tail := ih rest (learned.same (Or.inl keyless))
      rw [next] at tail
      rw [if_pos missing, positionOf, keyless]
      exact (tail.map (none :: ·)).given (Or.inl missing)
    · rw [if_neg missing]
      cases hm : c.member 0 with
      | integer k =>
        have key : c.key? = some k := by
          rw [Cell.key?, if_neg missing, hm]
        have position : positionOf all c = some (firstRow all k) := by
          rw [positionOf, key]
          rfl
        rw [position]
        dsimp only
        rw [learned k]
        by_cases old : some k ∈ us.map Cell.key?
        · have tail := ih rest (learned.same (Or.inr (key ▸ old)))
          have before : firstRow all k ≠ us.length := by
            rw [← h]
            exact Nat.ne_of_lt (firstRow_lt_of_old old)
          rw [next] at tail
          rw [if_pos old]
          exact (tail.map (some (firstRow all k) :: ·)).given
            (Or.inr ⟨k, hm, fun here => (before here).elim⟩)
        · subst h
          have here : firstRow (us ++ c :: cs) k = us.length := firstRow_of_new key old
          have tail := ih rest (learned.new key old)
          rw [next] at tail
          rw [if_neg old, here]
          dsimp only
          by_cases lack : lacks value (c.member 1) = true
          · rw [if_pos lack]
            have fault : LayoutError.IsUseFault (.keyWithoutValue k.toNat us.length) :=
              Or.inr ⟨_, _, rfl⟩
            apply Settles.error fault
            rintro ⟨hr | ⟨l, hl, stored⟩, _⟩
            · exact missing hr
            · cases hm.symm.trans hl
              rw [stored here] at lack
              cases lack
          · rw [if_neg lack]
            exact (tail.map (some us.length :: ·)).given
              (Or.inr ⟨k, hm, fun _ => Bool.eq_false_iff.2 lack⟩)
      | _ =>
        have fault : LayoutError.IsUseFault (.rowWithoutKey us.length) := Or.inl ⟨_, rfl⟩
        apply Settles.error fault
        rintro ⟨hr | ⟨l, hl, _⟩, _⟩
        · exact missing hr
        · cases hm.symm.trans hl

theorem locate_all_settles (value : ArrayType) (cells : List Cell) :
    Settles LayoutError.IsUseFault
      (∀ i (h : i < cells.length), RowUsable value cells i cells[i])
      (cells.map (positionOf cells)) (locate value 0 [] cells) := by
  have learned : Learned cells [] [] := fun _ => rfl
  have all := locate_settles value (List.nil_append cells) learned
  refine all.congr (usable_iff.trans ?_)
  simp

/-- A chunk in the layout of a dictionary is taken just if each of its rows is usable. -/
theorem ofChunk_settles {c : Chunk} {width : DictKey} {value : Field}
    (parts : c.type.dictionaryParts = .ok (width, value)) :
    Settles Error.IsUseFault
      (∀ i (h : i < c.cells.length), RowUsable value.type c.cells i c.cells[i])
      ⟨c, value.type, c.cells.map (positionOf c.cells)⟩ (ofChunk c) := by
  have located : Settles Error.IsUseFault _ _ (orFail .layout (locate value.type 0 [] c.cells)) :=
    (locate_all_settles value.type c.cells).orFail Error.layout fun f hf => ⟨f, hf, rfl⟩
  rw [ofChunk, parts]
  exact located.andThen fun _ => rfl

end Dictionary
end LogicalTable
