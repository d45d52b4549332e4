import LogicalTable.Json.Parser
import Mathlib.Tactic.SplitIfs

/-! A value that is read under a limit nests no deeper than it, however the text was written. -/
namespace LogicalTable.Json

/-- Whatever the reader takes off the front of a text is good. -/
def Gives (read : Reader α) (good : α → Prop) : Prop :=
  ∀ cs a rest, read cs = some (a, rest) → good a

theorem Gives.map {read : Reader α} {good : α → Prop} {better : β → Prop} {f : α → β}
    (h : Gives read good) (hf : ∀ a, good a → better (f a)) :
    Gives (fun cs => (read cs).map fun (a, rest) => (f a, rest)) better := by
  intro cs b rest hr
  obtain ⟨⟨a, rest⟩, ha, hb⟩ := Option.map_eq_some_iff.1 hr
  cases hb
  exact hf a (h cs a rest ha)

theorem Gives.whole {read : Reader α} {good : α → Prop} (h : Gives read good) {cs : List Char}
    {a : α} (hr : whole read cs = some a) : good a := by
  obtain ⟨⟨b, rest⟩, hb, hr⟩ := Option.bind_eq_some_iff.1 hr
  dsimp only at hr
  split at hr
  · cases hr
    exact h _ a rest hb
  · cases hr

section Lists

variable {item : Reader α} {good : α → Prop} {close : Char}

/-- Induction on the fuel, that is on the items that are still to come. -/
theorem Gives.commaSeparated (h : Gives item good) (fuel : Nat) :
    Gives (commaSeparated item close fuel) fun as => ∀ a ∈ as, good a := by
  induction fuel with
  | zero => rintro cs as rest ⟨⟩
  | succ fuel ih =>
    intro cs as rest hr
    rw [Json.commaSeparated] at hr
    obtain ⟨⟨a, after⟩, ha, hr⟩ := Option.bind_eq_some_iff.1 hr
    have first := h _ a after ha
    cases hs : skipSpace after with
    | nil => simp [hs] at hr
    | cons c tail =>
      simp only [hs] at hr
      by_cases comma : c = ','
      · rw [if_pos comma] at hr
        obtain ⟨⟨more, left⟩, hm, hr⟩ := Option.bind_eq_some_iff.1 hr
        cases hr
        exact List.forall_mem_cons.2 ⟨first, ih _ more _ hm⟩
      · rw [if_neg comma] at hr
        by_cases stop : c = close
        · rw [if_pos stop] at hr
          cases hr
          simpa using first
        · rw [if_neg stop] at hr
          cases hr

theorem Gives.items (h : Gives item good) :
    Gives (items item close) fun as => ∀ a ∈ as, good a := by
  intro cs as rest hr
  rw [Json.items] at hr
  cases hs : skipSpace cs with
  | nil => simp [hs] at hr
  | cons c tail =>
    simp only [hs] at hr
    by_cases stop : c = close
    · rw [if_pos stop] at hr
      cases hr
      simp
    · rw [if_neg stop] at hr
      exact h.commaSeparated _ _ _ _ hr

end Lists

section Values

theorem word_gives (w : List Char) (j : Json) (flat : j.depth = 0) :
    Gives (word w j) fun j => j.depth = 0 := by
  intro cs a rest hr
  rw [word] at hr
  split at hr
  · cases hr
    exact flat
  · cases hr

theorem numberReader_gives (range : Bool) : Gives (numberReader range) fun j => j.depth = 0 := by
  intro cs a rest hr
  simp only [numberReader, Option.bind_eq_bind, Option.bind_eq_some_iff] at hr
  obtain ⟨_, _, _, _, _, _, hr⟩ := hr
  split_ifs at hr
  · cases hr
    rfl
  · cases hr
    rfl

theorem scalar_gives (strict : Bool) : Gives (scalar strict) fun j => j.depth = 0 := by
  intro cs a rest hr
  cases cs with
  | nil => cases hr
  | cons c cs =>
    rw [scalar] at hr
    split at hr
    · exact word_gives _ _ rfl cs a rest hr
    split at hr
    · exact word_gives _ _ rfl cs a rest hr
    split at hr
    · exact word_gives _ _ rfl cs a rest hr
    split at hr
    · obtain ⟨⟨s, _⟩, _, hb⟩ := Option.map_eq_some_iff.1 hr
      cases hb
      rfl
    split at hr
    · exact numberReader_gives strict (c :: cs) a rest hr
    · cases hr

theorem itemsDepth_le {n : Nat} {js : List Json} : itemsDepth js ≤ n ↔ ∀ j ∈ js, j.depth ≤ n := by
  induction js with
  | nil => simp [itemsDepth]
  | cons j js ih => rw [itemsDepth, Nat.max_le, ih, List.forall_mem_cons]

theorem membersDepth_le {n : Nat} {ms : List (String × Json)} :
    membersDepth ms ≤ n ↔ ∀ m ∈ ms, m.2.depth ≤ n := by
  induction ms with
  | nil => simp [membersDepth]
  | cons m ms ih => rw [membersDepth, Nat.max_le, ih, List.forall_mem_cons]

theorem member_gives {strict : Bool} {read : Reader Json} {good : Json → Prop} (h : Gives read good) :
    Gives (member strict read) fun m => good m.2 := by
  intro cs m rest hr
  obtain ⟨⟨name, after⟩, _, hr⟩ := Option.bind_eq_some_iff.1 hr
  obtain ⟨⟨j, after⟩, hj, hr⟩ := Option.bind_eq_some_iff.1 hr
  cases hr
  exact h _ j _ hj

theorem value_gives (strict : Bool) (depth : Nat) :
    Gives (value strict depth) fun j => j.depth ≤ depth := by
  induction depth with
  | zero =>
    intro cs j rest hr
    exact Nat.le_of_eq (scalar_gives strict cs j rest hr)
  | succ depth ih =>
    have arrays : Gives (fun cs => (items (value strict depth) ']' cs).map
        fun p => (array p.1, p.2)) fun j => j.depth ≤ depth + 1 :=
      ih.items.map fun js hjs => Nat.succ_le_succ (itemsDepth_le.2 hjs)
    have objects : Gives (fun cs => (items (member strict (value strict depth)) '\x7d' cs).map
        fun p => (object p.1, p.2)) fun j => j.depth ≤ depth + 1 :=
      (member_gives ih).items.map fun ms hms => Nat.succ_le_succ (membersDepth_le.2 hms)
    intro cs j rest hr
    rw [value.eq_def] at hr
    dsimp only at hr
    split at hr
    · exact arrays _ j rest hr
    · exact objects _ j rest hr
    · rw [scalar_gives strict cs j rest hr]
      exact Nat.zero_le _

end Values

section Records

variable {good : Json → Prop}

theorem positionalFields_gives : ∀ {fields : List FieldReader},
    (∀ field ∈ fields, Gives field.read good) →
    Gives (positionalFields fields) fun js => ∀ j ∈ js, good j
  | [], _ => by rintro cs js rest ⟨⟩
  | [field], h => by
    intro cs js rest hr
    obtain ⟨⟨j, after⟩, hj, hr⟩ := Option.bind_eq_some_iff.1 hr
    have first := h field List.mem_cons_self _ j after hj
    dsimp only at hr
    split at hr
    · cases hr
      simpa using first
    · cases hr
  | field :: next :: fields, h => by
    obtain ⟨hf, hfs⟩ := List.forall_mem_cons.1 h
    intro cs js rest hr
    obtain ⟨⟨j, after⟩, hj, hr⟩ := Option.bind_eq_some_iff.1 hr
    dsimp only at hr
    split at hr
    · obtain ⟨⟨more, left⟩, hm, hr⟩ := Option.bind_eq_some_iff.1 hr
      cases hr
      exact List.forall_mem_cons.2 ⟨hf _ j _ hj, positionalFields_gives hfs _ more _ hm⟩
    · cases hr

theorem mem_of_fieldValues {fields : List FieldReader} {ms : List (String × Json)} {js : List Json}
    (h : fieldValues fields ms = some js) : ∀ j ∈ js, ∃ m ∈ ms, m.2 = j := by
  induction fields generalizing js with
  | nil =>
    cases h
    simp
  | cons field fields ih =>
    rw [fieldValues, List.mapM_cons] at h
    obtain ⟨j, hj, h⟩ := Option.bind_eq_some_iff.1 h
    obtain ⟨more, hm, h⟩ := Option.bind_eq_some_iff.1 h
    cases h
    refine List.forall_mem_cons.2 ⟨?_, ih hm⟩
    split at hj
    · rename_i name found only
      cases hj
      have mem : (name, j) ∈ ms.filter (·.1 = field.name) := only ▸ List.mem_singleton_self _
      exact ⟨_, (List.mem_filter.1 mem).1, rfl⟩
    · cases hj

/-- The values of a record, whether by name or by position, come from the readers of its fields. -/
theorem record_gives {fields : List FieldReader} (h : ∀ field ∈ fields, Gives field.read good) :
    Gives (record fields) fun js => ∀ j ∈ js, good j := by
  have known : Gives (fieldMember fields) fun m => ∀ n, m = some n → good n.2 := by
    intro cs m rest hr
    obtain ⟨⟨name, after⟩, _, hr⟩ := Option.bind_eq_some_iff.1 hr
    dsimp only at hr
    split at hr
    · rename_i field found
      obtain ⟨⟨j, _⟩, hj, hm⟩ := Option.map_eq_some_iff.1 hr
      cases hm
      rintro n ⟨⟩
      exact h field (List.mem_of_find?_eq_some found) _ j _ hj
    · obtain ⟨_, _, hm⟩ := Option.map_eq_some_iff.1 hr
      cases hm
      rintro n ⟨⟩
  intro cs js rest hr
  rw [record.eq_def] at hr
  split at hr
  · exact positionalFields_gives h _ js rest hr
  · obtain ⟨⟨ms, after⟩, hms, hr⟩ := Option.bind_eq_some_iff.1 hr
    obtain ⟨vs, hvs, hr⟩ := Option.bind_eq_some_iff.1 hr
    have members := known.items _ ms after hms
    cases hr
    intro j hj
    obtain ⟨m, hm, rfl⟩ := mem_of_fieldValues hvs j hj
    obtain ⟨_, mem, rfl⟩ := List.mem_filterMap.1 hm
    exact members _ mem m rfl
  · cases hr

end Records

end LogicalTable.Json
