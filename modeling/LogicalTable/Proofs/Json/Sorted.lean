import LogicalTable.Proofs.Json.Printed
import Mathlib.Data.List.Perm.Basic

/-! Sorting the members of all objects changes neither how deep a value nests nor what it holds. -/
namespace LogicalTable.Json

theorem insertMember_perm (m : String × Json) (ms : List (String × Json)) :
    (insertMember m ms).Perm (m :: ms) := by
  induction ms with
  | nil => exact List.Perm.refl _
  | cons n ns ih =>
    rw [insertMember]
    by_cases h : m.1 < n.1
    · rw [if_pos h]
    · rw [if_neg h]
      exact (ih.cons n).trans (List.Perm.swap m n ns)

theorem sortedItems_eq (js : List Json) : sortedItems js = js.map sorted := by
  induction js with
  | nil => rfl
  | cons j js ih => rw [sortedItems, List.map_cons, ih]

theorem sortedMembers_perm (ms : List (String × Json)) :
    (sortedMembers ms).Perm (ms.map fun m => (m.1, m.2.sorted)) := by
  induction ms with
  | nil => exact List.Perm.refl _
  | cons m ms ih =>
    rw [sortedMembers, List.map_cons]
    exact (insertMember_perm _ _).trans (ih.cons _)

theorem membersDepth_insertMember (m : String × Json) (ms : List (String × Json)) :
    membersDepth (insertMember m ms) = max m.2.depth (membersDepth ms) := by
  induction ms with
  | nil => rfl
  | cons n ns ih =>
    rw [insertMember]
    by_cases h : m.1 < n.1
    · rw [if_pos h, membersDepth]
    · rw [if_neg h, membersDepth, ih, membersDepth]
      exact Nat.max_left_comm _ _ _

theorem membersTextual_insertMember (m : String × Json) (ms : List (String × Json)) :
    MembersTextual (insertMember m ms) ↔ m.2.Textual ∧ MembersTextual ms := by
  induction ms with
  | nil => exact Iff.rfl
  | cons n ns ih =>
    rw [insertMember]
    by_cases h : m.1 < n.1
    · rw [if_pos h, MembersTextual]
    · rw [if_neg h, MembersTextual, ih, MembersTextual]
      exact and_left_comm

mutual

theorem depth_sorted : ∀ j : Json, j.sorted.depth = j.depth
  | .null | .bool _ | .natural _ | .number _ | .string _ => rfl
  | .array js => by rw [sorted, depth, depth, itemsDepth_sorted js]
  | .object ms => by rw [sorted, depth, depth, membersDepth_sorted ms]

theorem itemsDepth_sorted : ∀ js : List Json, itemsDepth (sortedItems js) = itemsDepth js
  | [] => rfl
  | j :: js => by rw [sortedItems, itemsDepth, itemsDepth, depth_sorted j, itemsDepth_sorted js]

theorem membersDepth_sorted : ∀ ms : List (String × Json),
    membersDepth (sortedMembers ms) = membersDepth ms
  | [] => rfl
  | (_, j) :: ms => by
    rw [sortedMembers, membersDepth_insertMember, membersDepth, depth_sorted j,
      membersDepth_sorted ms]

end

mutual

theorem Textual.sorted : ∀ {j : Json}, j.Textual → j.sorted.Textual
  | .null, h | .bool _, h | .string _, h => h
  | .array _, h => AllTextual.sorted h
  | .object _, h => MembersTextual.sorted h

theorem AllTextual.sorted : ∀ {js : List Json}, AllTextual js → AllTextual (sortedItems js)
  | [], h => h
  | _ :: _, h => ⟨Textual.sorted h.1, AllTextual.sorted h.2⟩

theorem MembersTextual.sorted : ∀ {ms : List (String × Json)}, MembersTextual ms →
    MembersTextual (sortedMembers ms)
  | [], h => h
  | _ :: _, h =>
    (membersTextual_insertMember _ _).2 ⟨Textual.sorted h.1, MembersTextual.sorted h.2⟩

end

end LogicalTable.Json
