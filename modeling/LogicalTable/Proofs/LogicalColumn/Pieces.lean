import LogicalTable.Error
import Mathlib.Data.List.Basic

/-! Lists cut into pieces of one size, the last of which may be smaller. -/
namespace LogicalTable

def cutEvery (n : Nat) (as : List α) : List (List α) :=
  (List.range ((as.length + n - 1) / n)).map fun i => (as.drop (i * n)).take n

theorem length_cutEvery (n : Nat) (as : List α) :
    (cutEvery n as).length = (as.length + n - 1) / n := by
  rw [cutEvery, List.length_map, List.length_range]

theorem cutEvery_short {as : List α} (there : as ≠ []) (short : as.length ≤ n) :
    cutEvery n as = [as] := by
  have one : (as.length + n - 1) / n = 1 := by
    have := List.length_pos_iff.2 there
    apply Nat.div_eq_of_lt_le <;> omega
  rw [cutEvery, one, List.range_one, List.map_singleton, Nat.zero_mul, List.drop_zero,
    List.take_of_length_le short]

section

variable {n : Nat} (pos : 0 < n)
include pos

theorem cutEvery_nil : cutEvery n ([] : List α) = [] := by
  have pieces : (([] : List α).length + n - 1) / n = 0 := by
    apply Nat.div_eq_of_lt
    rw [List.length_nil]
    omega
  rw [cutEvery, pieces]
  rfl

theorem cutEvery_append {front : List α} (full : front.length = n) (rest : List α) :
    cutEvery n (front ++ rest) = front :: cutEvery n rest := by
  have count : ((front ++ rest).length + n - 1) / n = (rest.length + n - 1) / n + 1 := by
    rw [List.length_append, full, ← Nat.add_div_right _ pos]
    congr 1
    omega
  have later : ∀ i, (front ++ rest).drop ((i + 1) * n) = rest.drop (i * n) := by
    intro i
    have place : (i + 1) * n = front.length + i * n := by
      rw [full, Nat.succ_mul, Nat.add_comm]
    rw [place, ← List.drop_drop, List.drop_left]
  rw [cutEvery, count, List.range_succ_eq_map, List.map_cons, List.map_map, Nat.zero_mul,
    List.drop_zero, List.take_left' full, cutEvery]
  refine congrArg (front :: ·) (List.map_congr_left fun i _ => ?_)
  rw [Function.comp_apply, Nat.succ_eq_add_one, later]

theorem flatten_cutEvery (as : List α) : (cutEvery n as).flatten = as := by
  by_cases empty : as = []
  · rw [empty, cutEvery_nil pos]
    rfl
  by_cases short : as.length ≤ n
  · rw [cutEvery_short empty short]
    exact List.append_nil as
  · have full : (as.take n).length = n := by
      rw [List.length_take]
      omega
    have fewer : (as.drop n).length < as.length := by
      rw [List.length_drop]
      omega
    have first := cutEvery_append pos full (as.drop n)
    rw [List.take_append_drop] at first
    rw [first, List.flatten_cons, flatten_cutEvery (as.drop n), List.take_append_drop]
termination_by as.length

/-- All pieces but the last are full. -/
theorem length_getElem_cutEvery {as : List α} {i : Nat} (h : i + 1 < (cutEvery n as).length) :
    (cutEvery n as)[i].length = n := by
  have rows : (i + 2) * n ≤ as.length + n - 1 := by
    rw [length_cutEvery] at h
    exact (Nat.le_div_iff_mul_le pos).1 h
  rw [Nat.add_mul] at rows
  simp only [cutEvery, List.getElem_map, List.getElem_range, List.length_take, List.length_drop]
  omega

end

end LogicalTable
