import LogicalTable.LogicalColumn.Basic
import Mathlib.Algebra.GroupWithZero.Nat
import Mathlib.Algebra.Order.BigOperators.Group.List
import Mathlib.Algebra.Order.Group.Nat

/-! Where the rows of a column stand. The starts of the chunks ascend, and the last one that starts up to
an index holds its row. Searching the starts leads there, also where chunks are empty, and so does
counting rows off chunk by chunk. -/
namespace LogicalTable
namespace LogicalColumn

def sizes (c : LogicalColumn) : List Nat := c.chunks.map ColumnChunk.size

@[ext]
theorem ext {c d : LogicalColumn} (type : c.type = d.type) (chunks : c.chunks = d.chunks) : c = d := by
  obtain ⟨t, cs, _, rfl⟩ := c
  obtain ⟨u, ds, _, rfl⟩ := d
  cases type
  cases chunks
  rfl

@[simp]
theorem type_ofViews (t : LogicalType) (cs : List ColumnChunk) : (ofViews t cs).type = t := rfl

@[simp]
theorem chunks_ofViews (t : LogicalType) (cs : List ColumnChunk) : (ofViews t cs).chunks = cs := rfl

theorem ofViews_self (c : LogicalColumn) : ofViews c.type c.chunks = c := ext rfl rfl

theorem numberRows_eq (front : List Nat) (start : Nat) (cs : List ColumnChunk) :
    numberRows (front ++ [start]) cs = front ++ (cs.map ColumnChunk.size).scanl (· + ·) start := by
  induction cs generalizing front start with
  | nil => rfl
  | cons c cs ih =>
    have next : (front ++ [start]).getLastD 0 + c.size = start + c.size := by
      rw [List.getLastD_concat]
    rw [numberRows, List.foldl_cons, next]
    refine (ih (front ++ [start]) (start + c.size)).trans ?_
    rw [List.map_cons, List.scanl_cons, List.append_assoc, List.singleton_append]

theorem starts_eq (c : LogicalColumn) : c.starts = c.sizes.scanl (· + ·) 0 :=
  c.numbered.trans (numberRows_eq [] 0 c.chunks)

theorem size_eq_sum (c : LogicalColumn) : c.size = c.sizes.sum := by
  rw [size, starts_eq, List.getLastD_eq_getLast?, List.getLast?_scanl, List.sum_eq_foldl]
  rfl

/-- A row of the chunk at place `k` that stands at an index of the column. -/
structure StandsAt (c : LogicalColumn) (i k : Nat) (chunk : ColumnChunk) (row : Nat) : Prop where
  place : c.chunks[k]? = some chunk
  inside : row < chunk.size
  start : ∃ first, c.starts[k]? = some first ∧ first + row = i

variable {c : LogicalColumn} {i j k row : Nat} {chunk : ColumnChunk}

theorem getElem_starts (h : j < c.starts.length) : c.starts[j] = (c.sizes.take j).sum := by
  rw [List.sum_eq_foldl, List.getElem_of_eq c.starts_eq h]
  exact List.getElem_scanl _

theorem starts_ascend (c : LogicalColumn) : c.starts.Pairwise (· ≤ ·) := by
  refine List.pairwise_iff_getElem.2 fun j k hj hk before => ?_
  rw [getElem_starts hj, getElem_starts hk]
  exact List.monotone_sum_take c.sizes (Nat.le_of_lt before)

namespace StandsAt

theorem lt_length (h : c.StandsAt i k chunk row) : k < c.chunks.length :=
  (List.getElem?_eq_some_iff.1 h.place).1

theorem sum_take (h : c.StandsAt i k chunk row) : (c.sizes.take k).sum + row = i := by
  obtain ⟨first, start, rfl⟩ := h.start
  obtain ⟨here, rfl⟩ := List.getElem?_eq_some_iff.1 start
  rw [getElem_starts here]

theorem of_sum (place : c.chunks[k]? = some chunk) (inside : row < chunk.size)
    (sum : (c.sizes.take k).sum + row = i) : c.StandsAt i k chunk row := by
  have here : k < c.starts.length := by
    rw [length_starts]
    exact Nat.lt_succ_of_lt (List.getElem?_eq_some_iff.1 place).1
  refine ⟨place, inside, _, List.getElem?_eq_getElem here, ?_⟩
  rw [getElem_starts here]
  exact sum

/-- The chunks that start up to an index are those up to its own. -/
theorem start_le_iff (h : c.StandsAt i k chunk row) : (c.sizes.take j).sum ≤ i ↔ j ≤ k := by
  have ascend : Monotone fun n => (c.sizes.take n).sum := List.monotone_sum_take c.sizes
  have start := h.sum_take
  constructor
  · intro before
    by_contra behind
    have next : (c.sizes.take (k + 1)).sum = (c.sizes.take k).sum + chunk.size := by
      obtain ⟨here, rfl⟩ := List.getElem?_eq_some_iff.1 h.place
      rw [List.sum_take_succ c.sizes k (by rwa [sizes, List.length_map])]
      exact congrArg _ (List.getElem_map ..)
    -- Whatever starts behind this chunk starts behind all of its rows, empty chunks or not.
    have later : (c.sizes.take (k + 1)).sum ≤ (c.sizes.take j).sum :=
      ascend (Nat.lt_of_not_le behind)
    have inside := h.inside
    omega
  · intro upTo
    have earlier : (c.sizes.take j).sum ≤ (c.sizes.take k).sum := ascend upTo
    omega

theorem unique (h : c.StandsAt i k chunk row) {l : Nat} {other : ColumnChunk} {row' : Nat}
    (h' : c.StandsAt i l other row') : l = k ∧ other = chunk ∧ row' = row := by
  have start := h.sum_take
  have start' := h'.sum_take
  have same : l = k :=
    Nat.le_antisymm (h.start_le_iff.1 (by omega)) (h'.start_le_iff.1 (by omega))
  subst same
  exact ⟨rfl, Option.some.inj (h'.place.symm.trans h.place), by omega⟩

theorem partitionPoint_eq (h : c.StandsAt i k chunk row) : c.partitionPoint i = k + 1 := by
  have width : (c.starts.take c.chunks.length).length = c.chunks.length := by
    rw [List.length_take, length_starts, Nat.min_eq_left (Nat.le_succ _)]
  have behind : ∀ j (hj : j < (c.starts.take c.chunks.length).length),
      decide (i < (c.starts.take c.chunks.length)[j]) = decide (k < j) := by
    intro j hj
    rw [List.getElem_take, getElem_starts, decide_eq_decide, ← not_iff_not, Nat.not_lt, Nat.not_lt]
    exact h.start_le_iff
  -- Behind the last chunk there is no start to find, as the size of the column is left out.
  by_cases more : k + 1 < (c.starts.take c.chunks.length).length
  · refine (List.findIdx_eq more).2 ⟨?_, fun j hj => ?_⟩
    · rw [behind _ more]
      exact decide_eq_true (Nat.lt_succ_self k)
    · rw [behind j (Nat.lt_trans hj more)]
      exact decide_eq_false (Nat.not_lt.2 (Nat.le_of_lt_succ hj))
  · have whole : k + 1 = (c.starts.take c.chunks.length).length := by
      have := h.lt_length
      omega
    rw [whole]
    refine List.findIdx_eq_length.2 fun start hstart => ?_
    obtain ⟨j, hj, rfl⟩ := List.getElem_of_mem hstart
    rw [behind j hj]
    exact decide_eq_false (by omega)

theorem locate_eq (h : c.StandsAt i k chunk row) (inside : i < c.size) :
    c.locate i = .ok (chunk, row) := by
  obtain ⟨first, start, rfl⟩ := h.start
  have last : c.partitionPoint (first + row) - 1 = k := by
    rw [h.partitionPoint_eq, Nat.add_sub_cancel]
  rw [locate, dif_pos inside, Except.ok.injEq, Prod.mk.injEq]
  simp only [last]
  refine ⟨(List.getElem?_eq_some_iff.1 h.place).2, ?_⟩
  rw [(List.getElem?_eq_some_iff.1 start).2, Nat.add_sub_cancel_left]

end StandsAt

/-- Counts the rows off chunk by chunk. -/
def locateIn : List ColumnChunk → Nat → Option (ColumnChunk × Nat)
  | [], _ => none
  | c :: cs, index => if index < c.size then some (c, index) else locateIn cs (index - c.size)

section

variable {cs : List ColumnChunk}

theorem exists_locateIn (h : i < (cs.map ColumnChunk.size).sum) :
    ∃ place, locateIn cs i = some place := by
  induction cs generalizing i with
  | nil => exact (Nat.not_lt_zero i h).elim
  | cons c cs ih =>
    rw [locateIn]
    split
    · exact ⟨_, rfl⟩
    · next later =>
      rw [List.map_cons, List.sum_cons] at h
      exact ih (by omega)

theorem locateIn_beyond (h : (cs.map ColumnChunk.size).sum ≤ i) : locateIn cs i = none := by
  induction cs generalizing i with
  | nil => rfl
  | cons c cs ih =>
    rw [List.map_cons, List.sum_cons] at h
    rw [locateIn, if_neg (by omega)]
    exact ih (by omega)

theorem place_of_locateIn (h : locateIn cs i = some (chunk, row)) :
    ∃ k : Nat, cs[k]? = some chunk ∧ row < chunk.size ∧
      ((cs.map ColumnChunk.size).take k).sum + row = i := by
  induction cs generalizing i with
  | nil => cases h
  | cons c cs ih =>
    rw [locateIn] at h
    split at h
    · next here =>
      cases h
      exact ⟨0, rfl, here, Nat.zero_add _⟩
    · next later =>
      obtain ⟨k, place, inside, sum⟩ := ih h
      refine ⟨k + 1, place, inside, ?_⟩
      rw [List.map_cons, List.take_succ_cons, List.sum_cons]
      omega

end

/-- A search by starts leads to the chunk that counting rows off leads to. -/
theorem locate_eq_locateIn (c : LogicalColumn) (i : Nat) : c.locate i =
    match locateIn c.chunks i with
    | some place => .ok place
    | none => .error (.columnRange i c.size) := by
  have total := c.size_eq_sum
  by_cases inside : i < c.size
  · obtain ⟨⟨chunk, row⟩, found⟩ := exists_locateIn (total ▸ inside)
    obtain ⟨k, place, here, sum⟩ := place_of_locateIn found
    rw [found]
    exact (StandsAt.of_sum place here sum).locate_eq inside
  · rw [locate, dif_neg inside, locateIn_beyond (total ▸ Nat.not_lt.1 inside)]

end LogicalColumn
end LogicalTable
