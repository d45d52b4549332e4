import LogicalTable.Proofs.Geometry.Accepted

/-! Well-known binary delimits itself. Reading a part of an encoding takes the same steps as reading all of
it, up to the cut, where the data are found to be truncated; a count that asks for more than the part holds
only finds it out before. What stands behind an encoding is left over. -/
namespace LogicalTable.Wkb

theorem split?_eq_none {n : Nat} {bs : List UInt8} (h : bs.length < n) : split? n bs = none := by
  cases found : split? n bs with
  | none => rfl
  | some parts =>
    obtain ⟨cut, rfl⟩ := split?_eq_some.1 found
    rw [List.length_append] at h
    omega

/-- Whether a reader, given an encoding that is cut off somewhere, finds no more than that. -/
def CutShort (size : Nat) (read : Reader α) (whole : List UInt8) : Prop :=
  ∀ front back, back ≠ [] → whole = front ++ back →
    ∃ position ≤ size, read front = .error (.truncated position)

namespace CutShort

variable {size : Nat} {read : Reader α} {whole head tail : List UInt8}

/-- What is done with the value does not matter. -/
theorem andThen (h : CutShort size read whole)
    (k : α × List UInt8 → Except WkbError (γ × List UInt8)) :
    CutShort size (fun bs => read bs >>= k) whole := by
  intro front back more split
  obtain ⟨position, inside, failed⟩ := h front back more split
  refine ⟨position, inside, ?_⟩
  dsimp only
  rw [failed, error_bind]

/-- A cut is in the first part, or it is in the second one, behind all of the first. -/
theorem cut_cases {front back : List UInt8} (split : head ++ tail = front ++ back) :
    (∃ rest, rest ≠ [] ∧ head = front ++ rest) ∨ ∃ rest, front = head ++ rest ∧ tail = rest ++ back := by
  rcases List.append_eq_append_iff.1 split with ⟨rest, hf, ht⟩ | ⟨rest, hh, hb⟩
  · exact Or.inr ⟨rest, hf, ht⟩
  · by_cases atEnd : rest = []
    · subst atEnd
      rw [List.append_nil] at hh
      exact Or.inr ⟨[], by rw [hh, List.append_nil], hb.symm⟩
    · exact Or.inl ⟨rest, atEnd, hh⟩

theorem bind {k : α × List UInt8 → Except WkbError (γ × List UInt8)} {a : α}
    (h : CutShort size read head) (reads : ∀ rest, read (head ++ rest) = .ok (a, rest))
    (ht : CutShort size (fun rest => k (a, rest)) tail) :
    CutShort size (fun bs => read bs >>= k) (head ++ tail) := by
  intro front back behind split
  rcases cut_cases split with ⟨rest, more, inFirst⟩ | ⟨rest, rfl, inSecond⟩
  · exact h.andThen k front rest more inFirst
  · obtain ⟨position, inside, failed⟩ := ht rest back behind inSecond
    refine ⟨position, inside, ?_⟩
    dsimp only
    rw [reads, ok_bind]
    exact failed

theorem nil : CutShort size read [] := by
  intro front back more split
  exact (more (List.append_eq_nil_iff.1 split.symm).2).elim

end CutShort

section Parts

variable (size : Nat) (e : Endian)

theorem cutShort_take {n : Nat} {whole : List UInt8} (h : whole.length = n) :
    CutShort size (take size n) whole := by
  rintro front back more rfl
  have short : front.length < n := by
    have := List.length_pos_iff.2 more
    rw [List.length_append] at h
    omega
  refine ⟨size - front.length, Nat.sub_le _ _, ?_⟩
  rw [take, split?_eq_none short]

theorem cutShort_word (n : Nat) : CutShort size (word size e) (e.bytes 4 n) :=
  (cutShort_take size (e.length_bytes 4 n)).andThen _

theorem cutShort_double (n : Nat) : CutShort size (double size e) (e.bytes 8 n) :=
  (cutShort_take size (e.length_bytes 8 n)).andThen _

theorem cutShort_coord (c : Coord) : CutShort size (coord size e) (e.coord c) := by
  apply (cutShort_double size e _).bind
  · exact (accepts_double size e).ok (b := c.x) trivial
  · exact (cutShort_double size e _).andThen _

theorem cutShort_header (code : Nat) : CutShort size (header? size) (e.header code) := by
  have mark : CutShort size (take size 1) [e.mark] := cutShort_take size rfl
  change CutShort size (header? size) ([e.mark] ++ e.bytes 4 code)
  apply mark.bind
  · intro rest
    exact (take_eq_ok size).2 ⟨rfl, rfl⟩
  · cases e with
    | little => exact (cutShort_word size .little code).andThen _
    | big => exact (cutShort_word size .big code).andThen _

end Parts

section Items

variable (size : Nat) {item : Reader α} {p : β → Prop} {value : β → α} {bytes : β → List UInt8}

theorem cutShort_replicated (h : Accepts item p value bytes)
    (short : ∀ b, p b → CutShort size item (bytes b)) {parts : List β} (hp : ∀ b ∈ parts, p b) :
    CutShort size (replicated item parts.length) (parts.flatMap bytes) := by
  induction parts with
  | nil => exact CutShort.nil
  | cons b parts ih =>
    obtain ⟨hb, hp⟩ := List.forall_mem_cons.1 hp
    rw [List.flatMap_cons]
    apply (short b hb).bind
    · exact h.ok hb
    · exact (ih hp).andThen _

/-- Where the count is cut off, it is truncated. Where items are, the count may find that they do not fit
what is left, and else the items are read up to the cut. -/
theorem cutShort_counted (h : Accepts item p value bytes)
    (short : ∀ b, p b → CutShort size item (bytes b)) (e : Endian) (itemSize : Nat) {parts : List β}
    (fits : CountFits parts) (hp : ∀ b ∈ parts, p b) :
    CutShort size (fun bs => do let (n, rest) ← count size e itemSize bs; replicated item n rest)
      (e.counted bytes parts) := by
  intro front back more split
  rcases CutShort.cut_cases split with ⟨rest, cut, inCount⟩ | ⟨rest, rfl, inItems⟩
  · have counting : CutShort size (count size e itemSize) (e.bytes 4 parts.length) :=
      (cutShort_word size e _).andThen _
    exact counting.andThen _ front rest cut inCount
  · have number := (accepts_word size e).ok (b := parts.length) fits rest
    by_cases room : parts.length * itemSize ≤ rest.length
    · obtain ⟨position, inside, failed⟩ := cutShort_replicated size h short hp rest back more inItems
      have counted := (count_eq_ok size e itemSize).2 ⟨fits, room, rfl⟩
      refine ⟨position, inside, ?_⟩
      dsimp only
      rw [counted, ok_bind]
      exact failed
    · refine ⟨size, Nat.le_refl size, ?_⟩
      dsimp only
      rw [count, number, ok_bind]
      dsimp only [id]
      rw [if_pos (Nat.lt_of_not_le room)]
      rfl

end Items

section Bodies

variable (size : Nat) (e : Endian)

theorem cutShort_coords {cs : List Coord} (fits : CountFits cs) :
    CutShort size (coords size e) (e.coords cs) :=
  cutShort_counted size (accepts_coord size e) (fun c _ => cutShort_coord size e c) e coordSize fits
    fun _ _ => trivial

theorem cutShort_polygon {rs : List (List Coord)} (fits : RingsFit rs) :
    CutShort size (polygon size e) (e.rings rs) := by
  have rings := cutShort_counted size (accepts_coords size e) (fun _ => cutShort_coords size e) e 4
    fits.1 fits.2
  intro front back more split
  rw [polygon_eq]
  exact rings.andThen _ front back more split

variable {inner : Reader Geometry} {n : Nat}

/-- A reader that accepts trees of fewer than so many levels, and runs short on a part of one. -/
structure ReadsTrees (size n : Nat) (inner : Reader Geometry) : Prop where
  accepts : Accepts inner (fun t => t.Fits ∧ t.levels < n) Tree.geometry Tree.bytes
  short : ∀ t : Tree, t.Fits ∧ t.levels < n → CutShort size inner t.bytes

theorem cutShort_members {pick : Geometry → Option α} {node : β → Tree} {value : β → α}
    {bytes : β → List UInt8} (h : ReadsTrees size n inner)
    (picked : ∀ t a, pick t.geometry = some a ↔ ∃ b, node b = t ∧ value b = a)
    (encoded : ∀ b, (node b).bytes = bytes b) (expected : String) {bs : List β} (fits : CountFits bs)
    (leaves : ∀ b ∈ bs, (node b).Fits ∧ (node b).levels < n) :
    CutShort size (members size e inner expected pick) (e.counted bytes bs) := by
  refine cutShort_counted size (accepts_member h.accepts picked encoded expected) ?_ e minGeometrySize
    fits leaves
  intro b hb
  rw [← encoded]
  exact (h.short (node b) hb).andThen _

theorem cutShort_body (h : ReadsTrees size n inner) (t : Tree) (fits : t.Fits) (deep : t.levels < n + 1) :
    CutShort size (body size inner t.order t.code) t.body := by
  cases t with
  | point m => exact (cutShort_coord size m.order m.content).andThen _
  | lineString m => exact (cutShort_coords size m.order fits).andThen _
  | polygon m => exact (cutShort_polygon size m.order fits).andThen _
  | multiPoint m =>
    have members := cutShort_members size m.order h point?_eq_some (fun _ => rfl) "point" fits
      (forall_leaf_iff.2 ⟨fun _ _ => trivial, deep⟩)
    exact members.andThen _
  | multiLineString m =>
    have members := cutShort_members size m.order h lineString?_eq_some (fun _ => rfl) "line string" fits.1
      (forall_leaf_iff.2 ⟨fits.2, deep⟩)
    exact members.andThen _
  | multiPolygon m =>
    have members := cutShort_members size m.order h polygon?_eq_some (fun _ => rfl) "polygon" fits.1
      (forall_leaf_iff.2 ⟨fits.2, deep⟩)
    exact members.andThen _
  | collection e ts =>
    have below : ∀ t ∈ ts, t.Fits ∧ t.levels < n := by
      intro t ht
      rw [Tree.levels] at deep
      exact ⟨(Tree.allFit_iff ts).1 fits.2 t ht, (Tree.levelsBelow_le_iff ts n).1 (by omega) t ht⟩
    have members := cutShort_members size e h some_geometry_eq_some (fun _ => rfl) "geometry" fits.1 below
    rw [Tree.body, Tree.bodies_eq_flatMap]
    exact members.andThen _

end Bodies

/-- With one level less for its members, each geometry is read to its cut. -/
theorem readsTrees_geometry (size : Nat) : ∀ levels, ReadsTrees size levels (geometry size levels)
  | 0 => ⟨accepts_geometry size 0, fun _ ht => (Nat.not_lt_zero _ ht.2).elim⟩
  | levels + 1 => by
    refine ⟨accepts_geometry size (levels + 1), ?_⟩
    rintro t ⟨fits, deep⟩
    apply (cutShort_header size t.order t.code).bind
    · intro rest
      exact (header?_eq_ok size t.order).2 ⟨t.code_lt, rfl⟩
    · exact cutShort_body size (readsTrees_geometry size levels) t fits deep

/-- No accepted data are a part of others. Whatever is cut off at their end makes them truncated, at a
position that the rest still has, and whatever stands behind them is counted as left over. -/
theorem read_selfDelimiting {data : List UInt8} {g : Geometry} (h : read data = .ok g) :
    (∀ front, front <+: data → front ≠ data →
      ∃ position ≤ front.length, read front = .error (.truncated position)) ∧
    ∀ extra, extra ≠ [] → read (data ++ extra) = .error (.trailingBytes extra.length) := by
  obtain ⟨t, ⟨fits, deep⟩, rfl, rfl⟩ := tree_of_read h
  have levels : t.Fits ∧ t.levels < maxLevels + 1 := ⟨fits, Nat.lt_succ_of_le deep⟩
  constructor
  · rintro front ⟨back, whole⟩ part
    have more : back ≠ [] := by
      rintro rfl
      exact part (by rw [← whole, List.append_nil])
    obtain ⟨position, inside, failed⟩ :=
      (readsTrees_geometry front.length (maxLevels + 1)).short t levels front back more whole.symm
    refine ⟨position, inside, ?_⟩
    rw [read, failed]
    rfl
  · intro extra more
    have head := (accepts_geometry (t.bytes ++ extra).length (maxLevels + 1)).ok levels extra
    rw [read, head, ok_bind]
    cases extra with
    | nil => exact (more rfl).elim
    | cons b extra => rfl

theorem read_selfDelimiting_multiPoint :
    let data : List UInt8 := [0, 0, 0, 0, 4, 0, 0, 0, 1, 1, 1, 0, 0, 0] ++ List.replicate 16 0
    let count : List UInt8 := [0, 0, 0, 0, 4, 0, 0, 0, 1]
    read data = .ok (.multiPoint [⟨⟨0⟩, ⟨0⟩⟩]) ∧ (count <+: data ∧ count ≠ data) ∧
      (∃ position ≤ count.length, read count = .error (.truncated position)) ∧
      read (data ++ [7]) = .error (.trailingBytes 1) := by
  intro data count
  have whole : read data = .ok (.multiPoint [⟨⟨0⟩, ⟨0⟩⟩]) := rfl
  obtain ⟨cut, behind⟩ := read_selfDelimiting whole
  have inside : count <+: data := by decide
  have part : count ≠ data := by decide
  exact ⟨whole, ⟨inside, part⟩, cut count inside part, behind [7] (by decide)⟩

end LogicalTable.Wkb
