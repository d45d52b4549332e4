import LogicalTable.Proofs.Geometry.Words

/-! What reading well-known binary accepts: the encodings of trees of at most so many levels, in
whatever byte orders their geometries state. -/
namespace LogicalTable.Wkb

section Parts

variable (size : Nat) (e : Endian)

theorem accepts_coords : Accepts (coords size e) CountFits id e.coords := by
  have least : ∀ c : Coord, True → coordSize ≤ (e.coord c).length := by
    intro c _
    rw [e.length_coord]
    exact Nat.le_refl _
  intro bs cs rest
  rw [coords, accepts_counted size (accepts_coord size e) least e]
  simp [Endian.coords]

theorem polygon_eq (bs : List UInt8) : polygon size e bs = (do
    let (rs, rest) ← (do
      let (n, rest) ← count size e 4 bs
      replicated (coords size e) n rest)
    return (Polygon.ofRings rs, rest)) := by
  rw [polygon]
  cases count size e 4 bs <;> rfl

theorem accepts_polygon : Accepts (polygon size e) RingsFit Polygon.ofRings e.rings := by
  have least : ∀ r : List Coord, CountFits r → 4 ≤ (e.coords r).length :=
    fun r _ => e.four_le_length_counted e.coord r
  have rings := (accepts_counted size (accepts_coords size e) least e).map Polygon.ofRings
  intro bs p rest
  rw [polygon_eq]
  simpa [Endian.rings, RingsFit] using rings bs p rest

theorem header?_eq_ok {bs rest : List UInt8} {code : Nat} :
    header? size bs = .ok ((e, code), rest) ↔ code < 0x100000000 ∧ bs = e.header code ++ rest := by
  constructor
  · intro h
    obtain ⟨⟨front, rest₁⟩, hf, hm⟩ := bind_eq_ok.1 h
    obtain ⟨_, rfl⟩ := (take_eq_ok size).1 hf
    have marked : ∃ o : Endian, front = [o.mark] ∧
        ∃ n, word size o rest₁ = .ok n ∧ ((o, n.1), n.2) = ((e, code), rest) := by
      dsimp only at hm
      split at hm
      · rw [ok_bind] at hm
        obtain ⟨n, hn, he⟩ := bind_eq_ok.1 hm
        exact ⟨.little, rfl, n, hn, Except.ok.inj he⟩
      · rw [ok_bind] at hm
        obtain ⟨n, hn, he⟩ := bind_eq_ok.1 hm
        exact ⟨.big, rfl, n, hn, Except.ok.inj he⟩
      · cases hm
    obtain ⟨o, rfl, ⟨_, rest₂⟩, hn, he⟩ := marked
    obtain ⟨_, bound, rfl, rfl⟩ := (accepts_word size o _ _ _).1 hn
    cases he
    exact ⟨bound, rfl⟩
  · rintro ⟨bound, rfl⟩
    have mark : take size 1 (e.header code ++ rest) = .ok ([e.mark], e.bytes 4 code ++ rest) :=
      (take_eq_ok size).2 ⟨rfl, rfl⟩
    refine bind_eq_ok.2 ⟨_, mark, ?_⟩
    cases e with
    | little =>
      have number := (accepts_word size .little).ok bound rest
      exact bind_eq_ok.2 ⟨.little, rfl, bind_eq_ok.2 ⟨_, number, rfl⟩⟩
    | big =>
      have number := (accepts_word size .big).ok bound rest
      exact bind_eq_ok.2 ⟨.big, rfl, bind_eq_ok.2 ⟨_, number, rfl⟩⟩

end Parts

theorem Tree.minGeometrySize_le_length_bytes (t : Tree) : minGeometrySize ≤ t.bytes.length := by
  have content : 4 ≤ t.body.length := by
    cases t <;> simp [Tree.body, Endian.coords, Endian.rings, Endian.counted]
  rw [Tree.bytes, List.length_append, Endian.length_header, minGeometrySize]
  omega

section Members

variable (size : Nat) {inner : Reader Geometry} {p : Tree → Prop} {pick : Geometry → Option α}
  {node : β → Tree} {value : β → α} {bytes : β → List UInt8}

/-- Members are the trees whose geometry is of the kind asked for. -/
theorem accepts_member (h : Accepts inner p Tree.geometry Tree.bytes)
    (picked : ∀ t a, pick t.geometry = some a ↔ ∃ b, node b = t ∧ value b = a)
    (encoded : ∀ b, (node b).bytes = bytes b) (expected : String) :
    Accepts (member inner expected pick) (fun b => p (node b)) value bytes := by
  intro bs a rest
  constructor
  · intro ha
    obtain ⟨⟨g, rest₁⟩, hg, hp⟩ := bind_eq_ok.1 ha
    obtain ⟨t, ht, rfl, rfl⟩ := (h _ _ _).1 hg
    dsimp only at hp
    cases kind : pick t.geometry with
    | none =>
      rw [kind] at hp
      cases hp
    | some a' =>
      rw [kind] at hp
      cases hp
      obtain ⟨b, rfl, rfl⟩ := (picked t _).1 kind
      exact ⟨b, ht, rfl, by rw [encoded]⟩
  · rintro ⟨b, hb, rfl, rfl⟩
    have kind : pick (node b).geometry = some (value b) := (picked _ _).2 ⟨b, rfl, rfl⟩
    rw [← encoded]
    refine bind_eq_ok.2 ⟨_, h.ok hb rest, ?_⟩
    dsimp only
    rw [kind]
    rfl

theorem accepts_members (h : Accepts inner p Tree.geometry Tree.bytes)
    (picked : ∀ t a, pick t.geometry = some a ↔ ∃ b, node b = t ∧ value b = a)
    (encoded : ∀ b, (node b).bytes = bytes b) (e : Endian) (expected : String) :
    Accepts (members size e inner expected pick) (fun bs => CountFits bs ∧ ∀ b ∈ bs, p (node b))
      (List.map value) (e.counted bytes) := by
  have least : ∀ b, p (node b) → minGeometrySize ≤ (bytes b).length := by
    intro b _
    rw [← encoded]
    exact (node b).minGeometrySize_le_length_bytes
  exact accepts_counted size (accepts_member h picked encoded expected) least e

end Members

theorem point?_eq_some (t : Tree) (c : Coord) :
    point? t.geometry = some c ↔ ∃ n : Node Coord, Tree.point n = t ∧ n.content = c := by
  cases t <;> simp [Tree.geometry, point?]

theorem lineString?_eq_some (t : Tree) (cs : List Coord) :
    lineString? t.geometry = some cs ↔
      ∃ n : Node (List Coord), Tree.lineString n = t ∧ n.content = cs := by
  cases t <;> simp [Tree.geometry, lineString?]

theorem polygon?_eq_some (t : Tree) (p : Polygon) :
    polygon? t.geometry = some p ↔
      ∃ n : Node (List (List Coord)), Tree.polygon n = t ∧ Polygon.ofRings n.content = p := by
  cases t <;> simp [Tree.geometry, polygon?]

theorem some_geometry_eq_some (t : Tree) (g : Geometry) :
    some t.geometry = some g ↔ ∃ u : Tree, id u = t ∧ u.geometry = g := by
  simp

/-- Members without members of their own lie one level down, if there are any. -/
theorem forall_leaf_iff {ms : List β} {q : β → Prop} {n : Nat} :
    (∀ m ∈ ms, q m ∧ 0 < n) ↔ (∀ m ∈ ms, q m) ∧ min 1 ms.length < n + 1 := by
  cases ms with
  | nil => simp
  | cons m ms =>
    have one : min 1 (m :: ms).length = 1 := by simp
    rw [one]
    constructor
    · intro h
      refine ⟨fun m hm => (h m hm).1, ?_⟩
      have := (h m List.mem_cons_self).2
      omega
    · rintro ⟨h, deep⟩ m hm
      exact ⟨h m hm, by omega⟩

section Body

variable (size : Nat) {inner : Reader Geometry} {n : Nat}
  (h : Accepts inner (fun t => t.Fits ∧ t.levels < n) Tree.geometry Tree.bytes)
include h

/-- Behind its header, the content of a tree is read. -/
theorem body_tree (t : Tree) (fits : t.Fits) (deep : t.levels < n + 1) (rest : List UInt8) :
    body size inner t.order t.code (t.body ++ rest) = .ok (t.geometry, rest) := by
  cases t with
  | point m => exact ((accepts_coord size m.order).map Geometry.point).ok trivial rest
  | lineString m => exact ((accepts_coords size m.order).map Geometry.lineString).ok fits rest
  | polygon m => exact ((accepts_polygon size m.order).map Geometry.polygon).ok fits rest
  | multiPoint m =>
    have members := accepts_members size h point?_eq_some (fun _ => rfl) m.order "point"
    have leaves : ∀ c ∈ m.content, (Tree.point c).Fits ∧ (Tree.point c).levels < n :=
      forall_leaf_iff.2 ⟨fun _ _ => trivial, deep⟩
    exact (members.map Geometry.multiPoint).ok ⟨fits, leaves⟩ rest
  | multiLineString m =>
    have members := accepts_members size h lineString?_eq_some (fun _ => rfl) m.order "line string"
    have leaves : ∀ l ∈ m.content, (Tree.lineString l).Fits ∧ (Tree.lineString l).levels < n :=
      forall_leaf_iff.2 ⟨fits.2, deep⟩
    exact (members.map Geometry.multiLineString).ok ⟨fits.1, leaves⟩ rest
  | multiPolygon m =>
    have members := accepts_members size h polygon?_eq_some (fun _ => rfl) m.order "polygon"
    have leaves : ∀ p ∈ m.content, (Tree.polygon p).Fits ∧ (Tree.polygon p).levels < n :=
      forall_leaf_iff.2 ⟨fits.2, deep⟩
    exact (members.map Geometry.multiPolygon).ok ⟨fits.1, leaves⟩ rest
  | collection e ts =>
    have members := accepts_members size h some_geometry_eq_some (fun _ => rfl) e "geometry"
    have below : ∀ t ∈ ts, t.Fits ∧ t.levels < n := fun t ht =>
      ⟨(Tree.allFit_iff ts).1 fits.2 t ht, (Tree.levelsBelow_le_iff ts n).1 (by
        rw [Tree.levels] at deep
        omega) t ht⟩
    have content := (members.map Geometry.collection).ok ⟨fits.1, below⟩ rest
    rw [Tree.body, Tree.geometry, Tree.bodies_eq_flatMap, Tree.geometries_eq_map]
    exact content

/-- What is read behind a header is the content of a tree. -/
theorem tree_of_body {e : Endian} {code : Nat} {bs rest : List UInt8} {g : Geometry}
    (hb : body size inner e code bs = .ok (g, rest)) :
    ∃ t : Tree, t.order = e ∧ t.code = code ∧ (t.Fits ∧ t.levels < n + 1) ∧ t.geometry = g ∧
      bs = t.body ++ rest := by
  unfold body at hb
  -- One case for each code, in order; any other is refused.
  split at hb
  · obtain ⟨c, _, rfl, rfl⟩ := ((accepts_coord size e).map Geometry.point _ _ _).1 hb
    exact ⟨.point ⟨e, c⟩, rfl, rfl, ⟨trivial, Nat.zero_lt_succ n⟩, rfl, rfl⟩
  · obtain ⟨cs, fits, rfl, rfl⟩ := ((accepts_coords size e).map Geometry.lineString _ _ _).1 hb
    exact ⟨.lineString ⟨e, cs⟩, rfl, rfl, ⟨fits, Nat.zero_lt_succ n⟩, rfl, rfl⟩
  · obtain ⟨rs, fits, rfl, rfl⟩ := ((accepts_polygon size e).map Geometry.polygon _ _ _).1 hb
    exact ⟨.polygon ⟨e, rs⟩, rfl, rfl, ⟨fits, Nat.zero_lt_succ n⟩, rfl, rfl⟩
  · have members := accepts_members size h point?_eq_some (fun _ => rfl) e "point"
    obtain ⟨ms, ⟨fits, leaves⟩, rfl, rfl⟩ := (members.map Geometry.multiPoint _ _ _).1 hb
    obtain ⟨_, deep⟩ := forall_leaf_iff.1 leaves
    exact ⟨.multiPoint ⟨e, ms⟩, rfl, rfl, ⟨fits, deep⟩, rfl, rfl⟩
  · have members := accepts_members size h lineString?_eq_some (fun _ => rfl) e "line string"
    obtain ⟨ms, ⟨fits, leaves⟩, rfl, rfl⟩ := (members.map Geometry.multiLineString _ _ _).1 hb
    obtain ⟨each, deep⟩ := forall_leaf_iff.1 leaves
    exact ⟨.multiLineString ⟨e, ms⟩, rfl, rfl, ⟨⟨fits, each⟩, deep⟩, rfl, rfl⟩
  · have members := accepts_members size h polygon?_eq_some (fun _ => rfl) e "polygon"
    obtain ⟨ms, ⟨fits, leaves⟩, rfl, rfl⟩ := (members.map Geometry.multiPolygon _ _ _).1 hb
    obtain ⟨each, deep⟩ := forall_leaf_iff.1 leaves
    exact ⟨.multiPolygon ⟨e, ms⟩, rfl, rfl, ⟨⟨fits, each⟩, deep⟩, rfl, rfl⟩
  · have members := accepts_members size h some_geometry_eq_some (fun _ => rfl) e "geometry"
    obtain ⟨ts, ⟨fits, below⟩, rfl, rfl⟩ := (members.map Geometry.collection _ _ _).1 hb
    have each := (Tree.allFit_iff ts).2 fun t ht => (below t ht).1
    have deep := (Tree.levelsBelow_le_iff ts n).2 fun t ht => (below t ht).2
    refine ⟨.collection e ts, rfl, rfl, ⟨⟨fits, each⟩, Nat.lt_succ_of_le deep⟩, ?_, ?_⟩
    · rw [Tree.geometry, Tree.geometries_eq_map]
    · rw [Tree.body, Tree.bodies_eq_flatMap]
      rfl
  · cases hb

end Body

theorem Tree.code_lt (t : Tree) : t.code < 0x100000000 := by
  cases t <;> simp [Tree.code]

/-- Reading with some levels left accepts the encodings of trees that have fewer. -/
theorem accepts_geometry (size : Nat) : ∀ levels,
    Accepts (geometry size levels) (fun t => t.Fits ∧ t.levels < levels) Tree.geometry Tree.bytes
  | 0 => by
    intro bs g rest
    constructor
    · intro h
      cases h
    · rintro ⟨t, ⟨_, deep⟩, _⟩
      exact (Nat.not_lt_zero _ deep).elim
  | levels + 1 => by
    have inner := accepts_geometry size levels
    intro bs g rest
    constructor
    · intro h
      obtain ⟨⟨⟨e, code⟩, rest₁⟩, hh, hb⟩ := bind_eq_ok.1 h
      obtain ⟨_, rfl⟩ := (header?_eq_ok size e).1 hh
      obtain ⟨t, rfl, rfl, sound, rfl, rfl⟩ := tree_of_body size inner hb
      exact ⟨t, sound, rfl, by rw [Tree.bytes, List.append_assoc]⟩
    · rintro ⟨t, ⟨fits, deep⟩, rfl, rfl⟩
      have header : header? size (t.bytes ++ rest) = .ok ((t.order, t.code), t.body ++ rest) :=
        (header?_eq_ok size t.order).2 ⟨t.code_lt, List.append_assoc _ _ _⟩
      exact bind_eq_ok.2 ⟨_, header, body_tree size inner t fits deep rest⟩

theorem read_tree {t : Tree} (fits : t.Fits) (deep : t.levels ≤ maxLevels) :
    read t.bytes = .ok t.geometry := by
  have whole := (accepts_geometry t.bytes.length (maxLevels + 1)).ok
    ⟨fits, Nat.lt_succ_of_le deep⟩ []
  rw [List.append_nil] at whole
  exact bind_eq_ok.2 ⟨_, whole, rfl⟩

theorem tree_of_read {data : List UInt8} {g : Geometry} (h : read data = .ok g) :
    ∃ t : Tree, (t.Fits ∧ t.levels ≤ maxLevels) ∧ t.bytes = data ∧ t.geometry = g := by
  obtain ⟨⟨g', rest⟩, hg, he⟩ := bind_eq_ok.1 h
  obtain ⟨t, ⟨fits, deep⟩, rfl, hd⟩ := (accepts_geometry data.length (maxLevels + 1) _ _ _).1 hg
  cases rest with
  | nil =>
    cases he
    exact ⟨t, ⟨fits, Nat.le_of_lt_succ deep⟩, by rw [hd, List.append_nil], rfl⟩
  | cons b rest => cases he

/-- Data are read just if they are the complete encoding of a tree with no more than 64 levels below
its root, and then as its geometry, whatever the byte orders in it. -/
theorem read_eq_ok_iff :
    (∀ (data : List UInt8) (g : Geometry), read data = .ok g ↔
      ∃ t : Tree, (t.Fits ∧ t.levels ≤ 64) ∧ t.bytes = data ∧ t.geometry = g) ∧
    ∀ t u : Tree, t.Fits → t.levels ≤ 64 → t.inOrder .little = u.inOrder .little →
      read t.bytes = .ok t.geometry ∧ read u.bytes = .ok t.geometry := by
  constructor
  · intro data g
    constructor
    · exact tree_of_read
    · rintro ⟨t, ⟨fits, deep⟩, rfl, rfl⟩
      exact read_tree fits deep
  · intro t u fits deep same
    refine ⟨read_tree fits deep, ?_⟩
    have geometries : u.geometry = t.geometry := by
      rw [← u.geometry_inOrder .little, ← same, t.geometry_inOrder]
    have uFits : u.Fits := by
      rwa [← u.fits_inOrder .little, ← same, t.fits_inOrder]
    have uDeep : u.levels ≤ 64 := by
      rwa [← u.levels_inOrder .little, ← same, t.levels_inOrder]
    rw [read_tree uFits uDeep, geometries]

theorem read_mixed_orders :
    let c : Coord := ⟨⟨0⟩, ⟨0x4000000000000000⟩⟩
    let t : Tree := .collection .big [.multiPoint ⟨.little, [⟨.big, c⟩]⟩, .lineString ⟨.little, [c]⟩]
    let u : Tree := .collection .little [.multiPoint ⟨.big, [⟨.big, c⟩]⟩, .lineString ⟨.big, [c]⟩]
    read t.bytes = .ok t.geometry ∧ read u.bytes = .ok t.geometry := by
  intro c t u
  have fits : t.Fits := ⟨by decide, by unfold Tree.Fits; decide, by unfold Tree.Fits; decide, trivial⟩
  exact read_eq_ok_iff.2 t u fits (by decide) rfl

end LogicalTable.Wkb
