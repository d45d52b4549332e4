import LogicalTable.Proofs.Geometry.Written

/-! What is written after reading, read and written again. It stays the same but for rings that start
with NaN: such a ring is closed anew each time it is read, and grows by a coordinate. -/
namespace LogicalTable

/-- How many rings start with NaN, and so never count as closed. -/
def unsettledRings (rs : List (List Coord)) : Nat := rs.countP fun r => !decide (StartsWithNumbers r)

theorem unsettledRings_eq_zero {rs : List (List Coord)} :
    unsettledRings rs = 0 ↔ ∀ r ∈ rs, StartsWithNumbers r := by
  simp [unsettledRings]

theorem unsettledRings_append (rs ss : List (List Coord)) :
    unsettledRings (rs ++ ss) = unsettledRings rs + unsettledRings ss := List.countP_append

theorem closing_of_nan {cs : List Coord} (h : ¬StartsWithNumbers cs) :
    (closing cs).length = cs.length + 1 := by
  cases cs with
  | nil => exact (h fun c hc => by cases hc).elim
  | cons a cs =>
    have apart : ∀ b : Coord, a.same b = false := by
      intro b
      apply Bool.eq_false_iff.2
      intro same
      simp only [Coord.same, Binary64.same, Bool.and_eq_true, Bool.not_eq_true'] at same
      refine h fun c hc => ?_
      cases hc
      exact ⟨same.1.1.1, same.2.1.1⟩
    rw [closing, List.head?_cons, List.getLast?_eq_some_getLast (List.cons_ne_nil a cs)]
    simp [apart]

/-- Closing a ring again adds a coordinate just if it starts with NaN. -/
theorem Ring.length_closing (r : Ring) :
    (closing r.coords).length = r.coords.length + unsettledRings [r.coords] := by
  by_cases h : StartsWithNumbers r.coords
  · have closed : closing r.coords = r.coords := congrArg Ring.coords (Ring.close_coords h)
    simp [closed, unsettledRings, h]
  · simp [closing_of_nan h, unsettledRings, h]

namespace Wkb

theorem Endian.length_rings (e : Endian) (rs : List (List Coord)) :
    (e.rings rs).length = 4 + (rs.map fun r => 4 + 16 * r.length).foldr (· + ·) 0 := by
  have flat : ∀ cs : List Coord, (cs.flatMap e.coord).length = 16 * cs.length := by
    intro cs
    induction cs with
    | nil => rfl
    | cons c cs ih =>
      rw [List.flatMap_cons, List.length_append, ih, e.length_coord, List.length_cons]
      omega
  rw [rings, counted, List.length_append, e.length_bytes]
  congr 1
  induction rs with
  | nil => rfl
  | cons r rs ih =>
    rw [List.flatMap_cons, List.length_append, ih, coords, counted, List.length_append,
      e.length_bytes, flat, List.map_cons, List.foldr_cons]

end Wkb

namespace Polygon

def reread (p : Polygon) : Polygon := ofRings p.written

theorem rings_eq (p : Polygon) : p.rings = (p.exterior :: p.interiors).map Ring.coords := rfl

theorem closing_eq_nil {cs : List Coord} : closing cs = [] ↔ cs = [] := by
  cases cs with
  | nil => exact Iff.rfl
  | cons a cs =>
    rw [closing, List.head?_cons, List.getLast?_eq_some_getLast (List.cons_ne_nil a cs)]
    dsimp only
    split <;> simp

theorem isEmpty_ofRings_rings (p : Polygon) : (ofRings p.rings).isEmpty = p.isEmpty := by
  rw [Bool.eq_iff_iff]
  simp [isEmpty, ofRings, rings, Ring.close, closing_eq_nil]

theorem rings_ofRings_rings (p : Polygon) : (ofRings p.rings).rings = p.rings.map closing := by
  simp [ofRings, rings, Ring.close, Function.comp_def]

theorem length_closings (rs : List Ring) :
    ((rs.map Ring.coords).map fun r => 4 + 16 * (closing r).length).foldr (· + ·) 0 =
      ((rs.map Ring.coords).map fun r => 4 + 16 * r.length).foldr (· + ·) 0 +
        16 * unsettledRings (rs.map Ring.coords) := by
  induction rs with
  | nil => rfl
  | cons r rs ih =>
    have split : unsettledRings ((r :: rs).map Ring.coords) =
        unsettledRings [r.coords] + unsettledRings (rs.map Ring.coords) :=
      unsettledRings_append [r.coords] _
    have grown := r.length_closing
    simp only [List.map_cons, List.foldr_cons] at split ⊢
    omega

theorem length_reread (p : Polygon) : (Wkb.polygonBytes p.reread).length =
    (Wkb.polygonBytes p).length + 16 * unsettledRings p.rings := by
  rw [Wkb.polygonBytes_eq, Wkb.polygonBytes_eq, Wkb.Endian.length_rings, Wkb.Endian.length_rings]
  by_cases empty : p.isEmpty = true
  · have settled : unsettledRings p.rings = 0 := by
      simp only [isEmpty, Bool.and_eq_true, List.isEmpty_iff] at empty
      simp [unsettledRings, rings, empty, StartsWithNumbers]
    have hollow : p.written = [] := if_pos empty
    rw [settled, reread, hollow]
    rfl
  · have same : p.reread.written = p.rings.map closing := by
      rw [reread, written, written, if_neg empty, isEmpty_ofRings_rings, if_neg empty,
        rings_ofRings_rings]
    rw [same, written, if_neg empty, List.map_map, rings_eq]
    have grown := length_closings (p.exterior :: p.interiors)
    simp only [Function.comp_def]
    omega

end Polygon

namespace Geometry

def rings (g : Geometry) : List (List Coord) := g.polygons.flatMap Polygon.rings

def allRings (gs : List Geometry) : List (List Coord) := (allPolygons gs).flatMap Polygon.rings

theorem length_rereadAll (ps : List Polygon) :
    ((ps.map Polygon.reread).flatMap fun p => Wkb.header 3 ++ Wkb.polygonBytes p).length =
      (ps.flatMap fun p => Wkb.header 3 ++ Wkb.polygonBytes p).length +
        16 * unsettledRings (ps.flatMap Polygon.rings) := by
  induction ps with
  | nil => rfl
  | cons p ps ih =>
    have grown := p.length_reread
    simp only [List.map_cons, List.flatMap_cons, List.length_append, unsettledRings_append] at ih ⊢
    omega

theorem length_write_polygon (p : Polygon) : (Wkb.write (polygon p.reread)).length =
    (Wkb.write (polygon p)).length + 16 * unsettledRings (polygon p).rings := by
  have grown := p.length_reread
  simp only [Wkb.write, List.length_append, rings, polygons, List.flatMap_cons, List.flatMap_nil,
    List.append_nil]
  omega

mutual

/-- What is written again is longer by a coordinate for each ring that starts with NaN. -/
theorem length_write_tree : ∀ g : Geometry, (Wkb.write g.tree.geometry).length =
    (Wkb.write g).length + 16 * unsettledRings g.normal.rings
  | point _ | line _ _ | lineString _ => rfl
  | polygon p => length_write_polygon p
  | rect low high => length_write_polygon (rectPolygon low high)
  | triangle a b c => length_write_polygon (trianglePolygon a b c)
  | multiPoint cs => by
    rw [geometry_tree (multiPoint cs) fun _ hp => by cases hp]
    rfl
  | multiLineString ls => by
    rw [geometry_tree (multiLineString ls) fun _ hp => by cases hp]
    rfl
  | multiPolygon ps => by
    have read : (multiPolygon ps).tree.geometry = multiPolygon (ps.map Polygon.reread) :=
      congrArg multiPolygon (List.map_map ..)
    have same : (multiPolygon ps).normal = multiPolygon ps := rfl
    have grown := length_rereadAll ps
    rw [read, same, rings, polygons]
    simp only [Wkb.write, List.length_append, List.length_map]
    omega
  | collection gs => by
    have grown := length_writeAll_trees gs
    rw [tree, Wkb.Tree.geometry, normal, rings, polygons]
    simp only [Wkb.write, List.length_append, Wkb.countBytes, Wkb.length_littleEndian]
    rw [grown, allRings]
    omega

theorem length_writeAll_trees : ∀ gs : List Geometry,
    (Wkb.writeAll (Wkb.Tree.geometries (trees gs))).length =
      (Wkb.writeAll gs).length + 16 * unsettledRings (allRings (normalAll gs))
  | [] => rfl
  | g :: gs => by
    have first := length_write_tree g
    have rest := length_writeAll_trees gs
    have split : allRings (normalAll (g :: gs)) = g.normal.rings ++ allRings (normalAll gs) :=
      List.flatMap_append
    rw [split, unsettledRings_append, trees, Wkb.Tree.geometries, Wkb.writeAll, Wkb.writeAll,
      List.length_append, List.length_append]
    omega

end

end Geometry

namespace Wkb.Tree

mutual

theorem normal_geometry : ∀ t : Tree, t.geometry.normal = t.geometry
  | point _ | lineString _ | polygon _ | multiPoint _ | multiLineString _ | multiPolygon _ => rfl
  | collection _ ts => congrArg Geometry.collection (normal_geometries ts)

theorem normal_geometries : ∀ ts : List Tree,
    Geometry.normalAll (geometries ts) = geometries ts
  | [] => rfl
  | t :: ts => by rw [geometries, Geometry.normalAll, normal_geometry t, normal_geometries ts]

end

mutual

theorem levels_geometry : ∀ t : Tree, t.geometry.levels = t.levels
  | point _ | lineString _ | polygon _ => rfl
  | multiPoint n => by rw [geometry, Geometry.levels, levels, List.length_map]
  | multiLineString n => by rw [geometry, Geometry.levels, levels, List.length_map]
  | multiPolygon n => by rw [geometry, Geometry.levels, levels, List.length_map]
  | collection _ ts => levelsBelow_geometries ts

theorem levelsBelow_geometries : ∀ ts : List Tree,
    Geometry.levelsBelow (geometries ts) = levelsBelow ts
  | [] => rfl
  | t :: ts => by
    rw [geometries, Geometry.levelsBelow, levelsBelow, levels_geometry t, levelsBelow_geometries ts]

end

theorem ringsFit_ofRings {rs : List (List Coord)} (fits : RingsFit rs)
    (closed : ∀ r ∈ (Polygon.ofRings rs).rings, CountFits r) :
    RingsFit (Polygon.ofRings rs).rings := by
  refine ⟨?_, closed⟩
  cases rs with
  | nil => exact (by decide : 1 < 0x100000000)
  | cons r rs =>
    have count := fits.1
    rw [CountFits] at count ⊢
    simpa [Polygon.ofRings, Polygon.rings] using count

mutual

/-- The counts that were read fit again, with rings closed if these still do. -/
theorem fits_geometry : ∀ t : Tree, t.Fits → (∀ r ∈ t.geometry.rings, CountFits r) →
    t.geometry.Fits
  | point _, _, _ => trivial
  | lineString _, fits, _ => fits
  | polygon n, fits, closed => by
    refine ringsFit_ofRings fits ?_
    simpa [Geometry.rings, geometry, Geometry.polygons] using closed
  | multiPoint n, fits, _ => by
    rw [geometry, Geometry.Fits, CountFits, List.length_map]
    exact fits
  | multiLineString n, fits, _ => by
    refine ⟨?_, ?_⟩
    · rw [CountFits, List.length_map]
      exact fits.1
    · exact List.forall_mem_map.2 fits.2
  | multiPolygon n, fits, closed => by
    refine ⟨?_, List.forall_mem_map.2 fun m hm => ringsFit_ofRings (fits.2 m hm) fun r hr => ?_⟩
    · rw [CountFits, List.length_map]
      exact fits.1
    · exact closed r (List.mem_flatMap.2 ⟨_, List.mem_map_of_mem hm, hr⟩)
  | collection _ ts, fits, closed => by
    refine ⟨?_, fits_geometries ts fits.2 closed⟩
    rw [CountFits, geometries_eq_map, List.length_map]
    exact fits.1

theorem fits_geometries : ∀ ts : List Tree, AllFit ts →
    (∀ r ∈ Geometry.allRings (geometries ts), CountFits r) → Geometry.AllFit (geometries ts)
  | [], _, _ => trivial
  | t :: ts, fits, closed => by
    rw [geometries, Geometry.allRings, Geometry.allPolygons, List.flatMap_append] at closed
    obtain ⟨first, rest⟩ := List.forall_mem_append.1 closed
    exact ⟨fits_geometry t fits.1 first, fits_geometries ts fits.2 rest⟩

end

end Wkb.Tree

/-- A geometry that has been read is read again where it is written, provided its closed rings can
be counted in 32 bits. It is then written the same just if no ring starts with NaN; every ring that does
makes the data longer by the sixteen bytes of a coordinate. -/
theorem Wkb.write_reread (data : List UInt8) (g : Geometry) (h : read data = .ok g)
    (fits : ∀ r ∈ g.rings, CountFits r) :
    ∃ g', read (write g) = .ok g' ∧
      (write g' = write g ↔ ∀ r ∈ g.rings, StartsWithNumbers r) ∧
      (write g').length = (write g).length + 16 * unsettledRings g.rings := by
  obtain ⟨t, ⟨tFits, deep⟩, -, rfl⟩ := tree_of_read h
  have normal := t.normal_geometry
  have again : read (write t.geometry) = .ok t.geometry.tree.geometry := by
    rw [← t.geometry.bytes_tree]
    apply read_tree
    · apply t.geometry.fits_tree
      rw [normal]
      exact t.fits_geometry tFits fits
    · rwa [t.geometry.levels_tree, normal, t.levels_geometry]
  have grown := t.geometry.length_write_tree
  rw [normal] at grown
  refine ⟨_, again, ?_, grown⟩
  rw [← unsettledRings_eq_zero]
  constructor
  · intro same
    rw [same] at grown
    omega
  · intro settled
    have same : t.geometry.tree.geometry = t.geometry.normal := by
      refine t.geometry.geometry_tree fun p hp r hr => ?_
      rw [normal] at hp
      exact unsettledRings_eq_zero.1 settled r (List.mem_flatMap.2 ⟨p, hp, hr⟩)
    rw [same, normal]

/-- A ring of one coordinate with NaN, and a settled ring beside it. -/
def Wkb.nanRings : Tree :=
  let c : Coord := ⟨Binary64.nan, Binary64.zero⟩
  let d : Coord := ⟨Binary64.zero, Binary64.nan⟩
  .collection .big [.polygon ⟨.little, [[c]]⟩, .polygon ⟨.big, [[⟨⟨0⟩, ⟨0⟩⟩, d]]⟩]

theorem Wkb.write_reread_nanRings : ∃ g', read (write nanRings.geometry) = .ok g' ∧
    (write g').length = (write nanRings.geometry).length + 16 := by
  have accepted : read nanRings.bytes = .ok nanRings.geometry := by
    refine read_tree ⟨by decide, ?_, ?_, trivial⟩ (by decide)
    all_goals
      unfold Tree.Fits
      decide
  obtain ⟨g', again, -, grown⟩ := write_reread _ _ accepted (by decide)
  exact ⟨g', again, grown⟩

/-- A polygon whose only coordinate has NaN does not stay the same. -/
theorem Wkb.write_reread_unstable :
    let data : List UInt8 := [1, 3, 0, 0, 0, 1, 0, 0, 0, 1, 0, 0, 0, 0, 0, 0, 0, 0, 0, 0xf8, 0x7f,
      0, 0, 0, 0, 0, 0, 0, 0]
    ∃ g g', read data = .ok g ∧ read (write g) = .ok g' ∧ write g' ≠ write g := by
  intro data
  let t : Tree := .polygon ⟨.little, [[⟨Binary64.nan, Binary64.zero⟩]]⟩
  have rings : RingsFit [[(⟨Binary64.nan, Binary64.zero⟩ : Coord)]] := by decide
  have bytes : t.bytes = data := by decide
  have first : read data = .ok t.geometry := by
    rw [← bytes]
    exact read_tree rings (by decide)
  have again : read (write t.geometry) = .ok t.geometry.tree.geometry := by
    rw [← t.geometry.bytes_tree]
    exact read_tree (t.geometry.fits_tree (by decide)) (by decide)
  refine ⟨_, _, first, again, fun same => ?_⟩
  have grown := t.geometry.length_write_tree
  have one : unsettledRings t.geometry.normal.rings = 1 := by decide
  rw [same, one] at grown
  omega

end LogicalTable
