import LogicalTable.Proofs.Geometry.Accepted
import LogicalTable.Registry.Factory

/-! Geometries written and read back. What is written is the encoding of a tree in which every
geometry is little-endian, and reading it gives the normal form. -/
namespace LogicalTable

/-- Whether the first coordinate, if there is one, has no NaN. -/
def StartsWithNumbers (cs : List Coord) : Prop :=
  ∀ c, cs.head? = some c → c.x.isNaN = false ∧ c.y.isNaN = false

instance (cs : List Coord) : Decidable (StartsWithNumbers cs) :=
  inferInstanceAs (Decidable (∀ c ∈ cs.head?, c.x.isNaN = false ∧ c.y.isNaN = false))

theorem Coord.same_self {c : Coord} (h : c.x.isNaN = false ∧ c.y.isNaN = false) :
    c.same c = true := by
  rw [same, Binary64.same_self, Binary64.same_self, h.1, h.2]
  rfl

/-- Closing once is enough, unless a ring starts with NaN. -/
theorem closing_closing {cs : List Coord} (h : StartsWithNumbers (closing cs)) :
    closing (closing cs) = closing cs := by
  cases cs with
  | nil => rfl
  | cons a cs =>
    have closed : closing (a :: cs) =
        if a.same ((a :: cs).getLast (List.cons_ne_nil a cs)) then a :: cs else a :: cs ++ [a] := by
      rw [closing, List.head?_cons, List.getLast?_eq_some_getLast (List.cons_ne_nil a cs)]
    by_cases same : a.same ((a :: cs).getLast (List.cons_ne_nil a cs)) = true
    · rw [closed, if_pos same, closed, if_pos same]
    · rw [closed, if_neg same] at h ⊢
      have ends : (a :: cs ++ [a]).getLast? = some a := List.getLast?_concat
      rw [closing, ends]
      exact if_pos (Coord.same_self (h a rfl))

theorem Ring.close_coords {r : Ring} (h : StartsWithNumbers r.coords) : Ring.close r.coords = r := by
  obtain ⟨_, cs, rfl⟩ := r
  have closed := closing_closing h
  simp only [Ring.close, closed]

namespace Polygon

/-- The rings that are written; an empty polygon has none. -/
def written (p : Polygon) : List (List Coord) := if p.isEmpty then [] else p.rings

theorem ofRings_rings {p : Polygon} (h : ∀ r ∈ p.rings, StartsWithNumbers r) :
    ofRings p.rings = p := by
  obtain ⟨exterior, interiors⟩ := p
  obtain ⟨first, rest⟩ := List.forall_mem_cons.1 h
  have closed : (interiors.map Ring.coords).map Ring.close = interiors := by
    rw [List.map_map]
    refine (List.map_congr_left fun r hr => ?_).trans (List.map_id interiors)
    exact Ring.close_coords (rest _ (List.mem_map_of_mem hr))
  rw [rings, ofRings, closed, Ring.close_coords first]

theorem ofRings_written {p : Polygon} (h : ∀ r ∈ p.rings, StartsWithNumbers r) :
    ofRings p.written = p := by
  by_cases empty : p.isEmpty = true
  · obtain ⟨⟨coords, closed⟩, interiors⟩ := p
    obtain ⟨hc, hi⟩ := Bool.and_eq_true_iff.1 empty
    cases List.isEmpty_iff.1 hc
    cases List.isEmpty_iff.1 hi
    rfl
  · rw [written, if_neg empty, ofRings_rings h]

end Polygon

namespace Wkb

theorem RingsFit.written {p : Polygon} (h : RingsFit p.rings) : RingsFit p.written := by
  by_cases empty : p.isEmpty = true
  · rw [Polygon.written, if_pos empty]
    exact ⟨Nat.succ_pos _, fun _ hr => (List.not_mem_nil hr).elim⟩
  · rwa [Polygon.written, if_neg empty]

theorem polygonBytes_eq (p : Polygon) : polygonBytes p = Endian.little.rings p.written := by
  by_cases empty : p.isEmpty = true
  · rw [polygonBytes, Polygon.written, if_pos empty, if_pos empty]
    rfl
  · rw [polygonBytes, Polygon.written, if_neg empty, if_neg empty]
    rfl

end Wkb

namespace Geometry

open Wkb (CountFits RingsFit)

mutual

def levels : Geometry → Nat
  | multiPoint cs => min 1 cs.length
  | multiLineString ls => min 1 ls.length
  | multiPolygon ps => min 1 ps.length
  | collection gs => levelsBelow gs
  | _ => 0

def levelsBelow : List Geometry → Nat
  | [] => 0
  | g :: gs => max (g.levels + 1) (levelsBelow gs)

end

mutual

/-- Whether counts of 32 bits can state the number of items wherever one is written. -/
def Fits : Geometry → Prop
  | lineString cs => CountFits cs
  | polygon p => RingsFit p.rings
  | multiPoint cs => CountFits cs
  | multiLineString ls => CountFits ls ∧ ∀ l ∈ ls, CountFits l
  | multiPolygon ps => CountFits ps ∧ ∀ p ∈ ps, RingsFit p.rings
  | collection gs => CountFits gs ∧ AllFit gs
  | _ => True

def AllFit : List Geometry → Prop
  | [] => True
  | g :: gs => g.Fits ∧ AllFit gs

end

mutual

instance decidableFits : (g : Geometry) → Decidable g.Fits
  | lineString cs => inferInstanceAs (Decidable (CountFits cs))
  | polygon p => inferInstanceAs (Decidable (RingsFit p.rings))
  | multiPoint cs => inferInstanceAs (Decidable (CountFits cs))
  | multiLineString ls => inferInstanceAs (Decidable (CountFits ls ∧ ∀ l ∈ ls, CountFits l))
  | multiPolygon ps =>
    inferInstanceAs (Decidable (CountFits ps ∧ ∀ p ∈ ps, RingsFit p.rings))
  | collection gs => @instDecidableAnd _ _ (inferInstanceAs (Decidable (CountFits gs)))
      (decidableAllFit gs)
  | point _ | line _ _ | rect _ _ | triangle _ _ _ => inferInstanceAs (Decidable True)

instance decidableAllFit : (gs : List Geometry) → Decidable (AllFit gs)
  | [] => inferInstanceAs (Decidable True)
  | g :: gs => @instDecidableAnd _ _ (decidableFits g) (decidableAllFit gs)

end

mutual

/-- The polygons at any level. -/
def polygons : Geometry → List Polygon
  | polygon p => [p]
  | multiPolygon ps => ps
  | collection gs => allPolygons gs
  | _ => []

def allPolygons : List Geometry → List Polygon
  | [] => []
  | g :: gs => g.polygons ++ allPolygons gs

end

mutual

/-- The tree that is written for a geometry. -/
def tree : Geometry → Wkb.Tree
  | point c => .point ⟨.little, c⟩
  | line a b => .lineString ⟨.little, [a, b]⟩
  | lineString cs => .lineString ⟨.little, cs⟩
  | polygon p => .polygon ⟨.little, p.written⟩
  | multiPoint cs => .multiPoint ⟨.little, cs.map (.mk .little)⟩
  | multiLineString ls => .multiLineString ⟨.little, ls.map (.mk .little)⟩
  | multiPolygon ps => .multiPolygon ⟨.little, ps.map fun p => ⟨.little, p.written⟩⟩
  | collection gs => .collection .little (trees gs)
  | rect low high => .polygon ⟨.little, (rectPolygon low high).written⟩
  | triangle a b c => .polygon ⟨.little, (trianglePolygon a b c).written⟩

def trees : List Geometry → List Wkb.Tree
  | [] => []
  | g :: gs => g.tree :: trees gs

end

theorem length_trees (gs : List Geometry) : (trees gs).length = gs.length := by
  induction gs with
  | nil => rfl
  | cons g gs ih => rw [trees, List.length_cons, List.length_cons, ih]

theorem length_normalAll (gs : List Geometry) : (normalAll gs).length = gs.length := by
  induction gs with
  | nil => rfl
  | cons g gs ih => rw [normalAll, List.length_cons, List.length_cons, ih]

mutual

theorem bytes_tree : ∀ g : Geometry, g.tree.bytes = Wkb.write g
  | point _ | line _ _ | lineString _ => rfl
  | polygon p => by rw [Wkb.write, Wkb.polygonBytes_eq]; rfl
  | rect low high => by rw [Wkb.write, Wkb.polygonBytes_eq]; rfl
  | triangle a b c => by rw [Wkb.write, Wkb.polygonBytes_eq]; rfl
  | multiPoint cs => by
    rw [tree, Wkb.Tree.bytes, Wkb.Tree.body, Wkb.Endian.counted, List.length_map, List.flatMap_map,
      Wkb.write, List.append_assoc]
    rfl
  | multiLineString ls => by
    rw [tree, Wkb.Tree.bytes, Wkb.Tree.body, Wkb.Endian.counted, List.length_map, List.flatMap_map,
      Wkb.write, List.append_assoc]
    rfl
  | multiPolygon ps => by
    simp only [Wkb.write, Wkb.polygonBytes_eq]
    rw [tree, Wkb.Tree.bytes, Wkb.Tree.body, Wkb.Endian.counted, List.length_map, List.flatMap_map,
      List.append_assoc]
    rfl
  | collection gs => by
    rw [tree, Wkb.Tree.bytes, Wkb.Tree.body, bodies_trees gs, length_trees, Wkb.write,
      List.append_assoc]
    rfl

theorem bodies_trees : ∀ gs : List Geometry, Wkb.Tree.bodies (trees gs) = Wkb.writeAll gs
  | [] => rfl
  | g :: gs => by
    have head := bytes_tree g
    rw [trees, Wkb.Tree.bodies, Wkb.writeAll, bodies_trees gs, ← head, Wkb.Tree.bytes]

end

mutual

theorem levels_tree : ∀ g : Geometry, g.tree.levels = g.normal.levels
  | point _ | line _ _ | lineString _ | polygon _ | rect _ _ | triangle _ _ _ => rfl
  | multiPoint cs => by simp [tree, normal, levels, Wkb.Tree.levels]
  | multiLineString ls => by simp [tree, normal, levels, Wkb.Tree.levels]
  | multiPolygon ps => by simp [tree, normal, levels, Wkb.Tree.levels]
  | collection gs => levelsBelow_trees gs

theorem levelsBelow_trees : ∀ gs : List Geometry,
    Wkb.Tree.levelsBelow (trees gs) = levelsBelow (normalAll gs)
  | [] => rfl
  | g :: gs => by
    rw [trees, normalAll, levelsBelow, Wkb.Tree.levelsBelow, levels_tree g, levelsBelow_trees gs]

end

mutual

theorem fits_tree : ∀ g : Geometry, g.normal.Fits → g.tree.Fits
  | point _, _ => trivial
  | line _ _, h => h
  | lineString _, h => h
  | polygon p, h => RingsFit.written h
  | rect _ _, h => RingsFit.written h
  | triangle _ _ _, h => RingsFit.written h
  | multiPoint cs, h => by simpa [tree, Wkb.Tree.Fits, CountFits, normal, Fits] using h
  | multiLineString ls, h => by
    simpa [tree, Wkb.Tree.Fits, CountFits, normal, Fits] using h
  | multiPolygon ps, h => by
    obtain ⟨count, rings⟩ := h
    refine ⟨by simpa [CountFits] using count, fun m hm => ?_⟩
    obtain ⟨p, hp, rfl⟩ := List.mem_map.1 hm
    exact (rings p hp).written
  | collection gs, h => by
    obtain ⟨count, members⟩ := h
    rw [CountFits, length_normalAll] at count
    refine ⟨?_, allFit_trees gs members⟩
    rwa [CountFits, length_trees]

theorem allFit_trees : ∀ gs : List Geometry, AllFit (normalAll gs) → Wkb.Tree.AllFit (trees gs)
  | [], _ => trivial
  | g :: gs, h => ⟨fits_tree g h.1, allFit_trees gs h.2⟩

end

mutual

theorem geometry_tree : ∀ g : Geometry,
    (∀ p ∈ g.normal.polygons, ∀ r ∈ p.rings, StartsWithNumbers r) → g.tree.geometry = g.normal
  | point _, _ => rfl
  | line _ _, _ => rfl
  | lineString _, _ => rfl
  | polygon _, h => congrArg polygon (Polygon.ofRings_written (h _ List.mem_cons_self))
  | rect _ _, h => congrArg polygon (Polygon.ofRings_written (h _ List.mem_cons_self))
  | triangle _ _ _, h => congrArg polygon (Polygon.ofRings_written (h _ List.mem_cons_self))
  | multiPoint cs, _ => by simp [tree, normal, Wkb.Tree.geometry, Function.comp_def]
  | multiLineString ls, _ => by simp [tree, normal, Wkb.Tree.geometry, Function.comp_def]
  | multiPolygon ps, h => by
    have same : (ps.map fun p => Polygon.ofRings p.written) = ps :=
      (List.map_congr_left fun p hp => Polygon.ofRings_written (h p hp)).trans (List.map_id ps)
    simpa [tree, normal, Wkb.Tree.geometry, Function.comp_def] using same
  | collection gs, h => congrArg collection (geometries_trees gs h)

theorem geometries_trees : ∀ gs : List Geometry,
    (∀ p ∈ allPolygons (normalAll gs), ∀ r ∈ p.rings, StartsWithNumbers r) →
      Wkb.Tree.geometries (trees gs) = normalAll gs
  | [], _ => rfl
  | g :: gs, h => by
    obtain ⟨first, rest⟩ := List.forall_mem_append.1 h
    rw [trees, Wkb.Tree.geometries, geometry_tree g first, geometries_trees gs rest, normalAll]

end

end Geometry

/-- A polygon without an exterior, a negative zero, and members of four kinds at two depths. -/
def Geometry.mixture : Geometry :=
  let c : Coord := ⟨⟨0⟩, ⟨0x8000000000000000⟩⟩
  let d : Coord := ⟨⟨0x3ff0000000000000⟩, ⟨0⟩⟩
  let hollow : Polygon := ⟨Ring.close [], [Ring.close [c, d]]⟩
  .collection [.line c d, .multiPolygon [hollow], .collection [], .collection [.rect c d]]

/-- What is written is read as the normal form, coordinates bit for bit. The geometries must not nest
deeper than reading goes, their counts must fit in 32 bits, and no ring may start with NaN, as such
a ring never counts as closed. The factory of geometries keeps the reference system besides. -/
theorem Wkb.read_write (g : Geometry) (deep : g.normal.levels ≤ 64) (fits : g.normal.Fits)
    (rings : ∀ p ∈ g.normal.polygons, ∀ r ∈ p.rings, StartsWithNumbers r) :
    Wkb.read (Wkb.write g) = .ok g.normal ∧
      ∀ crs, ∃ s, ValueFactory.geometry.encode (.geometry ⟨g, crs⟩) = .ok s ∧
        ValueFactory.geometry.decode s = .ok (.geometry ⟨g.normal, crs⟩) := by
  have back : Wkb.read (Wkb.write g) = .ok g.normal := by
    rw [← g.bytes_tree, ← g.geometry_tree rings]
    refine Wkb.read_tree (g.fits_tree fits) ?_
    rwa [g.levels_tree]
  refine ⟨back, fun crs => ⟨_, rfl, ?_⟩⟩
  have decoded : ValueFactory.geometry.decode (.struct [.blob (Wkb.write g), .string crs]) =
      (do
        let g ← (Wkb.read (Wkb.write g)).mapError ConversionError.wkb
        return .geometry ⟨g, crs⟩) := rfl
  dsimp only
  rw [decoded, back]
  rfl

theorem Wkb.read_write_mixture :
    Wkb.read (Wkb.write Geometry.mixture) = .ok Geometry.mixture.normal ∧
      ∀ crs, ∃ s, ValueFactory.geometry.encode (.geometry ⟨Geometry.mixture, crs⟩) = .ok s ∧
        ValueFactory.geometry.decode s = .ok (.geometry ⟨Geometry.mixture.normal, crs⟩) :=
  Wkb.read_write Geometry.mixture (by decide) (by decide) (by decide)

end LogicalTable
