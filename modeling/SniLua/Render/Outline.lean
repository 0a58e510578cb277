/-
  SniLua.Render.Outline

  The polygons of path shapes, in canvas coordinates.

  `Geometry` is what the painter takes from elsewhere: the circle functions, the
  length of a vector, and the union and the triangulation of polygons.  A geometry
  that `Moves` treats polygons alike wherever they lie.
-/

import Mathlib.Algebra.Group.Prod
import Mathlib.Algebra.Order.Field.Rat
import Mathlib.Algebra.Order.Floor.Ring
import Mathlib.Data.Rat.Floor
import Mathlib.Tactic.Ring
import SniLua.Render.DrawList

namespace SniLua
namespace Render

-- ============================================================================
-- Polygons
-- ============================================================================

/-- A point of the canvas. -/
abbrev Coord := ℚ × ℚ

/-- The rings are closed: they end where they begin. -/
structure Polygon where
  exterior : List Coord
  interiors : List (List Coord)
deriving DecidableEq

abbrev MultiPolygon := List Polygon

/-- Corners, and three indices for each triangle. -/
structure Triangulation where
  vertices : List Coord
  triangleIndices : List Nat
deriving DecidableEq

def Polygon.translate (d : Coord) (p : Polygon) : Polygon where
  exterior := p.exterior.map (· + d)
  interiors := p.interiors.map fun ring => ring.map (· + d)

def Triangulation.translate (d : Coord) (t : Triangulation) : Triangulation where
  vertices := t.vertices.map (· + d)
  triangleIndices := t.triangleIndices

structure Geometry where
  pi : ℚ
  cos : ℚ → ℚ
  sin : ℚ → ℚ
  /-- `Vec2::length`. -/
  length : ℚ → ℚ → ℚ
  /-- `MultiPolygon::union`. -/
  union : MultiPolygon → MultiPolygon → MultiPolygon
  /-- `earcut_triangles_raw`. -/
  earcut : Polygon → Triangulation

/-- A moved polygon has the union and the triangulation of the polygon, moved. -/
structure Geometry.Moves (g : Geometry) : Prop where
  union : ∀ d p q,
    g.union (p.map (Polygon.translate d)) (q.map (Polygon.translate d)) =
      (g.union p q).map (Polygon.translate d)
  earcut : ∀ d p, g.earcut (p.translate d) = (g.earcut p).translate d

namespace Geometry

/-- A geometry for pictures of rectangles lying apart and of upright lines: no angle is
    asked for, and a rectangle is two triangles. -/
def upright : Geometry where
  pi := 355 / 113
  cos _ := 0
  sin _ := 0
  length x y := |x| + |y|
  union p q := p ++ q
  earcut p :=
    { vertices := p.exterior
      triangleIndices := if p.exterior.length = 5 then [3, 0, 1, 1, 2, 3] else [] }

theorem upright_moves : upright.Moves where
  union d p q := by simp only [upright, List.map_append]
  earcut d p := by simp only [upright, Triangulation.translate, Polygon.translate, List.length_map]

variable (g : Geometry)

def toRadians (deg : ℚ) : ℚ := deg * (g.pi / 180)

-- ============================================================================
-- Shapes
-- ============================================================================

def rectPolygon (x y w h : ℚ) : Polygon where
  exterior := [(x, y), (x + w, y), (x + w, y + h), (x, y + h), (x, y)]
  interiors := []

/-- The point of a circle at an angle. -/
def circlePoint (cx cy radius a : ℚ) : Coord := (cx + radius * g.cos a, cy + radius * g.sin a)

/-- The points of an arc, but for a point that repeats the one before it. -/
def appendArc (pts : List Coord) (cx cy radius startDeg endDeg : ℚ) (steps : Nat) : List Coord :=
  (List.range (steps + 1)).foldl (fun pts (i : Nat) =>
    let t : ℚ := i / steps
    let a := g.toRadians (startDeg + (endDeg - startDeg) * t)
    let next := g.circlePoint cx cy radius a
    if pts.getLast? = some next then pts else pts ++ [next]) pts

/-- The number of steps of a quarter of a rounded corner. -/
def cornerSteps (r : ℚ) : Nat := max 3 (min 12 ⌈r / 3⌉.toNat)

def roundRectPolygon (x y w h radius : ℚ) : Polygon :=
  let r := max 0 (min radius (min |w| |h| * (1 / 2)))
  if r ≤ 0 then rectPolygon x y w h
  else
    let steps := cornerSteps r
    let pts := [(x + r, y)]
    let pts := g.appendArc pts (x + w - r) (y + r) r (-90) 0 steps
    let pts := g.appendArc pts (x + w - r) (y + h - r) r 0 90 steps
    let pts := g.appendArc pts (x + r) (y + h - r) r 90 180 steps
    let pts := g.appendArc pts (x + r) (y + r) r 180 270 steps
    { exterior := pts ++ [(x + r, y)], interiors := [] }

def circlePolygon (x y radius : ℚ) : Polygon :=
  let steps := max 8 (min 64 ⌈|radius| / 3⌉.toNat)
  let pts := (List.range steps).map fun i : Nat =>
    let t : ℚ := i / steps
    g.circlePoint x y radius (t * (2 * g.pi))
  { exterior := pts ++ pts.head?.toList, interiors := [] }

def shapePolygon : PathPrimitive ℚ → Polygon
  | .rect x y w h => rectPolygon x y w h
  | .roundRect x y w h radius => g.roundRectPolygon x y w h radius
  | .circle x y radius => g.circlePolygon x y radius

/-- One round of the loop in `unionShapes`. -/
def addShape (cur : Option MultiPolygon) (shape : PathPrimitive ℚ) : Option MultiPolygon :=
  let next := [g.shapePolygon shape]
  match cur with
  | some cur => some (g.union cur next)
  | none => some next

def unionShapes (shapes : List (PathPrimitive ℚ)) : MultiPolygon :=
  (shapes.foldl g.addShape none).getD []

-- ============================================================================
-- Moved shapes
-- ============================================================================

variable (d : Coord)

theorem translate_rectPolygon (x y w h : ℚ) :
    rectPolygon (x + d.1) (y + d.2) w h = (rectPolygon x y w h).translate d := by
  simp only [rectPolygon, Polygon.translate, List.map_cons, List.map_nil, Prod.add_def,
    add_right_comm]

theorem translate_circlePoint (cx cy radius a : ℚ) :
    g.circlePoint (cx + d.1) (cy + d.2) radius a = g.circlePoint cx cy radius a + d := by
  simp only [circlePoint, Prod.add_def, add_right_comm]

/-- A moved point repeats the one before it when the point does. -/
theorem translate_appendArc (pts : List Coord) (cx cy radius startDeg endDeg : ℚ) (steps : Nat) :
    g.appendArc (pts.map (· + d)) (cx + d.1) (cy + d.2) radius startDeg endDeg steps =
      (g.appendArc pts cx cy radius startDeg endDeg steps).map (· + d) := by
  refine List.foldl_hom (List.map (· + d)) fun pts i => ?_
  simp only [translate_circlePoint, List.getLast?_map]
  generalize g.circlePoint cx cy radius _ = next
  have hlast : pts.getLast?.map (· + d) = some (next + d) ↔ pts.getLast? = some next := by
    simp
  simp only [hlast]
  split <;> simp

theorem translate_roundRectPolygon (x y w h radius : ℚ) :
    g.roundRectPolygon (x + d.1) (y + d.2) w h radius =
      (g.roundRectPolygon x y w h radius).translate d := by
  simp only [roundRectPolygon]
  set r := max 0 (min radius (min |w| |h| * (1 / 2)))
  split
  · exact translate_rectPolygon d x y w h
  · have hstart : [(x + d.1 + r, y + d.2)] = [(x + r, y)].map (· + d) := by
      simp only [List.map_cons, List.map_nil, Prod.add_def, add_right_comm]
    have hleft : x + d.1 + r = x + r + d.1 := add_right_comm x d.1 r
    have htop : y + d.2 + r = y + r + d.2 := add_right_comm y d.2 r
    have hright : x + d.1 + w - r = x + w - r + d.1 := by ring
    have hbottom : y + d.2 + h - r = y + h - r + d.2 := by ring
    rw [hstart, hright, htop, translate_appendArc, hbottom, translate_appendArc, hleft,
      translate_appendArc, translate_appendArc]
    simp only [Polygon.translate, List.map_append, List.map_cons, List.map_nil, Prod.add_def]

theorem translate_circlePolygon (x y radius : ℚ) :
    g.circlePolygon (x + d.1) (y + d.2) radius = (g.circlePolygon x y radius).translate d := by
  simp only [circlePolygon, translate_circlePoint, Polygon.translate, List.map_append, List.map_map,
    List.map_nil, Function.comp_def, List.head?_map]
  cases (List.range (max 8 (min 64 ⌈|radius| / 3⌉.toNat))).head? <;> rfl

theorem translate_shapePolygon (shape : PathPrimitive ℚ) :
    g.shapePolygon (shape.translate d) = (g.shapePolygon shape).translate d := by
  cases shape with
  | rect x y w h => exact translate_rectPolygon d x y w h
  | roundRect x y w h radius => exact g.translate_roundRectPolygon d x y w h radius
  | circle x y radius => exact g.translate_circlePolygon d x y radius

/-- The union of moved shapes is the union of the shapes, moved. -/
theorem translate_unionShapes (hg : g.Moves) (shapes : List (PathPrimitive ℚ)) :
    g.unionShapes (shapes.map (·.translate d)) =
      (g.unionShapes shapes).map (Polygon.translate d) := by
  have hfold : ∀ cur : Option MultiPolygon,
      (shapes.map (·.translate d)).foldl g.addShape (cur.map (List.map (Polygon.translate d))) =
        (shapes.foldl g.addShape cur).map (List.map (Polygon.translate d)) := by
    intro cur
    rw [List.foldl_map]
    refine List.foldl_hom (Option.map (List.map (Polygon.translate d))) fun cur shape => ?_
    cases cur <;> simp [addShape, translate_shapePolygon, ← hg.union]
  have hunion := hfold none
  rw [Option.map_none] at hunion
  rw [unionShapes, unionShapes, hunion]
  cases shapes.foldl g.addShape none <;> rfl

end Geometry

end Render
end SniLua
