/-
  SniLua.Render.Paint

  The painter: every command of a draw list as the shapes handed to egui, clipped to
  the canvas.

  Nothing is placed but by the transform of the viewport, so moved commands are the
  same shapes, moved on the screen.
-/

import SniLua.Render.Outline

namespace SniLua
namespace Render

-- ============================================================================
-- Shapes
-- ============================================================================

structure Stroke where
  width : ℚ
  color : Color32
deriving DecidableEq

structure Vertex where
  pos : Pos2
  color : Color32
deriving DecidableEq

structure Mesh where
  vertices : List Vertex
  indices : List Nat
deriving DecidableEq

/-- The shapes the painter hands over. -/
inductive Shape where
  | rect (rect : Rect) (rounding : ℚ) (fill : Color32) (stroke : Stroke)
  | rectFilled (rect : Rect) (rounding : ℚ) (fill : Color32)
  | shadow (rect : Rect) (rounding : ℚ) (offset : ℚ × ℚ) (blur spread : ℚ) (color : Color32)
  | lineSegment (p q : Pos2) (stroke : Stroke)
  | circleFilled (center : Pos2) (radius : ℚ) (fill : Color32)
  | circleStroke (center : Pos2) (radius : ℚ) (stroke : Stroke)
  | convexPolygon (points : List Pos2) (fill : Color32)
  | closedLine (points : List Pos2) (stroke : Stroke)
  | line (points : List Pos2) (stroke : Stroke)
  | mesh (mesh : Mesh)
deriving DecidableEq

/-- What is on the screen: the shapes, as far as they lie in `clip`. -/
structure Picture where
  clip : Rect
  shapes : List Shape
deriving DecidableEq

-- ============================================================================
-- Moved shapes
-- ============================================================================

def Pos2.translate (e : ℚ × ℚ) (p : Pos2) : Pos2 := { x := p.x + e.1, y := p.y + e.2 }

def Rect.translate (e : ℚ × ℚ) (r : Rect) : Rect := { r with min := r.min.translate e }

def Quad.translate (e : ℚ × ℚ) (q : Quad) : Quad := { q with rect := q.rect.translate e }

def Mesh.translate (e : ℚ × ℚ) (m : Mesh) : Mesh :=
  { m with vertices := m.vertices.map fun v => { v with pos := v.pos.translate e } }

/-- A shape, moved on the screen. -/
def Shape.translate (e : ℚ × ℚ) : Shape → Shape
  | .rect r rounding fill stroke => .rect (r.translate e) rounding fill stroke
  | .rectFilled r rounding fill => .rectFilled (r.translate e) rounding fill
  | .shadow r rounding offset blur spread color =>
      .shadow (r.translate e) rounding offset blur spread color
  | .lineSegment p q stroke => .lineSegment (p.translate e) (q.translate e) stroke
  | .circleFilled center radius fill => .circleFilled (center.translate e) radius fill
  | .circleStroke center radius stroke => .circleStroke (center.translate e) radius stroke
  | .convexPolygon points fill => .convexPolygon (points.map (Pos2.translate e)) fill
  | .closedLine points stroke => .closedLine (points.map (Pos2.translate e)) stroke
  | .line points stroke => .line (points.map (Pos2.translate e)) stroke
  | .mesh m => .mesh (m.translate e)

-- ============================================================================
-- Painting
-- ============================================================================

/-- `f32::EPSILON`. -/
def epsilon : ℚ := 1 / 2 ^ 23

/-- `Color32::TRANSPARENT`. -/
def Color32.transparent : Color32 := ⟨0, 0, 0, 0⟩

/-- One channel of a blend.  Only a negative number would be rounded another way than
    in the source. -/
def lerpChannel (lhs rhs : UInt8) (t : ℚ) : UInt8 :=
  let v : ℚ := lhs.toNat + ((rhs.toNat : ℚ) - lhs.toNat) * t
  UInt8.ofNat (max 0 (min (round v) 255)).toNat

section Paint

variable (egui : Egui) (g : Geometry) (vp : Viewport) (sizing : TextSizing)

def lerpColor (a b : Color) (t : ℚ) : Color32 :=
  egui.fromRgbaUnmultiplied (lerpChannel a.r b.r t) (lerpChannel a.g b.g t) (lerpChannel a.b b.b t)
    (lerpChannel a.a b.a t)

/-- An outline is at least a pixel wide. -/
def strokeOf (thickness : ℚ) (color : Color) : Stroke :=
  { width := max (vp.len thickness) 1, color := egui.col color }

def rounding (radius : ℚ) : ℚ := max radius 0

/-- The rectangle of a canvas rectangle. -/
def rectAt (x y w h : ℚ) : Rect := { min := vp.pt x y, w := vp.len w, h := vp.len h }

def paintShadow (rect : Rect) (radius : ℚ) (shadow : ShadowSpec ℚ) : Shape :=
  .shadow rect (rounding radius) (vp.len shadow.dx, vp.len shadow.dy) (vp.len shadow.blur)
    (vp.len shadow.spread) (egui.col shadow.color)

def paintRectShape (rect : Rect) (radius : ℚ) (fill : Option Color) (color : Color) (thickness : ℚ)
    (shadow : Option (ShadowSpec ℚ)) : List Shape :=
  (shadow.map (paintShadow egui vp rect radius)).toList ++
    [.rect rect (rounding radius) ((fill.map egui.col).getD .transparent)
      (strokeOf egui vp thickness color)]

/-- A line too short to have a direction is a dot. -/
def paintGradientLine (x1 y1 x2 y2 : ℚ) (start stop : Color) (thickness : ℚ) : Shape :=
  let p1 := vp.pt x1 y1
  let p2 := vp.pt x2 y2
  let dir := (p2.x - p1.x, p2.y - p1.y)
  let len := g.length dir.1 dir.2
  let th := max (vp.len thickness) 1
  if len ≤ epsilon then .circleFilled p1 (th * (1 / 2)) (egui.col start)
  else
    let n := (-dir.2 * (th * (1 / 2) / len), dir.1 * (th * (1 / 2) / len))
    .mesh
      { vertices :=
          [{ pos := p1.translate n, color := egui.col start },
            { pos := p1.translate (-n), color := egui.col start },
            { pos := p2.translate (-n), color := egui.col stop },
            { pos := p2.translate n, color := egui.col stop }]
        indices := [0, 1, 2, 0, 2, 3] }

/-- The coordinate a gradient runs along. -/
def gradientAxis (vertical : Bool) (c : Coord) : ℚ := if vertical then c.2 else c.1

/-- How far along the gradient a coordinate is, from 0 to 1. -/
def gradientPlace (coords : List ℚ) (v : ℚ) : ℚ :=
  let lo := coords.min?.getD 0
  let hi := coords.max?.getD 0
  let span := max (hi - lo) epsilon
  max 0 (min ((v - lo) / span) 1)

/-- A filled polygon, `none` when it has no triangles. -/
def polygonMesh (polygon : Polygon) (start stop : Color) (vertical : Bool) : Option Mesh :=
  let raw := g.earcut polygon
  if raw.vertices = [] ∨ raw.triangleIndices = [] then none
  else
    let coords := raw.vertices.map (gradientAxis vertical)
    some
      { vertices := raw.vertices.map fun c =>
          { pos := vp.pt c.1 c.2
            color := lerpColor egui start stop (gradientPlace coords (gradientAxis vertical c)) }
        indices := raw.triangleIndices }

/-- The points of a ring, the one that closes it left out. -/
def ringPoints (ring : List Coord) : List Pos2 := ring.dropLast.map fun c => vp.pt c.1 c.2

def paintPolygonOutline (polygon : Polygon) (stroke : Stroke) : List Shape :=
  (polygon.exterior :: polygon.interiors).filterMap fun ring =>
    if 2 ≤ (ringPoints vp ring).length then some (.closedLine (ringPoints vp ring) stroke) else none

/-- A wide or a large arc takes more steps. -/
def arcSteps (startDeg endDeg r : ℚ) : Nat :=
  min (max (max 2 (min ⌈|endDeg - startDeg| / 6⌉.toNat 180)) ⌊r / 8⌋.toNat) 360

/-- The shapes of a command. -/
def paintCmd : DrawCmd ℚ → List Shape
  | .text x y text color scale font bg outline align valign =>
      (paintText egui vp { x, y, text, color, scale, font, bg, outline, align, valign } sizing).map
        fun q => .rectFilled q.rect 0 q.color
  | .rect x y w h color fill thickness shadow =>
      paintRectShape egui vp (rectAt vp x y w h) 0 fill color thickness shadow
  | .roundRect x y w h radius color fill thickness shadow =>
      paintRectShape egui vp (rectAt vp x y w h) (vp.len radius) fill color thickness shadow
  | .line x1 y1 x2 y2 color thickness =>
      [.lineSegment (vp.pt x1 y1) (vp.pt x2 y2) (strokeOf egui vp thickness color)]
  | .pixel x y color =>
      let size := max vp.scale 1
      [.rectFilled { min := vp.pt x y, w := size, h := size } 0 (egui.col color)]
  | .circle x y radius color fill thickness =>
      (fill.map fun f => .circleFilled (vp.pt x y) (vp.len radius) (egui.col f)).toList ++
        [.circleStroke (vp.pt x y) (vp.len radius) (strokeOf egui vp thickness color)]
  | .triangle x1 y1 x2 y2 x3 y3 color fill thickness =>
      let p := [vp.pt x1 y1, vp.pt x2 y2, vp.pt x3 y3]
      (fill.map fun f => .convexPolygon p (egui.col f)).toList ++
        [.closedLine p (strokeOf egui vp thickness color)]
  | .poly points closed color fill thickness =>
      let p := points.map fun c => vp.pt c.1 c.2
      if points.length < 2 then []
      else if closed then
        (fill.map fun f => .convexPolygon p (egui.col f)).toList ++
          [.closedLine p (strokeOf egui vp thickness color)]
      else [.line p (strokeOf egui vp thickness color)]
  | .gradientLine x1 y1 x2 y2 start stop thickness =>
      [paintGradientLine egui g vp x1 y1 x2 y2 start stop thickness]
  | .gradientRect x y w h radius start stop vertical shadow =>
      let poly := if 0 < radius then g.roundRectPolygon x y w h radius
        else Geometry.rectPolygon x y w h
      (shadow.map (paintShadow egui vp (rectAt vp x y w h) (vp.len radius))).toList ++
        ((polygonMesh egui g vp poly start stop vertical).map .mesh).toList
  | .path shapes color fill thickness =>
      let union := g.unionShapes shapes
      (match fill with
        | some f => union.filterMap fun poly => (polygonMesh egui g vp poly f f false).map .mesh
        | none => []) ++
      (match color with
        | some c => union.flatMap fun poly =>
            paintPolygonOutline vp poly (strokeOf egui vp thickness c)
        | none => [])
  | .arc x y radius startDeg endDeg color fill thickness =>
      let centre := vp.pt x y
      let r := vp.len radius
      let steps := arcSteps startDeg endDeg r
      let pts := (List.range (steps + 1)).map fun i : Nat =>
        let a := g.toRadians (startDeg + (endDeg - startDeg) * ((i : ℚ) / steps))
        centre.translate (r * g.cos a, r * g.sin a)
      (fill.map fun f => .convexPolygon (centre :: pts) (egui.col f)).toList ++
        [.line pts (strokeOf egui vp thickness color)]

def paint (list : DrawList ℚ) : Picture where
  clip := vp.screenRect
  shapes := list.flatMap (paintCmd egui g vp sizing)

end Paint

-- ============================================================================
-- Moved text
-- ============================================================================

section Text

variable (px : ℚ) (e : ℚ × ℚ)

theorem translate_rowQuads (width : Nat) (penX ry : ℚ) (bits : UInt8) (paint : Color32) :
    rowQuads px width (penX + e.1) (ry + e.2) bits paint =
      (rowQuads px width penX ry bits paint).map (Quad.translate e) := by
  rw [rowQuads, rowQuads, List.map_filterMap]
  refine List.filterMap_congr fun bit _ => ?_
  split
  · simp [Quad.translate, Rect.translate, Pos2.translate, add_right_comm]
  · rfl

theorem translate_glyphQuads (font : Font) (pen : Pos2) (paint : Color32) (ch : Char) :
    glyphQuads px font (pen.translate e) paint ch =
      (glyphQuads px font pen paint ch).map (Quad.translate e) := by
  rw [glyphQuads, glyphQuads, List.map_flatMap]
  refine List.flatMap_congr fun row _ => ?_
  simp only [Pos2.translate]
  split
  · rfl
  · rw [add_right_comm, translate_rowQuads]

theorem translate_layChars (font : Font) (left : ℚ) (pen : Pos2) (paint : Color32)
    (chars : List Char) :
    layChars px font (left + e.1) (pen.translate e) paint chars =
      (layChars px font left pen paint chars).map (Quad.translate e) := by
  induction chars generalizing pen with
  | nil => rfl
  | cons ch chars ih =>
      rw [layChars, layChars]
      split
      · rw [← ih]
        simp only [Pos2.translate, add_right_comm]
      · rw [List.map_append, ← ih, translate_glyphQuads]
        simp only [Pos2.translate, add_right_comm]

theorem translate_lay (origin : Pos2) (t : TextCmd) (dx dy : ℚ) (paint : Color32) :
    lay px (origin.translate e) t dx dy paint =
      (lay px origin t dx dy paint).map (Quad.translate e) := by
  rw [lay, lay, ← translate_layChars]
  simp only [Pos2.translate, add_right_comm]

theorem translate_textBox (anchor : Pos2) (t : TextCmd) :
    textBox px (anchor.translate e) t = (textBox px anchor t).translate e := by
  simp only [textBox, Rect.translate, Pos2.translate, sub_add_eq_add_sub]

theorem translate_paintTextPx (egui : Egui) (anchor : Pos2) (t : TextCmd) :
    paintTextPx px egui (anchor.translate e) t =
      (paintTextPx px egui anchor t).map (Quad.translate e) := by
  have hbacking : ∀ box : Rect, backing px egui (box.translate e) t =
      (backing px egui box t).map (Quad.translate e) := by
    intro box
    rw [backing, backing]
    split
    · split
      · simp [Quad.translate, Rect.translate, Rect.grow, Pos2.translate, sub_add_eq_add_sub]
      · rfl
    · rfl
  have houtline : ∀ origin : Pos2, outlineQuads px egui (origin.translate e) t =
      (outlineQuads px egui origin t).map (Quad.translate e) := by
    intro origin
    rw [outlineQuads, outlineQuads]
    split
    · simp only [translate_lay, List.map_flatMap]
    · rfl
  simp only [paintTextPx, translate_textBox, List.map_append, ← hbacking, ← houtline,
    ← translate_lay]
  rfl

end Text

-- ============================================================================
-- Moved commands
-- ============================================================================

/-- A vector of the canvas on the screen. -/
def Viewport.vec (vp : Viewport) (d : ℚ × ℚ) : ℚ × ℚ := (vp.len d.1, vp.len d.2)

section Moved

variable (egui : Egui) (g : Geometry) (vp : Viewport) (sizing : TextSizing) (d : ℚ × ℚ)

theorem translate_pt (x y : ℚ) :
    vp.pt (x + d.1) (y + d.2) = (vp.pt x y).translate (vp.vec d) := by
  simp only [Viewport.pt, Viewport.vec, Viewport.len, Pos2.translate, add_mul, add_assoc]

theorem translate_rectAt (x y w h : ℚ) :
    rectAt vp (x + d.1) (y + d.2) w h = (rectAt vp x y w h).translate (vp.vec d) := by
  simp only [rectAt, translate_pt, Rect.translate]

theorem translate_points (points : List (ℚ × ℚ)) :
    ((points.map (· + d)).map fun c => vp.pt c.1 c.2) =
      (points.map fun c => vp.pt c.1 c.2).map (Pos2.translate (vp.vec d)) := by
  simp only [List.map_map, Function.comp_def, Prod.fst_add, Prod.snd_add, translate_pt]

theorem translate_translate (p : Pos2) (e f : ℚ × ℚ) :
    (p.translate e).translate f = (p.translate f).translate e := by
  simp only [Pos2.translate, add_right_comm]

/-- Where a text is, is read at its anchor only. -/
theorem translate_paintText (t : TextCmd) :
    paintText egui vp { t with x := t.x + d.1, y := t.y + d.2 } sizing =
      (paintText egui vp t sizing).map (Quad.translate (vp.vec d)) := by
  rw [paintText, paintText, ← translate_paintTextPx, ← translate_pt]
  rfl

theorem translate_paintRectShape (rect : Rect) (radius : ℚ) (fill : Option Color) (color : Color)
    (thickness : ℚ) (shadow : Option (ShadowSpec ℚ)) (e : ℚ × ℚ) :
    paintRectShape egui vp (rect.translate e) radius fill color thickness shadow =
      (paintRectShape egui vp rect radius fill color thickness shadow).map (Shape.translate e) := by
  cases shadow <;> simp [paintRectShape, paintShadow, Shape.translate]

theorem translate_paintGradientLine (x1 y1 x2 y2 : ℚ) (start stop : Color) (thickness : ℚ) :
    paintGradientLine egui g vp (x1 + d.1) (y1 + d.2) (x2 + d.1) (y2 + d.2) start stop thickness =
      (paintGradientLine egui g vp x1 y1 x2 y2 start stop thickness).translate (vp.vec d) := by
  have hx : ∀ p q : Pos2,
      (q.translate (vp.vec d)).x - (p.translate (vp.vec d)).x = q.x - p.x := fun p q =>
    add_sub_add_right_eq_sub _ _ _
  have hy : ∀ p q : Pos2,
      (q.translate (vp.vec d)).y - (p.translate (vp.vec d)).y = q.y - p.y := fun p q =>
    add_sub_add_right_eq_sub _ _ _
  simp only [paintGradientLine, translate_pt, hx, hy]
  split
  · rfl
  · simp [Shape.translate, Mesh.translate, translate_translate _ (vp.vec d)]

theorem min?_map_add (x : ℚ) (xs : List ℚ) (k : ℚ) :
    ((x :: xs).map (· + k)).min? = (x :: xs).min?.map (· + k) := by
  rw [List.map_cons, List.min?_cons', List.min?_cons', List.foldl_map, Option.map_some,
    List.foldl_hom (· + k) fun m v => min_add_add_right m v k]

theorem max?_map_add (x : ℚ) (xs : List ℚ) (k : ℚ) :
    ((x :: xs).map (· + k)).max? = (x :: xs).max?.map (· + k) := by
  rw [List.map_cons, List.max?_cons', List.max?_cons', List.foldl_map, Option.map_some,
    List.foldl_hom (· + k) fun m v => max_add_add_right m v k]

/-- A gradient runs along its polygon, wherever that lies. -/
theorem gradientPlace_add {coords : List ℚ} (hcoords : coords ≠ []) (v k : ℚ) :
    gradientPlace (coords.map (· + k)) (v + k) = gradientPlace coords v := by
  obtain ⟨x, xs, rfl⟩ := List.exists_cons_of_ne_nil hcoords
  obtain ⟨lo, hlo⟩ : ∃ lo, (x :: xs).min? = some lo := ⟨_, List.min?_cons'⟩
  obtain ⟨hi, hhi⟩ : ∃ hi, (x :: xs).max? = some hi := ⟨_, List.max?_cons'⟩
  simp only [gradientPlace, min?_map_add, max?_map_add, hlo, hhi, Option.map_some,
    Option.getD_some, add_sub_add_right_eq_sub]

theorem translate_polygonMesh (hg : g.Moves) (polygon : Polygon) (start stop : Color)
    (vertical : Bool) :
    polygonMesh egui g vp (polygon.translate d) start stop vertical =
      (polygonMesh egui g vp polygon start stop vertical).map (Mesh.translate (vp.vec d)) := by
  simp only [polygonMesh, hg.earcut, Triangulation.translate, List.map_eq_nil_iff]
  generalize g.earcut polygon = raw
  split
  · rfl
  · rename_i hraw
    have hne : raw.vertices.map (gradientAxis vertical) ≠ [] := by
      simpa using fun hnil => hraw (.inl hnil)
    have haxis : ∀ c : Coord, gradientAxis vertical (c + d) =
        gradientAxis vertical c + gradientAxis vertical d := by
      intro c
      cases vertical <;> rfl
    have hplace : ∀ c : Coord,
        gradientPlace (raw.vertices.map fun x => gradientAxis vertical x + gradientAxis vertical d)
          (gradientAxis vertical c + gradientAxis vertical d) =
        gradientPlace (raw.vertices.map (gradientAxis vertical)) (gradientAxis vertical c) := by
      intro c
      rw [← gradientPlace_add hne _ (gradientAxis vertical d), List.map_map, Function.comp_def]
    simp only [Option.map_some, Mesh.translate, List.map_map, Function.comp_def, haxis, hplace,
      Prod.fst_add, Prod.snd_add, translate_pt]

theorem translate_paintPolygonOutline (polygon : Polygon) (stroke : Stroke) :
    paintPolygonOutline vp (polygon.translate d) stroke =
      (paintPolygonOutline vp polygon stroke).map (Shape.translate (vp.vec d)) := by
  have hring : ∀ ring : List Coord, ringPoints vp (ring.map (· + d)) =
      (ringPoints vp ring).map (Pos2.translate (vp.vec d)) := by
    intro ring
    rw [ringPoints, ringPoints, ← List.map_dropLast, translate_points]
  have hrings : (polygon.translate d).exterior :: (polygon.translate d).interiors =
      (polygon.exterior :: polygon.interiors).map (List.map (· + d)) := rfl
  rw [paintPolygonOutline, paintPolygonOutline, hrings, List.filterMap_map, List.map_filterMap]
  refine List.filterMap_congr fun ring _ => ?_
  simp only [Function.comp_apply, hring, List.length_map]
  split <;> rfl

/-- A moved command is painted as the command, moved. -/
theorem translate_paintCmd (hg : g.Moves) (cmd : DrawCmd ℚ) :
    paintCmd egui g vp sizing (cmd.translate d) =
      (paintCmd egui g vp sizing cmd).map (Shape.translate (vp.vec d)) := by
  cases cmd with
  | text x y text color scale font bg outline align valign =>
      simp only [DrawCmd.translate, paintCmd, List.map_map]
      rw [translate_paintText egui vp sizing d
        ⟨x, y, text, color, scale, font, bg, outline, align, valign⟩, List.map_map]
      rfl
  | rect x y w h color fill thickness shadow =>
      simp only [DrawCmd.translate, paintCmd, translate_rectAt, translate_paintRectShape]
  | roundRect x y w h radius color fill thickness shadow =>
      simp only [DrawCmd.translate, paintCmd, translate_rectAt, translate_paintRectShape]
  | line x1 y1 x2 y2 color thickness =>
      simp [DrawCmd.translate, paintCmd, translate_pt, Shape.translate]
  | pixel x y color =>
      simp [DrawCmd.translate, paintCmd, translate_pt, Shape.translate, Rect.translate]
  | circle x y radius color fill thickness =>
      cases fill <;> simp [DrawCmd.translate, paintCmd, translate_pt, Shape.translate]
  | triangle x1 y1 x2 y2 x3 y3 color fill thickness =>
      cases fill <;> simp [DrawCmd.translate, paintCmd, translate_pt, Shape.translate]
  | poly points closed color fill thickness =>
      simp only [DrawCmd.translate, paintCmd, translate_points, List.length_map]
      split
      · rfl
      · cases closed <;> cases fill <;> simp [Shape.translate]
  | gradientLine x1 y1 x2 y2 start stop thickness =>
      simp only [DrawCmd.translate, paintCmd, translate_paintGradientLine, List.map_cons,
        List.map_nil]
  | gradientRect x y w h radius start stop vertical shadow =>
      have hpoly : (if 0 < radius then g.roundRectPolygon (x + d.1) (y + d.2) w h radius
          else Geometry.rectPolygon (x + d.1) (y + d.2) w h) =
          (if 0 < radius then g.roundRectPolygon x y w h radius
            else Geometry.rectPolygon x y w h).translate d := by
        split
        · exact g.translate_roundRectPolygon d x y w h radius
        · exact Geometry.translate_rectPolygon d x y w h
      simp only [DrawCmd.translate, paintCmd, hpoly, translate_rectAt,
        translate_polygonMesh egui g vp d hg, List.map_append]
      congr 1
      · cases shadow <;> rfl
      · generalize polygonMesh egui g vp _ start stop vertical = mesh
        cases mesh <;> rfl
  | path shapes color fill thickness =>
      simp only [DrawCmd.translate, paintCmd, g.translate_unionShapes d hg, List.map_append]
      generalize g.unionShapes shapes = union
      congr 1
      · cases fill with
        | none => rfl
        | some f =>
            dsimp only
            rw [List.filterMap_map, List.map_filterMap]
            refine List.filterMap_congr fun poly _ => ?_
            rw [Function.comp_apply, translate_polygonMesh egui g vp d hg, Option.map_map,
              Option.map_map]
            rfl
      · cases color with
        | none => rfl
        | some c => simp only [List.flatMap_map, List.map_flatMap, translate_paintPolygonOutline]
  | arc x y radius startDeg endDeg color fill thickness =>
      cases fill <;>
        simp [DrawCmd.translate, paintCmd, translate_pt, Shape.translate, Function.comp_def,
          translate_translate _ (vp.vec d)]

/-- A moved list is the same picture, moved under the clip of the canvas. -/
theorem translate_paint (hg : g.Moves) (list : DrawList ℚ) :
    paint egui g vp sizing (list.map (DrawCmd.translate d)) =
      { clip := (paint egui g vp sizing list).clip
        shapes := (paint egui g vp sizing list).shapes.map (Shape.translate (vp.vec d)) } := by
  simp only [paint, List.flatMap_map, List.map_flatMap, translate_paintCmd egui g vp sizing d hg]

end Moved

end Render
end SniLua
