/-
  SniLua.Render.Viewport

  Screen geometry in exact arithmetic, and the transform from the script's canvas to
  the screen and back.

  `Letterbox` is what a fitted rectangle is for: it has the shape of the canvas, sits
  in the middle of its area and is as large as the area allows.
-/

import SniLua.Lib.Letterbox
import Mathlib.Algebra.Order.Field.Rat
import Mathlib.Tactic.FieldSimp
import Mathlib.Tactic.Linarith
import Mathlib.Tactic.Ring

namespace SniLua
namespace Render

open Lib

-- ============================================================================
-- Rectangles
-- ============================================================================

structure Pos2 where
  x : ℚ
  y : ℚ
deriving DecidableEq

/-- A screen rectangle by its corner and its size. -/
structure Rect where
  min : Pos2
  w : ℚ
  h : ℚ
deriving DecidableEq

namespace Rect

def fromMinMax (min max : Pos2) : Rect := { min, w := max.x - min.x, h := max.y - min.y }

/-- Every point of `r` is a point of `q`. -/
def Inside (r q : Rect) : Prop :=
  q.min.x ≤ r.min.x ∧ r.min.x + r.w ≤ q.min.x + q.w ∧
    q.min.y ≤ r.min.y ∧ r.min.y + r.h ≤ q.min.y + q.h

/-- The rectangle with a margin of `d` on each side. -/
def grow (r : Rect) (d : ℚ) : Rect :=
  { min := { x := r.min.x - d, y := r.min.y - d }, w := r.w + 2 * d, h := r.h + 2 * d }

theorem Inside.trans {r q p : Rect} (h₁ : r.Inside q) (h₂ : q.Inside p) : r.Inside p := by
  simp only [Inside] at h₁ h₂ ⊢
  refine ⟨?_, ?_, ?_, ?_⟩ <;> linarith

/-- The rectangle in units of which the old ones hold `sx` and `sy`. -/
def scaled (r : Rect) (sx sy : ℚ) : Rect :=
  { min := { x := r.min.x * sx, y := r.min.y * sy }, w := r.w * sx, h := r.h * sy }

/-- Inside the unit square, seen in another unit. -/
theorem inside_unit_of_scaled {r : Rect} {sx sy : ℚ} (hsx : 0 < sx) (hsy : 0 < sy)
    (h : (r.scaled sx sy).Inside ⟨⟨0, 0⟩, sx, sy⟩) : r.Inside ⟨⟨0, 0⟩, 1, 1⟩ := by
  obtain ⟨hx, hxw, hy, hyh⟩ := h
  refine ⟨?_, ?_, ?_, ?_⟩
  · exact nonneg_of_mul_nonneg_left hx hsx
  · refine le_of_mul_le_mul_right ?_ hsx
    simpa [scaled, add_mul] using hxw
  · exact nonneg_of_mul_nonneg_left hy hsy
  · refine le_of_mul_le_mul_right ?_ hsy
    simpa [scaled, add_mul] using hyh

/-- The point lies in the rectangle or on its edge. -/
def Contains (r : Rect) (p : Pos2) : Prop :=
  r.min.x ≤ p.x ∧ p.x ≤ r.min.x + r.w ∧ r.min.y ≤ p.y ∧ p.y ≤ r.min.y + r.h

def center (r : Rect) : Pos2 := { x := r.min.x + r.w / 2, y := r.min.y + r.h / 2 }

/-- The rectangle of this size with the same centre. -/
def centred (r : Rect) (w h : ℚ) : Rect :=
  { min := { x := r.min.x + (r.w - w) / 2, y := r.min.y + (r.h - h) / 2 }, w, h }

@[simp] theorem centred_self (r : Rect) : r.centred r.w r.h = r := by
  simp [centred]

theorem center_centred (r : Rect) (w h : ℚ) : (r.centred w h).center = r.center := by
  simp only [centred, center, Pos2.mk.injEq]
  constructor <;> ring

theorem centred_inside {r : Rect} {w h : ℚ} (hw : w ≤ r.w) (hh : h ≤ r.h) :
    (r.centred w h).Inside r := by
  simp only [Inside, centred]
  refine ⟨?_, ?_, ?_, ?_⟩ <;> linarith

end Rect

-- ============================================================================
-- Canvases
-- ============================================================================

/-- The size of a script coordinate space. -/
structure CanvasSize where
  w : ℚ
  h : ℚ
deriving DecidableEq

/-- SNES pixels for each canvas pixel on the x axis. -/
def CanvasSize.snesRatio (c : CanvasSize) : ℚ := 256 / c.w

/-- The point is one of the canvas. -/
def CanvasSize.Contains (c : CanvasSize) (x y : ℚ) : Prop := 0 ≤ x ∧ x ≤ c.w ∧ 0 ≤ y ∧ y ≤ c.h

/-- `r` is the letterbox of a canvas in an area. -/
structure Letterbox (area r : Rect) (c : CanvasSize) : Prop where
  inside : r.Inside area
  center : r.center = area.center
  aspect : r.w / r.h = c.w / c.h
  /-- It fills the area on one axis. -/
  fills : (r.min.x = area.min.x ∧ r.w = area.w) ∨ (r.min.y = area.min.y ∧ r.h = area.h)

/-- Two letterboxes of one canvas have the same shape. -/
theorem Letterbox.div_eq_div {area area' r r' : Rect} {c : CanvasSize} (h : Letterbox area r c)
    (h' : Letterbox area' r' c) (hr : 0 < r.h) (hr' : 0 < r'.h) (hw : 0 < r'.w) :
    r.w / r'.w = r.h / r'.h := by
  have hshape := h.aspect.trans h'.aspect.symm
  rw [div_eq_div_iff hr.ne' hr'.ne'] at hshape
  rw [div_eq_div_iff hw.ne' hr'.ne', hshape, mul_comm]

/-- Scaling a canvas as far as the area allows makes a letterbox. -/
theorem letterbox_centred {area : Rect} {c : CanvasSize} (haw : 0 < area.w) (hah : 0 < area.h)
    (hcw : 0 < c.w) (hch : 0 < c.h) :
    let scale := fitScale area.w area.h c.w c.h
    Letterbox area (area.centred (c.w * scale) (c.h * scale)) c := by
  intro scale
  have hscale : 0 < scale := fitScale_pos haw hah hcw hch
  refine ⟨?_, area.center_centred _ _, mul_div_mul_right _ _ hscale.ne', ?_⟩
  · exact Rect.centred_inside (mul_fitScale_le_width hcw) (mul_fitScale_le_height hch)
  · rcases mul_fitScale_fills (W := area.w) (H := area.h) hcw hch with hw | hh
    · left
      simp [Rect.centred, scale, hw]
    · right
      simp [Rect.centred, scale, hh]

-- ============================================================================
-- Viewports
-- ============================================================================

structure Viewport where
  origin : Pos2
  /-- Screen pixels for each canvas pixel. -/
  scale : ℚ
  canvas : CanvasSize

namespace Viewport

/-- Fit `canvas` inside `area`, preserving aspect ratio. -/
def fit (area : Rect) (canvas : CanvasSize) : Viewport :=
  let scale := min (area.w / canvas.w) (area.h / canvas.h)
  let w := canvas.w * scale
  let h := canvas.h * scale
  { origin := { x := area.center.x - w * (1 / 2), y := area.center.y - h * (1 / 2) }
    scale
    canvas }

/-- The screen rectangle the canvas occupies. -/
def screenRect (vp : Viewport) : Rect :=
  { min := vp.origin, w := vp.canvas.w * vp.scale, h := vp.canvas.h * vp.scale }

/-- The screen point of a canvas point. -/
def pt (vp : Viewport) (x y : ℚ) : Pos2 :=
  { x := vp.origin.x + x * vp.scale, y := vp.origin.y + y * vp.scale }

def len (vp : Viewport) (v : ℚ) : ℚ := v * vp.scale

/-- The canvas point of a screen point, `none` outside the canvas. -/
def screenToCanvas (vp : Viewport) (p : Pos2) : Option (ℚ × ℚ) :=
  if vp.scale ≤ 0 then none
  else
    let x := (p.x - vp.origin.x) / vp.scale
    let y := (p.y - vp.origin.y) / vp.scale
    if x < 0 ∨ y < 0 ∨ vp.canvas.w < x ∨ vp.canvas.h < y then none else some (x, y)

theorem screenRect_fit (area : Rect) (canvas : CanvasSize) :
    let scale := fitScale area.w area.h canvas.w canvas.h
    (fit area canvas).screenRect = area.centred (canvas.w * scale) (canvas.h * scale) := by
  simp only [fit, screenRect, fitScale, Rect.centred, Rect.center, Rect.mk.injEq, Pos2.mk.injEq,
    and_true]
  constructor <;> ring

/-- The canvas is letterboxed in the area. -/
theorem letterbox_fit {area : Rect} {canvas : CanvasSize} (haw : 0 < area.w) (hah : 0 < area.h)
    (hcw : 0 < canvas.w) (hch : 0 < canvas.h) :
    Letterbox area (fit area canvas).screenRect canvas := by
  rw [screenRect_fit area canvas]
  exact letterbox_centred haw hah hcw hch

-- ============================================================================
-- There and back
-- ============================================================================

section Inverse

variable {vp : Viewport} (hscale : 0 < vp.scale)
include hscale

/-- The canvas and its rectangle on the screen have the same points. -/
theorem contains_pt_iff {x y : ℚ} :
    vp.screenRect.Contains (vp.pt x y) ↔ vp.canvas.Contains x y := by
  simp only [Rect.Contains, screenRect, pt, CanvasSize.Contains, le_add_iff_nonneg_right,
    add_le_add_iff_left, mul_nonneg_iff_of_pos_right hscale, mul_le_mul_iff_left₀ hscale]

/-- Every screen point is that of some point, on the canvas or off it. -/
theorem pt_sub_div (p : Pos2) :
    vp.pt ((p.x - vp.origin.x) / vp.scale) ((p.y - vp.origin.y) / vp.scale) = p := by
  rw [pt, div_mul_cancel₀ _ hscale.ne', div_mul_cancel₀ _ hscale.ne', add_sub_cancel,
    add_sub_cancel]

theorem screenToCanvas_eq_some_iff {p : Pos2} {q : ℚ × ℚ} :
    vp.screenToCanvas p = some q ↔ vp.canvas.Contains q.1 q.2 ∧ vp.pt q.1 q.2 = p := by
  obtain ⟨x, y⟩ := q
  rw [screenToCanvas, if_neg hscale.not_ge]
  constructor
  · intro h
    dsimp only at h
    split at h
    · cases h
    · rename_i hin
      obtain ⟨rfl, rfl⟩ := Prod.mk.inj (Option.some.inj h)
      simp only [not_or, not_lt] at hin
      obtain ⟨hx, hy, hxw, hyh⟩ := hin
      exact ⟨⟨hx, hxw, hy, hyh⟩, pt_sub_div hscale p⟩
  · rintro ⟨⟨hx, hxw, hy, hyh⟩, rfl⟩
    simp only [pt, add_sub_cancel_left, mul_div_cancel_right₀ _ hscale.ne']
    rw [if_neg]
    simp only [not_or, not_lt]
    exact ⟨hx, hy, hxw, hyh⟩

end Inverse

/-- **The viewport and its inverse.**  In every area of positive size, for every canvas
    of positive size: the canvas is letterboxed; every point of the canvas comes back
    from the screen; a screen point has a canvas point exactly when it lies in the
    rectangle of the canvas, and the canvas point is drawn where it lies. -/
theorem viewport_inverse {area : Rect} {canvas : CanvasSize} (haw : 0 < area.w)
    (hah : 0 < area.h) (hcw : 0 < canvas.w) (hch : 0 < canvas.h) :
    let vp := fit area canvas
    Letterbox area vp.screenRect canvas ∧
    (∀ x y, canvas.Contains x y → vp.screenToCanvas (vp.pt x y) = some (x, y)) ∧
    (∀ p, (∃ q, vp.screenToCanvas p = some q) ↔ vp.screenRect.Contains p) ∧
    ∀ p q, vp.screenToCanvas p = some q → vp.pt q.1 q.2 = p := by
  intro vp
  have hscale : 0 < vp.scale := fitScale_pos haw hah hcw hch
  refine ⟨letterbox_fit haw hah hcw hch, fun x y hxy => ?_, fun p => ⟨?_, fun hp => ?_⟩,
    fun p q hq => ?_⟩
  · exact (screenToCanvas_eq_some_iff hscale).mpr ⟨hxy, rfl⟩
  · rintro ⟨q, hq⟩
    obtain ⟨hin, rfl⟩ := (screenToCanvas_eq_some_iff hscale).mp hq
    exact (contains_pt_iff hscale).mpr hin
  · rw [← pt_sub_div hscale p, contains_pt_iff hscale] at hp
    exact ⟨(_, _), (screenToCanvas_eq_some_iff hscale).mpr ⟨hp, pt_sub_div hscale p⟩⟩
  · exact ((screenToCanvas_eq_some_iff hscale).mp hq).2

/-- The native canvas in a wide area. -/
theorem viewport_inverse_wide :
    let area : Rect := ⟨⟨0, 0⟩, 1024, 448⟩
    let vp := fit area ⟨256, 224⟩
    Letterbox area vp.screenRect ⟨256, 224⟩ ∧ vp.screenRect = ⟨⟨256, 0⟩, 512, 448⟩ ∧
      vp.screenToCanvas (vp.pt 10 20) = some (10, 20) := by
  have hpoint : CanvasSize.Contains ⟨256, 224⟩ 10 20 := by norm_num [CanvasSize.Contains]
  obtain ⟨hfit, hback, -⟩ := @viewport_inverse ⟨⟨0, 0⟩, 1024, 448⟩ ⟨256, 224⟩ (by norm_num)
    (by norm_num) (by norm_num) (by norm_num)
  refine ⟨hfit, ?_, hback 10 20 hpoint⟩
  norm_num [fit, screenRect, Rect.center]

end Viewport

end Render
end SniLua
