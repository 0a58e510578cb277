/-
  SniLua.LuaApi.Origin

  `gfx.push_origin` and `gfx.pop_origin`: a script draws a group in coordinates of its
  own and places it once.

  Calls that pop as many origins as they push, and none that is not their own, draw
  the same between a push and a pop as without, only moved, in the draw list and so on
  the screen.  Coordinates add up as they do without rounding, in any order.
-/

import Mathlib.Algebra.Group.Prod
import SniLua.Lib.Run
import SniLua.LuaApi.Gfx
import SniLua.Render.Paint

namespace SniLua
namespace LuaApi

open Lib Render

variable {F : Type}

-- ============================================================================
-- Balanced calls
-- ============================================================================

/-- How many origins of its own a list of calls has pushed, `none` when it pops one
    that is not. -/
def level (n : Nat) : GfxCall F → Option Nat
  | .pushOrigin .. => some (n + 1)
  | .popOrigin =>
      match n with
      | 0 => none
      | n + 1 => some n
  | _ => some n

/-- Every origin pushed is popped, and no other. -/
def Balanced (calls : List (GfxCall F)) : Prop := exec level 0 calls = some 0

instance (calls : List (GfxCall F)) : Decidable (Balanced calls) :=
  inferInstanceAs (Decidable (_ = _))

-- ============================================================================
-- Moved pens
-- ============================================================================

section Moved

variable [AddCommMonoid F]

/-- The second pen is the first one moved: below the `n` origins of the calls are the
    origins `a` of the one and `b` of the other. -/
structure Shifts (a b : List (F × F)) (d : F × F) (n : Nat) (p q : Pen F) : Prop where
  currentFont : q.currentFont = p.currentFont
  pathBuilder : q.pathBuilder = p.pathBuilder.map (·.translate d)
  originStack : ∃ own : List (F × F), own.length = n ∧ p.originStack = a ++ own ∧
    q.originStack = b ++ own.map (· + d)

variable {a b : List (F × F)} {d : F × F} {n n' : Nat} {p q : Pen F}

/-- The base is moved, and so is what is drawn on. -/
theorem Shifts.offset (h : Shifts a b d n p q)
    (hbase : b.getLast?.getD (0, 0) = a.getLast?.getD (0, 0) + d) : q.offset = p.offset + d := by
  obtain ⟨own, -, hp, hq⟩ := h.originStack
  rw [Pen.offset, Pen.offset, hp, hq]
  rcases List.eq_nil_or_concat own with rfl | ⟨own, o, rfl⟩
  · simpa using hbase
  · simp

/-- A pen without origins of its own draws on the base. -/
theorem Shifts.base (h : Shifts a b d 0 p q) : p.originStack = a ∧ q.originStack = b := by
  obtain ⟨own, hlen, hp, hq⟩ := h.originStack
  obtain rfl := List.length_eq_zero_iff.mp hlen
  exact ⟨by simpa using hp, by simpa using hq⟩

variable [One F] [OfNat F 8] [LT F] [DecidableLT F]

theorem GfxCall.moves_poly (pen : Pen F) (points : List (Option (F × F)))
    (color fill : Option UInt32) (thickness : Option F) (closed : Option Bool) :
    (GfxCall.poly points color fill thickness closed).moves pen = pen := by
  simp only [GfxCall.moves, GfxCall.run]
  split <;> rfl

theorem GfxCall.moves_fillPath (pen : Pen F) (fill : UInt32) (color : Option UInt32)
    (thickness : Option F) : (GfxCall.fillPath fill color thickness).moves pen = pen := by
  simp only [GfxCall.moves, GfxCall.run]
  split <;> rfl

theorem GfxCall.moves_strokePath (pen : Pen F) (color : Option UInt32) (thickness : Option F) :
    (GfxCall.strokePath color thickness).moves pen = pen := by
  simp only [GfxCall.moves, GfxCall.run]
  split <;> rfl

theorem Shifts.keep {c : GfxCall F} (h : Shifts a b d n p q)
    (hc : ∀ pen : Pen F, c.moves pen = pen) : Shifts a b d n (c.moves p) (c.moves q) := by
  rw [hc, hc]
  exact h

/-- A call draws the same with a moved pen, only moved. -/
theorem Shifts.emits {c : GfxCall F} (h : Shifts a b d n p q)
    (hbase : b.getLast?.getD (0, 0) = a.getLast?.getD (0, 0) + d) :
    c.emits q = (c.emits p).map (DrawCmd.translate d) := by
  have hoff := h.offset hbase
  have hfont := h.currentFont
  have hpath := h.pathBuilder
  cases c with
  | text x y str color opts =>
      simp only [GfxCall.emits, GfxCall.run, GfxState.tryPush_eq, List.nil_append, hoff, hfont]
      cases parseTextOpts opts <;> simp [Except.toOption, DrawCmd.translate, add_assoc]
  | box x y w h color fill thickness opts =>
      simp only [GfxCall.emits, GfxCall.run, GfxState.tryPush_eq, List.nil_append, hoff]
      cases parseShapeShadow opts <;> simp [Except.toOption, DrawCmd.translate, add_assoc]
  | roundRect x y w h radius color fill thickness opts =>
      simp only [GfxCall.emits, GfxCall.run, GfxState.tryPush_eq, List.nil_append, hoff]
      cases parseShapeShadow opts <;> simp [Except.toOption, DrawCmd.translate, add_assoc]
  | gradientRect x y w h start stop opts =>
      simp only [GfxCall.emits, GfxCall.run, GfxState.tryPush_eq, List.nil_append, hoff]
      cases parseGradientRectOpts opts <;> simp [Except.toOption, DrawCmd.translate, add_assoc]
  | poly points color fill thickness closed =>
      simp only [GfxCall.emits, GfxCall.run, GfxState.push_eq, List.nil_append, hoff]
      cases points.mapM id <;> simp [DrawCmd.translate, Prod.add_def, add_assoc]
  | fillPath fill color thickness =>
      simp only [GfxCall.emits, GfxCall.run, hpath, List.isEmpty_map]
      cases p.pathBuilder.isEmpty <;> simp [DrawCmd.translate]
  | strokePath color thickness =>
      simp only [GfxCall.emits, GfxCall.run, hpath, List.isEmpty_map]
      cases p.pathBuilder.isEmpty <;> simp [DrawCmd.translate]
  | _ => simp [GfxCall.emits, GfxCall.run, GfxState.pushShape, hoff, DrawCmd.translate, add_assoc]

/-- A call keeps a moved pen moved. -/
theorem Shifts.moves {c : GfxCall F} (h : Shifts a b d n p q)
    (hbase : b.getLast?.getD (0, 0) = a.getLast?.getD (0, 0) + d) (hn : level n c = some n') :
    Shifts a b d n' (c.moves p) (c.moves q) := by
  have hoff := h.offset hbase
  have hfont := h.currentFont
  have hpath := h.pathBuilder
  obtain ⟨own, hlen, hp, hq⟩ := h.originStack
  cases c with
  | pushOrigin x y =>
      obtain rfl : n + 1 = n' := by simpa [level] using hn
      refine ⟨hfont, hpath, own ++ [(p.offset.1 + x, p.offset.2 + y)], by simp [hlen], ?_, ?_⟩
      · simp [GfxCall.moves, GfxCall.run, hp]
      · simp [GfxCall.moves, GfxCall.run, hq, hoff, Prod.add_def, add_right_comm]
  | popOrigin =>
      cases n with
      | zero => exact absurd hn (by simp [level])
      | succ n =>
          obtain rfl : n = n' := by simpa [level] using hn
          have hne : own ≠ [] := by
            rintro rfl
            simp at hlen
          refine ⟨hfont, hpath, own.dropLast, by simp [hlen], ?_, ?_⟩
          · simp [GfxCall.moves, GfxCall.run, hp, List.dropLast_append_of_ne_nil hne]
          · simp [GfxCall.moves, GfxCall.run, hq, List.dropLast_append_of_ne_nil, hne,
              List.map_dropLast]
  | poly points color fill thickness closed =>
      obtain rfl : n = n' := by simpa [level] using hn
      exact h.keep fun pen => GfxCall.moves_poly pen points color fill thickness closed
  | fillPath fill color thickness =>
      obtain rfl : n = n' := by simpa [level] using hn
      exact h.keep fun pen => GfxCall.moves_fillPath pen fill color thickness
  | strokePath color thickness =>
      obtain rfl : n = n' := by simpa [level] using hn
      exact h.keep fun pen => GfxCall.moves_strokePath pen color thickness
  | _ =>
      obtain rfl : n = n' := by simpa [level] using hn
      refine ⟨?_, ?_, own, hlen, ?_, ?_⟩ <;>
        simp [GfxCall.moves, GfxCall.run, GfxState.pushShape, PathPrimitive.translate, hfont, hpath,
          hp, hq, hoff, add_assoc]

/-- And so do calls that stay above the base. -/
theorem Shifts.run {calls : List (GfxCall F)} (h : Shifts a b d n p q)
    (hbase : b.getLast?.getD (0, 0) = a.getLast?.getD (0, 0) + d)
    (hexec : exec level n calls = some n') :
    emitted q calls = (emitted p calls).map (DrawCmd.translate d) ∧
      Shifts a b d n' (moved p calls) (moved q calls) := by
  induction calls generalizing n p q with
  | nil =>
      obtain rfl : n = n' := by simpa [exec] using hexec
      exact ⟨rfl, h⟩
  | cons c calls ih =>
      simp only [exec] at hexec
      cases hn : level n c with
      | none => simp [hn] at hexec
      | some m =>
          rw [hn] at hexec
          obtain ⟨hemitted, hmoved⟩ := ih (h.moves hbase hn) hexec
          refine ⟨?_, hmoved⟩
          rw [emitted, emitted, List.map_append, h.emits hbase, hemitted]

-- ============================================================================
-- Groups
-- ============================================================================

section Group

variable {calls : List (GfxCall F)} (hcalls : Balanced calls) {pen : Pen F}
  (hpath : pen.pathBuilder = []) (dx dy : F)
include hpath

/-- The pen of a group at its push. -/
theorem Shifts.push : Shifts pen.originStack (pen.originStack ++ [pen.offset + (dx, dy)]) (dx, dy) 0
    pen ((GfxCall.pushOrigin dx dy).moves pen) := by
  refine ⟨rfl, by simp [GfxCall.moves, GfxCall.run, hpath], [], rfl, by simp, ?_⟩
  simp [GfxCall.moves, GfxCall.run, Prod.add_def]

include hcalls

theorem emitted_group : emitted pen (.pushOrigin dx dy :: calls ++ [.popOrigin]) =
    (emitted pen calls).map (DrawCmd.translate (dx, dy)) := by
  obtain ⟨hemitted, -⟩ := (Shifts.push hpath dx dy).run (by simp [Pen.offset]) hcalls
  rw [List.cons_append, emitted, emitted_append, hemitted]
  simp [GfxCall.emits, GfxCall.run, emitted]

theorem moved_group : moved pen (.pushOrigin dx dy :: calls ++ [.popOrigin]) =
      { moved pen calls with
        pathBuilder := (moved pen calls).pathBuilder.map (·.translate (dx, dy)) } ∧
    (moved pen calls).originStack = pen.originStack := by
  obtain ⟨-, hmoved⟩ := (Shifts.push hpath dx dy).run (by simp [Pen.offset]) hcalls
  obtain ⟨hstack, hstack'⟩ := hmoved.base
  refine ⟨?_, hstack⟩
  rw [moved_append]
  show GfxCall.popOrigin.moves (moved ((GfxCall.pushOrigin dx dy).moves pen) calls) = _
  generalize moved ((GfxCall.pushOrigin dx dy).moves pen) calls = q at hmoved hstack'
  simp [GfxCall.moves, GfxCall.run, hmoved.currentFont, hmoved.pathBuilder, hstack, hstack']

end Group

/-- **A group is drawn in its own coordinates.**  Between a push and a pop balanced
    calls draw the pictures they draw without, all of them moved by the origin, and
    leave the font, the path and the origins as they do without, with the path moved.
    They never reach the origins below their own. -/
theorem group_translates {calls : List (GfxCall F)} (hcalls : Balanced calls) {pen : Pen F}
    (hpath : pen.pathBuilder = []) (dx dy : F) :
    emitted pen (.pushOrigin dx dy :: calls ++ [.popOrigin]) =
      (emitted pen calls).map (DrawCmd.translate (dx, dy)) ∧
    moved pen (.pushOrigin dx dy :: calls ++ [.popOrigin]) =
      { moved pen calls with
        pathBuilder := (moved pen calls).pathBuilder.map (·.translate (dx, dy)) } ∧
    (moved pen calls).originStack = pen.originStack :=
  ⟨emitted_group hcalls hpath dx dy, moved_group hcalls hpath dx dy⟩

end Moved

/-- A row of a table: a label, a box below it in a group of its own, and a bar. -/
def nestedGroup : List (GfxCall ℚ) :=
  [.font "normal", .text 1 2 "hp" none .other, .pushOrigin 10 10, .beginPath, .pathCircle 0 0 3,
    .fillPath 0xFFFFFFFF none none, .box 0 0 4 4 none none none none, .popOrigin,
    .line 0 0 8 0 none none]

theorem group_translates_nested :
    ((emitted .default nestedGroup).length = 4 ∧ Balanced nestedGroup) ∧
    emitted .default (.pushOrigin 100 200 :: nestedGroup ++ [.popOrigin]) =
      (emitted .default nestedGroup).map (DrawCmd.translate (100, 200)) :=
  ⟨by decide +kernel, (group_translates (by decide +kernel) rfl 100 200).1⟩

-- ============================================================================
-- On the screen
-- ============================================================================

section Screen

variable (egui : Egui) (g : Geometry) (vp : Viewport) (sizing : TextSizing)

/-- The picture of a frame of calls. -/
def picture (pen : Pen ℚ) (calls : List (GfxCall ℚ)) : Picture :=
  paint egui g vp sizing (emitted pen calls)

theorem shapes_append (pen : Pen ℚ) (a b : List (GfxCall ℚ)) :
    (picture egui g vp sizing pen (a ++ b)).shapes =
      (picture egui g vp sizing pen a).shapes ++
        (picture egui g vp sizing (moved pen a) b).shapes := by
  simp only [picture, paint, emitted_append, List.flatMap_append]

/-- **A group is moved on the screen as a whole.**  In a frame with balanced calls
    anywhere in it, putting them between a push and a pop moves the shapes they paint,
    every corner of them by the same vector of the screen, and nothing else: not what
    was painted before, not what is painted after but for a path the group leaves, not
    the clip. -/
theorem group_moves_on_screen (hg : g.Moves) (pen : Pen ℚ) (before : List (GfxCall ℚ))
    {calls : List (GfxCall ℚ)} (hcalls : Balanced calls)
    (hpath : (moved pen before).pathBuilder = []) (after : List (GfxCall ℚ)) (dx dy : ℚ) :
    let left := moved (moved pen before) calls
    let shapes p c := (picture egui g vp sizing p c).shapes
    picture egui g vp sizing pen (before ++ calls ++ after) =
      { clip := vp.screenRect
        shapes := shapes pen before ++ shapes (moved pen before) calls ++ shapes left after } ∧
    picture egui g vp sizing pen
        (before ++ (.pushOrigin dx dy :: calls ++ [.popOrigin]) ++ after) =
      { clip := vp.screenRect
        shapes := shapes pen before ++
          (shapes (moved pen before) calls).map (Shape.translate (vp.vec (dx, dy))) ++
          shapes { left with pathBuilder := left.pathBuilder.map (·.translate (dx, dy)) }
            after } := by
  intro left shapes
  have hsplit : ∀ own : List (GfxCall ℚ),
      picture egui g vp sizing pen (before ++ own ++ after) =
      { clip := vp.screenRect
        shapes := shapes pen before ++ shapes (moved pen before) own ++
          shapes (moved (moved pen before) own) after } := by
    intro own
    rw [← moved_append, ← shapes_append, ← shapes_append]
    rfl
  have hown : shapes (moved pen before) (.pushOrigin dx dy :: calls ++ [.popOrigin]) =
      (shapes (moved pen before) calls).map (Shape.translate (vp.vec (dx, dy))) := by
    simp only [shapes, picture, emitted_group hcalls hpath, translate_paint egui g vp sizing _ hg]
  refine ⟨hsplit calls, ?_⟩
  rw [hsplit, hown, (moved_group hcalls hpath dx dy).1]

end Screen

/-- A health bar: a frame, its filling in a group of its own, a gradient and a tick. -/
def barGroup : List (GfxCall ℚ) :=
  [.box 0 0 40 6 none none none none, .pushOrigin 1 1, .beginPath, .pathRect 0 0 10 4,
    .fillPath 0xFF00FF00 none none, .popOrigin, .gradientRect 12 1 20 4 0xFFFF0000 0xFF00FF00 none,
    .gradientLine 36 0 36 6 0xFFFFFFFF 0xFF000000 none]

/-- On a canvas at twice its size. -/
theorem group_moves_on_screen_bar :
    let vp := Viewport.fit ⟨⟨0, 0⟩, 1024, 448⟩ ⟨256, 224⟩
    let shapes calls := (picture .nearest .upright vp (.gameScaled 1) .default calls).shapes
    ((shapes barGroup).length = 4 ∧ vp.vec (100, 50) = (200, 100)) ∧
    shapes (.pushOrigin 100 50 :: barGroup ++ [.popOrigin]) =
      (shapes barGroup).map (Shape.translate (vp.vec (100, 50))) := by
  intro vp shapes
  obtain ⟨-, hmoved⟩ := group_moves_on_screen .nearest .upright vp (.gameScaled 1)
    Geometry.upright_moves .default [] (by decide +kernel : Balanced barGroup) rfl [] 100 50
  have hnil : ∀ pen, (picture .nearest .upright vp (.gameScaled 1) pen []).shapes = [] :=
    fun _ => rfl
  refine ⟨by decide +kernel, ?_⟩
  simpa [shapes, hnil, moved] using congrArg Picture.shapes hmoved

end LuaApi
end SniLua

