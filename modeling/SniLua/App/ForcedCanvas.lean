/-
  SniLua.App.ForcedCanvas

  A frame under a forced canvas.  The app writes the forced canvas into the shared
  cell before `on_frame` and again after it, so the frame is painted with it.  In
  between the cell is the script's: from its own request on, `gfx.width` and
  `gfx.height` answer with the canvas it asked for.
-/

import SniLua.App.Canvas

namespace SniLua
namespace App

open Lib

/-- The canvas asked for last. -/
def lastRequest (calls : List GfxCall) : Option Canvas := (calls.filterMap (·.request)).getLast?

/-- The canvas in use after some calls. -/
def inUse (cell : Canvas) (calls : List GfxCall) : Canvas := (lastRequest calls).getD cell

theorem inUse_cons (cell : Canvas) (call : GfxCall) (calls : List GfxCall) :
    inUse cell (call :: calls) = inUse (call.request.getD cell) calls := by
  rw [inUse, inUse, lastRequest, lastRequest, List.filterMap_cons]
  cases call.request with
  | none => rfl
  | some c =>
      rw [List.getLast?_cons]
      rfl

theorem inUse_append (cell : Canvas) (before after : List GfxCall) :
    inUse cell (before ++ after) = inUse (inUse cell before) after := by
  induction before generalizing cell with
  | nil => rfl
  | cons call before ih => rw [List.cons_append, inUse_cons, ih, inUse_cons]

/-- The cell after some calls holds the canvas in use. -/
theorem runCalls_fst (cell : Canvas) (calls : List GfxCall) :
    (runCalls cell calls).1 = inUse cell calls := by
  induction calls generalizing cell with
  | nil => rfl
  | cons call calls ih => rw [runCalls_cons, inUse_cons, ih]

/-- A call that asks for a canvas gets no answer, so a call is answered from the
    canvas in use before it. -/
theorem answer_request (cell : Canvas) (call : GfxCall) :
    call.answer (call.request.getD cell) = call.answer cell := by
  cases call <;> rfl

theorem length_answer (c d : Canvas) (call : GfxCall) :
    (call.answer c).toList.length = (call.answer d).toList.length := by
  cases call <;> rfl

/-- The calls are answered as from `c` throughout if and only if each of them would
    be, from the canvas in use when it is made. -/
theorem runCalls_snd_iff (cell c : Canvas) (calls : List GfxCall) :
    (runCalls cell calls).2 = calls.filterMap (·.answer c) ↔
      ∀ before call after, calls = before ++ call :: after →
        call.answer (inUse cell before) = call.answer c := by
  induction calls generalizing cell with
  | nil => simp [runCalls]
  | cons call calls ih =>
      have hcons : (call :: calls).filterMap (·.answer c) =
          (call.answer c).toList ++ calls.filterMap (·.answer c) := by
        rw [List.filterMap_cons]
        cases call.answer c <;> rfl
      rw [runCalls_cons, hcons]
      show (call.answer (call.request.getD cell)).toList ++
        (runCalls (call.request.getD cell) calls).2 = _ ↔ _
      rw [answer_request]
      constructor
      · intro heq before call' after hsplit
        obtain ⟨hhead, htail⟩ := List.append_inj heq (length_answer _ _ _)
        cases before with
        | nil =>
            obtain ⟨rfl, rfl⟩ := List.cons.inj hsplit
            have hanswer : call.answer cell = call.answer c := by
              simpa using congrArg List.head? hhead
            exact hanswer
        | cons first before =>
            obtain ⟨rfl, hrest⟩ := List.cons.inj hsplit
            rw [inUse_cons]
            exact (ih _).mp htail before call' after hrest
      · intro hall
        have hhead : call.answer cell = call.answer c := hall [] call calls rfl
        rw [hhead, (ih _).mpr]
        intro before call' after hsplit
        rw [← inUse_cons]
        exact hall (call :: before) call' after (by rw [hsplit]; rfl)

/-- A frame under a forced canvas: it is painted with that canvas, and a running
    script is answered from it until it asks for another one. -/
theorem update_forced (s : CanvasHost) {mode : String} {c : Canvas}
    (hmode : forcedCanvas mode = some c) (http calls : List GfxCall) (ok : Bool) :
    (s.update mode http calls ok).2.canvas = c ∧
      (s.update mode http calls ok).2.sizes =
        if s.loaded then (runCalls (inUse c http) calls).2 else [] := by
  have hscript : ¬ mode = "script" := by
    rintro rfl
    exact absurd hmode (by simp [forcedCanvas])
  have hcell : ∀ t : CanvasHost, (t.applyCanvas mode).requestedCanvas = c := by
    intro t
    show resolveCanvas mode t.requestedCanvas = c
    rw [resolveCanvas_eq, hmode]
    rfl
  have hloaded : (s.applyCanvas mode).loaded = s.loaded := rfl
  simp only [CanvasHost.update, if_neg hscript]
  refine ⟨hcell _, ?_⟩
  rw [CanvasHost.runFrame, hloaded, hcell, ← runCalls_fst]
  split <;> rfl

/-- **Layout under a forced canvas.**  After every history, in a frame with a forced
    canvas: the frame is painted with it; and `on_frame` is answered from it
    throughout if and only if no script is running, or before each of its calls the
    last canvas the script asked for in this frame, if it asked for one, has the
    size that the call answers with. -/
theorem forced_canvas_iff (es : List CanvasEvent) {mode : String} {c : Canvas}
    (hmode : forcedCanvas mode = some c) (http calls : List GfxCall) (ok : Bool) :
    let host := CanvasHost.run es
    let frame := (host.update mode http calls ok).2
    frame.canvas = c ∧
      (frame.sizes = (if host.loaded then calls.filterMap (·.answer c) else []) ↔
        (host.loaded = false ∨ ∀ before call after, calls = before ++ call :: after →
          ∀ asked, lastRequest (http ++ before) = some asked →
            call.answer asked = call.answer c)) := by
  obtain ⟨hcanvas, hsizes⟩ := update_forced (CanvasHost.run es) hmode http calls ok
  refine ⟨hcanvas, ?_⟩
  show ((CanvasHost.run es).update mode http calls ok).2.sizes = _ ↔ _
  rw [hsizes]
  cases (CanvasHost.run es).loaded with
  | false => simp
  | true =>
      simp only [if_true, Bool.true_eq_false, false_or, runCalls_snd_iff]
      refine forall_congr' fun before => forall_congr' fun call => forall_congr' fun after =>
        imp_congr_right fun _ => ?_
      rw [← inUse_append, inUse]
      cases lastRequest (http ++ before) <;> simp

/-- A script that reads the size before it asks for a canvas. -/
theorem forced_canvas_read_first :
    ((CanvasHost.run [.load [] [] true]).update "native" [] [.width, .scale 3] true).2.sizes =
      [Canvas.native.w] := by
  have hmode : forcedCanvas "native" = some Canvas.native := rfl
  have hiff := (forced_canvas_iff [.load [] [] true] hmode [] [.width, .scale 3] true).2
  refine hiff.mpr (Or.inr ?_)
  intro before call after hsplit asked hasked
  match before, hsplit with
  | [], _ => simp [lastRequest] at hasked
  | [_], hsplit =>
      obtain ⟨-, hsplit⟩ := List.cons.inj hsplit
      obtain ⟨rfl, -⟩ := List.cons.inj hsplit
      rfl
  | _ :: _ :: before, hsplit =>
      obtain ⟨-, hsplit⟩ := List.cons.inj hsplit
      obtain ⟨-, hsplit⟩ := List.cons.inj hsplit
      simp at hsplit

/-- A script that asks for three times native in `on_frame` and reads the size back
    is answered from its own canvas; the frame is painted with the native one. -/
theorem not_forced_canvas :
    let frame := ((CanvasHost.run [.load [] [] true]).update "native" [] [.scale 3, .width]
      true).2
    frame.canvas = .native ∧ frame.sizes = [(Canvas.scaled 3).w] ∧
      (Canvas.scaled 3).w ≠ Canvas.native.w := by
  refine ⟨rfl, rfl, ?_⟩
  simp [Canvas.scaled, Canvas.native, Canvas.snesW]

end App
end SniLua
