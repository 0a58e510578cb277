/-
  SniLua.App.Canvas

  The canvas a script asks for and the canvas the app forces share one cell of
  the host.  `gfx.canvas` and `gfx.scale` write it, `gfx.width` and `gfx.height`
  read it, and in every frame the app writes the canvas of a forced mode into it,
  before `on_frame` and again after it.

  `Request` is what the app would have to remember: the script's request and, next
  to it, the canvas a forced mode has put in its place since.  The cell holds the
  second when there is one, so the request is lost with the first forced frame.
-/

import Mathlib.Data.List.Induction
import Mathlib.Tactic.NormNum
import SniLua.Lib.F64

namespace SniLua
namespace App

open Lib

-- ============================================================================
-- Canvases
-- ============================================================================

/-- A script coordinate space; its sides are `f32`. -/
structure Canvas where
  w : F64
  h : F64
deriving DecidableEq

namespace Canvas

/-- `SNES_W`. -/
def snesW : ℚ := 256

/-- `SNES_H`. -/
def snesH : ℚ := 224

/-- `Canvas::default`. -/
def native : Canvas := { w := .fin snesW, h := .fin snesH }

/-- An integer multiple of native. -/
def scaled (n : UInt32) : Canvas :=
  let n : Nat := max 1 (min n.toNat 8)
  { w := .fin (snesW * n), h := .fin (snesH * n) }

def custom (w h : F64) : Canvas :=
  { w := w.clamp (.fin 16) (.fin 4096), h := h.clamp (.fin 16) (.fin 4096) }

end Canvas

/-- A call of the script that concerns the canvas, its arguments converted. -/
inductive GfxCall where
  | canvas (w h : F64)
  | scale (n : UInt32)
  | width
  | height
deriving DecidableEq

namespace GfxCall

/-- The canvas a call asks for. -/
def request : GfxCall → Option Canvas
  | canvas w h => some (.custom w h)
  | scale n => some (.scaled n)
  | width | height => none

/-- What a call answers with when `c` is in use. -/
def answer (c : Canvas) : GfxCall → Option F64
  | width => some c.w
  | height => some c.h
  | canvas .. | scale _ => none

end GfxCall

/-- The cell after some calls, with their answers. -/
def runCalls (cell : Canvas) : List GfxCall → Canvas × List F64
  | [] => (cell, [])
  | call :: calls =>
      let cell := call.request.getD cell
      let (last, answers) := runCalls cell calls
      (last, (call.answer cell).toList ++ answers)

-- ============================================================================
-- The host and the app
-- ============================================================================

structure CanvasHost where
  requestedCanvas : Canvas
  loaded : Bool
deriving DecidableEq

/-- What the painter and the script get from a frame. -/
structure Frame where
  /-- The sizes the HTTP callbacks were answered. -/
  httpSizes : List F64
  /-- The sizes `on_frame` was answered. -/
  sizes : List F64
  /-- The canvas the draw list is painted with. -/
  canvas : Canvas

/-- The canvas of a mode; any other mode leaves the request in place. -/
def resolveCanvas (mode : String) (requested : Canvas) : Canvas :=
  match mode with
  | "native" => .native
  | "2x" => .scaled 2
  | "3x" => .scaled 3
  | "4x" => .scaled 4
  | _ => requested

namespace CanvasHost

def new : CanvasHost := { requestedCanvas := .native, loaded := false }

/-- `fire_unload`, with the calls of `on_unload`. -/
def fireUnload (calls : List GfxCall) (s : CanvasHost) : CanvasHost :=
  if s.loaded then { requestedCanvas := (runCalls s.requestedCanvas calls).1, loaded := false }
  else s

/-- `load_script`, with the calls of the chunk and of `on_init`. -/
def loadScript (unload code : List GfxCall) (ok : Bool) (s : CanvasHost) : CanvasHost :=
  let s := { s.fireUnload unload with loaded := false, requestedCanvas := .native }
  { s with requestedCanvas := (runCalls s.requestedCanvas code).1, loaded := ok }

/-- `run_frame`, with the calls of the HTTP callbacks and of `on_frame`; an error
    there stops the script. -/
def runFrame (http calls : List GfxCall) (ok : Bool) (s : CanvasHost) :
    CanvasHost × List F64 × List F64 :=
  if s.loaded then
    let (cell, httpSizes) := runCalls s.requestedCanvas http
    let (cell, sizes) := runCalls cell calls
    ({ requestedCanvas := cell, loaded := ok }, httpSizes, sizes)
  else (s, [], [])

/-- `apply_canvas`. -/
def applyCanvas (mode : String) (s : CanvasHost) : CanvasHost :=
  { s with requestedCanvas := resolveCanvas mode s.requestedCanvas }

/-- The frame of `App::update`. -/
def update (mode : String) (http calls : List GfxCall) (ok : Bool) (s : CanvasHost) :
    CanvasHost × Frame :=
  let s := s.applyCanvas mode
  let (s, httpSizes, sizes) := s.runFrame http calls ok
  let s := if mode = "script" then s else s.applyCanvas mode
  (s, { httpSizes, sizes, canvas := s.requestedCanvas })

end CanvasHost

inductive CanvasEvent where
  | load (unload code : List GfxCall) (ok : Bool)
  | frame (mode : String) (http calls : List GfxCall) (ok : Bool)
  /-- `unload` at exit. -/
  | unload (calls : List GfxCall)
deriving DecidableEq

namespace CanvasHost

def step (s : CanvasHost) : CanvasEvent → CanvasHost
  | .load unload code ok => s.loadScript unload code ok
  | .frame mode http calls ok => (s.update mode http calls ok).1
  | .unload calls => s.fireUnload calls

def run (es : List CanvasEvent) : CanvasHost := es.foldl step new

end CanvasHost

-- ============================================================================
-- What the script asked for
-- ============================================================================

/-- The script's last request since load, and the canvas forced over it since. -/
structure Request where
  loaded : Bool
  asked : Canvas
  forced : Option Canvas

/-- The canvas of a forced mode. -/
def forcedCanvas : String → Option Canvas
  | "native" => some .native
  | "2x" => some (.scaled 2)
  | "3x" => some (.scaled 3)
  | "4x" => some (.scaled 4)
  | _ => none

namespace Request

def new : Request := { loaded := false, asked := .native, forced := none }

/-- A call that asks for a canvas replaces the request. -/
def ask (q : Request) (calls : List GfxCall) : Request :=
  calls.foldl (fun q call =>
    match call.request with
    | some c => { q with asked := c, forced := none }
    | none => q) q

/-- Calls of a script that only runs while it is loaded. -/
def askLoaded (q : Request) (calls : List GfxCall) : Request :=
  if q.loaded then q.ask calls else q

/-- A forced mode puts its canvas over the request. -/
def force (q : Request) (mode : String) : Request :=
  match forcedCanvas mode with
  | some c => { q with forced := some c }
  | none => q

def step (q : Request) : CanvasEvent → Request
  | .load _ code ok => { new.ask code with loaded := ok }
  | .frame mode http calls ok =>
      let q := (q.askLoaded http).askLoaded calls
      { q with loaded := q.loaded && ok }.force mode
  | .unload calls => { q.askLoaded calls with loaded := false }

def run (es : List CanvasEvent) : Request := es.foldl step new

/-- What the shared cell makes of it. -/
def cell (q : Request) : Canvas := q.forced.getD q.asked

end Request

-- ============================================================================
-- The cell follows the request
-- ============================================================================

theorem runCalls_cons (cell : Canvas) (call : GfxCall) (calls : List GfxCall) :
    runCalls cell (call :: calls) =
      ((runCalls (call.request.getD cell) calls).1,
        (call.answer (call.request.getD cell)).toList ++
          (runCalls (call.request.getD cell) calls).2) := rfl

/-- Calls that ask for nothing leave the cell and are answered from it. -/
theorem runCalls_of_no_request {calls : List GfxCall} (h : ∀ call ∈ calls, call.request = none)
    (cell : Canvas) : runCalls cell calls = (cell, calls.filterMap (·.answer cell)) := by
  induction calls with
  | nil => rfl
  | cons call calls ih =>
      have hcall : call.request = none := h call (List.mem_cons_self ..)
      rw [runCalls_cons, hcall, Option.getD_none, ih fun c hc => h c (List.mem_cons_of_mem _ hc),
        List.filterMap_cons]
      cases call.answer cell <;> rfl

theorem resolveCanvas_eq (mode : String) (requested : Canvas) :
    resolveCanvas mode requested = (forcedCanvas mode).getD requested := by
  unfold resolveCanvas forcedCanvas
  split <;> rfl

namespace Request

theorem ask_cons (q : Request) (call : GfxCall) (calls : List GfxCall) :
    q.ask (call :: calls) =
      Request.ask (match call.request with
        | some c => { q with asked := c, forced := none }
        | none => q) calls := rfl

/-- The cell after some calls is the one of the request after them. -/
theorem cell_ask (q : Request) (calls : List GfxCall) :
    (q.ask calls).cell = (runCalls q.cell calls).1 := by
  induction calls generalizing q with
  | nil => rfl
  | cons call calls ih =>
      rw [ask_cons, ih, runCalls_cons]
      cases call.request with
      | none => rfl
      | some c => rfl

theorem loaded_ask (q : Request) (calls : List GfxCall) : (q.ask calls).loaded = q.loaded := by
  induction calls generalizing q with
  | nil => rfl
  | cons call calls ih =>
      rw [ask_cons, ih]
      cases call.request <;> rfl

theorem loaded_askLoaded (q : Request) (calls : List GfxCall) :
    (q.askLoaded calls).loaded = q.loaded := by
  rw [askLoaded]
  split
  · exact loaded_ask q calls
  · rfl

end Request

/-- The host holds the request as the shared cell allows. -/
structure CanvasHost.Follows (s : CanvasHost) (q : Request) : Prop where
  loaded : s.loaded = q.loaded
  cell : s.requestedCanvas = q.cell

theorem follows_fireUnload {s : CanvasHost} {q : Request} (h : s.Follows q)
    (calls : List GfxCall) :
    (s.fireUnload calls).Follows { q.askLoaded calls with loaded := false } := by
  rw [CanvasHost.fireUnload, Request.askLoaded, h.loaded]
  cases hq : q.loaded with
  | true =>
      refine ⟨rfl, ?_⟩
      show (runCalls s.requestedCanvas calls).1 = (q.ask calls).cell
      rw [h.cell, Request.cell_ask]
  | false =>
      exact ⟨h.loaded.trans hq, h.cell⟩

theorem follows_runFrame {s : CanvasHost} {q : Request} (h : s.Follows q)
    (http calls : List GfxCall) (ok : Bool) :
    (s.runFrame http calls ok).1.Follows
      { (q.askLoaded http).askLoaded calls with loaded := q.loaded && ok } := by
  cases hq : q.loaded with
  | true =>
      have hs : s.loaded = true := h.loaded.trans hq
      have hhttp : q.askLoaded http = q.ask http := by rw [Request.askLoaded, if_pos hq]
      have hcalls : (q.ask http).askLoaded calls = (q.ask http).ask calls := by
        rw [Request.askLoaded, if_pos ((Request.loaded_ask q http).trans hq)]
      rw [CanvasHost.runFrame, if_pos hs, hhttp, hcalls]
      refine ⟨(Bool.true_and ok).symm, ?_⟩
      show (runCalls (runCalls s.requestedCanvas http).1 calls).1 = ((q.ask http).ask calls).cell
      rw [h.cell, Request.cell_ask, Request.cell_ask]
  | false =>
      have hs : ¬ s.loaded = true := by rw [h.loaded, hq]; simp
      have hhttp : q.askLoaded http = q := by rw [Request.askLoaded, hq]; rfl
      have hcalls : q.askLoaded calls = q := by rw [Request.askLoaded, hq]; rfl
      rw [CanvasHost.runFrame, if_neg hs, hhttp, hcalls]
      exact ⟨h.loaded.trans hq, h.cell⟩

/-- `apply_canvas` is what forces a mode. -/
theorem follows_applyCanvas {s : CanvasHost} {q : Request} (h : s.Follows q) (mode : String) :
    (s.applyCanvas mode).Follows (q.force mode) := by
  have hcell : (s.applyCanvas mode).requestedCanvas = (forcedCanvas mode).getD q.cell := by
    rw [← h.cell, ← resolveCanvas_eq]
    rfl
  rw [Request.force]
  cases hmode : forcedCanvas mode with
  | none =>
      rw [hmode] at hcell
      exact ⟨h.loaded, hcell⟩
  | some c =>
      rw [hmode] at hcell
      exact ⟨h.loaded, hcell⟩

/-- The request after a frame, whatever its mode. -/
theorem loaded_step_frame (q : Request) (mode : String) (http calls : List GfxCall) (ok : Bool) :
    (q.step (.frame mode http calls ok)).loaded = (q.loaded && ok) := by
  rw [Request.step, Request.force, Request.loaded_askLoaded, Request.loaded_askLoaded]
  split <;> rfl

/-- A mode that forces nothing leaves what the calls of the frame asked for. -/
theorem follows_update_unforced {s : CanvasHost} {q : Request} (h : s.Follows q) {mode : String}
    (hmode : forcedCanvas mode = none) (http calls : List GfxCall) (ok : Bool) :
    (s.update mode http calls ok).1.Follows (q.step (.frame mode http calls ok)) := by
  have hforce : ∀ q : Request, q.force mode = q := by
    intro q
    rw [Request.force, hmode]
  have hrun := follows_runFrame (follows_applyCanvas h mode) http calls ok
  have hlater := follows_applyCanvas hrun mode
  rw [hforce] at hrun hlater
  rw [hforce] at hlater
  have hstep : q.step (.frame mode http calls ok) =
      { (q.askLoaded http).askLoaded calls with loaded := q.loaded && ok } := by
    rw [Request.step, hforce, Request.loaded_askLoaded, Request.loaded_askLoaded]
  rw [hstep]
  show (if mode = "script" then _ else _ : CanvasHost).Follows _
  split
  · exact hrun
  · exact hlater

/-- A forced mode ends the frame with its own canvas in the cell. -/
theorem follows_update_forced {s : CanvasHost} {q : Request} (h : s.Follows q) {mode : String}
    {c : Canvas} (hmode : forcedCanvas mode = some c) (http calls : List GfxCall) (ok : Bool) :
    (s.update mode http calls ok).1.Follows (q.step (.frame mode http calls ok)) := by
  have hrun := follows_runFrame (follows_applyCanvas h mode) http calls ok
  have hscript : ¬ mode = "script" := by
    rintro rfl
    exact absurd hmode (by simp [forcedCanvas])
  have hcell : ∀ t : CanvasHost, (t.applyCanvas mode).requestedCanvas = c := by
    intro t
    show resolveCanvas mode t.requestedCanvas = c
    rw [resolveCanvas_eq, hmode]
    rfl
  have hforce : (q.force mode).loaded = q.loaded := by rw [Request.force, hmode]
  have hstep : (q.step (.frame mode http calls ok)).cell = c := by
    rw [Request.step, Request.force, hmode]
    rfl
  show (if mode = "script" then _ else _ : CanvasHost).Follows _
  rw [if_neg hscript]
  refine ⟨?_, (hcell _).trans hstep.symm⟩
  rw [loaded_step_frame, ← hforce]
  exact hrun.loaded

theorem follows_update {s : CanvasHost} {q : Request} (h : s.Follows q) (mode : String)
    (http calls : List GfxCall) (ok : Bool) :
    (s.update mode http calls ok).1.Follows (q.step (.frame mode http calls ok)) := by
  cases hmode : forcedCanvas mode with
  | none => exact follows_update_unforced h hmode http calls ok
  | some c => exact follows_update_forced h hmode http calls ok

theorem follows_step {s : CanvasHost} {q : Request} (h : s.Follows q) (e : CanvasEvent) :
    (s.step e).Follows (q.step e) := by
  cases e with
  | load unload code ok => exact ⟨rfl, (Request.cell_ask .new code).symm⟩
  | frame mode http calls ok => exact follows_update h mode http calls ok
  | unload calls => exact follows_fireUnload h calls

/-- After every history the cell is the canvas forced since the request, or the
    request. -/
theorem follows_run (es : List CanvasEvent) : (CanvasHost.run es).Follows (Request.run es) := by
  induction es using List.reverseRecOn with
  | nil => exact ⟨rfl, rfl⟩
  | append_singleton es e ih =>
      rw [CanvasHost.run, Request.run, List.foldl_append, List.foldl_append]
      exact follows_step ih e

-- ============================================================================
-- Frames that honour the script
-- ============================================================================

/-- A frame in mode `script`: the calls of `on_frame` run on the cell the HTTP
    callbacks leave, and so does the painter when `on_frame` asks for nothing. -/
theorem update_script {s : CanvasHost} {q : Request} (h : s.Follows q) (http : List GfxCall)
    {calls : List GfxCall} (hcalls : ∀ call ∈ calls, call.request = none) (ok : Bool) :
    (s.update "script" http calls ok).2.canvas = (q.askLoaded http).cell ∧
      (s.update "script" http calls ok).2.sizes =
        if q.loaded then calls.filterMap (·.answer (q.askLoaded http).cell) else [] := by
  have hsame : s.applyCanvas "script" = s := rfl
  simp only [CanvasHost.update, hsame, if_true]
  cases hq : q.loaded with
  | true =>
      have hs : s.loaded = true := h.loaded.trans hq
      have hask : (q.askLoaded http).cell = (runCalls s.requestedCanvas http).1 := by
        rw [Request.askLoaded, if_pos hq, Request.cell_ask, h.cell]
      rw [CanvasHost.runFrame, if_pos hs, hask]
      simp [runCalls_of_no_request hcalls]
  | false =>
      have hs : ¬ s.loaded = true := by rw [h.loaded, hq]; simp
      have hask : q.askLoaded http = q := by rw [Request.askLoaded, hq]; rfl
      rw [CanvasHost.runFrame, if_neg hs, hask]
      exact ⟨h.cell, rfl⟩

/-- After every history, in a frame in mode `script` whose `on_frame` asks for no
    canvas: the script is answered from its own last request and painted with it if
    and only if no mode has been forced since that request, or the canvas forced
    last is the one requested. -/
theorem script_canvas_iff (es : List CanvasEvent) (http : List GfxCall) {calls : List GfxCall}
    (hcalls : ∀ call ∈ calls, call.request = none) (ok : Bool) :
    let q := (Request.run es).askLoaded http
    let frame := ((CanvasHost.run es).update "script" http calls ok).2
    (frame.canvas = q.asked ∧
      frame.sizes = if q.loaded then calls.filterMap (·.answer q.asked) else []) ↔
      (q.forced = none ∨ q.forced = some q.asked) := by
  obtain ⟨hcanvas, hsizes⟩ := update_script (follows_run es) http hcalls ok
  have hloaded := Request.loaded_askLoaded (Request.run es) http
  show (((CanvasHost.run es).update "script" http calls ok).2.canvas = _ ∧
    ((CanvasHost.run es).update "script" http calls ok).2.sizes = _) ↔ _
  rw [hcanvas, hsizes, hloaded]
  generalize (Request.run es).askLoaded http = q
  have hcell : q.cell = q.asked ↔ q.forced = none ∨ q.forced = some q.asked := by
    rw [Request.cell]
    cases q.forced <;> simp
  rw [← hcell]
  constructor
  · exact And.left
  · intro h
    rw [h]
    exact ⟨rfl, rfl⟩

/-- A script that asks for three times native at load, shown in mode `script`. -/
theorem script_canvas_kept :
    ((CanvasHost.run [.load [] [.scale 3] true, .frame "script" [] [] true]).update "script" []
      [.width] true).2.canvas = .scaled 3 := by
  have hcalls : ∀ call ∈ [GfxCall.width], call.request = none := by simp [GfxCall.request]
  have hkept := (script_canvas_iff [.load [] [.scale 3] true, .frame "script" [] [] true] []
    hcalls true).mpr (Or.inl rfl)
  exact hkept.1

/-- The same script after one frame in mode `2x`: back in mode `script` it is
    painted, and answered, with the canvas that was forced. -/
theorem script_canvas_lost :
    let es : List CanvasEvent := [.load [] [.scale 3] true, .frame "2x" [] [] true]
    let frame := ((CanvasHost.run es).update "script" [] [.width] true).2
    (Request.run es).asked = .scaled 3 ∧ frame.canvas = .scaled 2 ∧
      frame.sizes = [(Canvas.scaled 2).w] ∧ Canvas.scaled 2 ≠ Canvas.scaled 3 := by
  have hne : Canvas.scaled 2 ≠ Canvas.scaled 3 := by
    intro h
    have hw := congrArg Canvas.w h
    simp [Canvas.scaled, Canvas.snesW] at hw
  exact ⟨rfl, rfl, rfl, hne⟩

end App
end SniLua
