/-
  SniLua.LuaApi.FrameInput

  What a frame of a script sees of the clock and of the pointer: the `time.*` and
  `mouse.*` tables.

  The app feeds a reading of the pointer before every frame, also before those that
  no script runs in; a load starts both the clock and the pointer anew.  Times are in
  nanoseconds.
-/

import SniLua.Lib.Run
import SniLua.LuaApi.ScriptHost

namespace SniLua
namespace LuaApi

open Lib

variable {F : Type}

-- ============================================================================
-- The clock
-- ============================================================================

structure TimeState where
  start : Nat
  frame : Nat
  frameStart : Nat
  dt : Nat

namespace TimeState

def new (now : Nat) : TimeState := { start := now, frame := 0, frameStart := now, dt := 0 }

/-- Advance one frame. -/
def tick (t : TimeState) (now : Nat) : TimeState :=
  { t with dt := now - t.frameStart, frameStart := now, frame := t.frame + 1 }

end TimeState

-- ============================================================================
-- The pointer
-- ============================================================================

/-- One reading of the pointer. -/
structure MouseFrame (F : Type) where
  /-- In the coordinates of the canvas, `none` outside of it. -/
  pos : Option (F × F)
  /-- Left, right, middle. -/
  buttons : Fin 3 → Bool
  wheel : F

structure MouseState (F : Type) where
  cur : MouseFrame F
  prevButtons : Fin 3 → Bool

namespace MouseState

def new [Zero F] : MouseState F where
  cur := { pos := none, buttons := fun _ => false, wheel := 0 }
  prevButtons := fun _ => false

def feed (m : MouseState F) (f : MouseFrame F) : MouseState F :=
  { cur := f, prevButtons := m.cur.buttons }

def down (m : MouseState F) (btn : Fin 3) : Bool := m.cur.buttons btn

def pressed (m : MouseState F) (btn : Fin 3) : Bool := m.cur.buttons btn && !m.prevButtons btn

def released (m : MouseState F) (btn : Fin 3) : Bool := !m.cur.buttons btn && m.prevButtons btn

end MouseState

-- ============================================================================
-- The host with its inputs
-- ============================================================================

structure InputHost (F : Type) where
  host : ScriptHost F
  time : TimeState
  mouse : MouseState F
  /-- The time of the last call. -/
  clock : Nat

/-- A call of the app, with the time when it is made. -/
inductive InputCall (F : Type) where
  | loadScript (onUnload : Option (CallbackRun F)) (installs : Bool) (chunk : CallbackRun F)
      (onInit : Option (CallbackRun F))
  /-- `feed_mouse`, then `run_frame`. -/
  | update (reading : MouseFrame F) (done : List (Nat × CallbackRun F))
      (onFrame : Option (CallbackRun F))
  | unload (onUnload : Option (CallbackRun F))

/-- What `on_frame` can read. -/
structure Seen where
  vm : Nat
  frame : Nat
  dt : Nat
  down : Fin 3 → Bool
  pressed : Fin 3 → Bool
  released : Fin 3 → Bool

namespace InputHost

variable [Add F] [Zero F] [One F] [OfNat F 8] [LT F] [DecidableLT F]

def build (http : Bool) (now : Nat) : InputHost F :=
  { host := .build http, time := .new now, mouse := .new, clock := now }

def apply (s : InputHost F) (now : Nat) : InputCall F → InputHost F
  | .loadScript onUnload installs chunk onInit =>
      { host := (s.host.loadScript onUnload installs chunk onInit).2
        time := .new now, mouse := .new, clock := now }
  | .update reading done onFrame =>
      { host := (s.host.runFrame done onFrame).2
        time := if s.host.loaded then s.time.tick now else s.time
        mouse := s.mouse.feed reading
        clock := now }
  | .unload onUnload => { s with host := s.host.unload onUnload, clock := now }

/-- The clock does not go back. -/
def step (s : InputHost F) (e : Nat × InputCall F) : Option (InputHost F) :=
  if s.clock ≤ e.1 then some (s.apply e.1 e.2) else none

/-- What the frame of a call sees, if a script is loaded. -/
def sees (s : InputHost F) (e : Nat × InputCall F) : Option Seen :=
  match e.2 with
  | .update reading _ _ =>
      if s.host.loaded then
        some {
          vm := s.host.vm
          frame := (s.time.tick e.1).frame
          dt := (s.time.tick e.1).dt
          down := (s.mouse.feed reading).down
          pressed := (s.mouse.feed reading).pressed
          released := (s.mouse.feed reading).released }
      else none
  | _ => none

/-- What the frames of a script have seen, in order. -/
def frames (v : Nat) (tr : List (InputHost F × (Nat × InputCall F))) : List Seen :=
  (tr.filterMap fun x => x.1.sees x.2).filter (·.vm = v)

end InputHost

-- ============================================================================
-- Frames in the log
-- ============================================================================

/-- `on_frame` of `v` is looked up. -/
def Entry.looksUpFrame (v : Nat) : Entry F → Bool
  | ran vm .onFrame _ => vm = v
  | skipped vm .onFrame => vm = v
  | _ => false

theorem Entry.looksUpFrame_lookedUp (v vm : Nat) (cb : Callback) (run : Option (CallbackRun F)) :
    (Entry.lookedUp vm cb run).looksUpFrame v = (cb = .onFrame && vm = v) := by
  cases run <;> cases cb <;> simp [lookedUp, looksUpFrame]

namespace ScriptHost

variable [Add F] [Zero F] [One F] [OfNat F 8] [LT F] [DecidableLT F]

theorem vm_unload (s : ScriptHost F) (onUnload : Option (CallbackRun F)) :
    (s.unload onUnload).vm = s.vm := by
  rw [unload, fireUnload]
  split
  · exact s.invoke_vm .onUnload onUnload
  · rfl

theorem loaded_unload (s : ScriptHost F) (onUnload : Option (CallbackRun F)) :
    (s.unload onUnload).loaded = false := by
  rw [unload, fireUnload]
  split
  · rfl
  · exact Bool.eq_false_iff.mpr ‹_›

theorem countP_unload (s : ScriptHost F) (v : Nat) (onUnload : Option (CallbackRun F)) :
    (s.unload onUnload).log.countP (Entry.looksUpFrame v) =
      s.log.countP (Entry.looksUpFrame v) := by
  rw [unload, fireUnload]
  split
  · simp [Entry.looksUpFrame_lookedUp]
  · rfl

/-- No frame runs in a load. -/
theorem countP_loadScript (s : ScriptHost F) (v : Nat) (onUnload : Option (CallbackRun F))
    (installs : Bool) (chunk : CallbackRun F) (onInit : Option (CallbackRun F)) :
    (s.loadScript onUnload installs chunk onInit).2.log.countP (Entry.looksUpFrame v) =
      s.log.countP (Entry.looksUpFrame v) := by
  have hbegin := ({ s with log := s.log ++ [.loadBegins (s.vm + 1)] } : ScriptHost F).countP_unload
    v onUnload
  have hbegin' : (s.log ++ [Entry.loadBegins (s.vm + 1)]).countP (Entry.looksUpFrame v) =
      s.log.countP (Entry.looksUpFrame v) := by simp [Entry.looksUpFrame]
  rw [unload] at hbegin
  rw [← hbegin', ← hbegin, loadScript]
  split
  · split
    · split <;> simp [replaceVm, Entry.looksUpFrame_lookedUp]
    · simp [replaceVm, Entry.looksUpFrame_lookedUp]
  · simp [replaceVm, Entry.looksUpFrame_lookedUp]

/-- A frame is looked up once, after the HTTP callbacks. -/
theorem countP_runFrame {s : ScriptHost F} (hloaded : s.loaded = true) (v : Nat)
    (done : List (Nat × CallbackRun F)) (onFrame : Option (CallbackRun F)) :
    (s.runFrame done onFrame).2.log.countP (Entry.looksUpFrame v) =
      s.log.countP (Entry.looksUpFrame v) + if s.vm = v then 1 else 0 := by
  obtain ⟨runs, -, -, -, hlog, -⟩ := runFrame_spec hloaded done onFrame
  have hhttp : (runs.map (Entry.ran s.vm .http)).countP (Entry.looksUpFrame v) = 0 := by
    simp [List.countP_eq_zero, Entry.looksUpFrame]
  rw [hlog, List.countP_append, List.countP_append, hhttp, List.countP_singleton,
    Entry.looksUpFrame_lookedUp]
  simp

end ScriptHost

-- ============================================================================
-- What a script has seen
-- ============================================================================

namespace InputHost

variable [Add F] [Zero F] [One F] [OfNat F 8] [LT F] [DecidableLT F]

/-- The button was down in the last frame. -/
def lastDown (seen : List Seen) (btn : Fin 3) : Bool := seen.getLast?.any (·.down btn)

/-- The clock and the pointer of a script that has seen these frames.  While it is
    loaded, the pointer is as in its last frame. -/
structure Sees (seen : List Seen) (s : InputHost F) : Prop where
  numbered : seen.map (·.frame) = List.range' 1 seen.length
  frame : s.time.frame = seen.length
  elapsed : s.time.start + (seen.map (·.dt)).sum = s.time.frameStart
  clock : s.time.frameStart ≤ s.clock
  edges : ∀ btn, seen.countP (·.pressed btn) =
    seen.countP (·.released btn) + (lastDown seen btn).toNat
  held : s.host.loaded = true → ∀ btn, s.mouse.cur.buttons btn = lastDown seen btn

omit [Add F] [One F] [OfNat F 8] [LT F] [DecidableLT F] in
theorem sees_new (host : ScriptHost F) (now : Nat) :
    Sees [] { host, time := .new now, mouse := .new, clock := now } where
  numbered := rfl
  frame := rfl
  elapsed := rfl
  clock := Nat.le_refl _
  edges := by simp [lastDown]
  held := by simp [MouseState.new, lastDown]

/-- A frame ticks the clock and moves the pointer on. -/
theorem Sees.frame_snoc {seen : List Seen} {s : InputHost F} (h : Sees seen s)
    (hloaded : s.host.loaded = true) {now : Nat} (hnow : s.clock ≤ now) (reading : MouseFrame F)
    (done : List (Nat × CallbackRun F)) (onFrame : Option (CallbackRun F)) {f : Seen}
    (hf : s.sees (now, .update reading done onFrame) = some f) :
    Sees (seen ++ [f]) (s.apply now (.update reading done onFrame)) := by
  have hclock := h.clock
  have helapsed := h.elapsed
  simp only [sees, hloaded, if_true, Option.some.injEq] at hf
  subst hf
  refine ⟨?_, ?_, ?_, ?_, ?_, ?_⟩
  · rw [List.map_append, h.numbered, List.length_append, List.range'_append_1.symm]
    simp [TimeState.tick, h.frame, Nat.add_comm]
  · simp [apply, hloaded, TimeState.tick, h.frame]
  · simp only [apply, hloaded, if_true, TimeState.tick, List.map_append, List.sum_append,
      List.map_cons, List.map_nil, List.sum_cons, List.sum_nil]
    omega
  · simp [apply, hloaded, TimeState.tick]
  · intro btn
    have hedges := h.edges btn
    have hlast : ∀ f : Seen, lastDown (seen ++ [f]) btn = f.down btn := by simp [lastDown]
    rw [List.countP_append, List.countP_append, List.countP_singleton, List.countP_singleton,
      hedges, hlast]
    simp only [MouseState.feed, MouseState.down, MouseState.pressed, MouseState.released,
      h.held hloaded btn]
    cases reading.buttons btn <;> cases lastDown seen btn <;> simp
  · intro _ btn
    simp [apply, MouseState.feed, MouseState.down, lastDown]

/-- A reading that no frame sees. -/
theorem Sees.skip {seen : List Seen} {s : InputHost F} (h : Sees seen s)
    (hloaded : s.host.loaded = false) {now : Nat} (hnow : s.clock ≤ now) (reading : MouseFrame F)
    (done : List (Nat × CallbackRun F)) (onFrame : Option (CallbackRun F)) :
    Sees seen (s.apply now (.update reading done onFrame)) where
  numbered := h.numbered
  frame := by simpa [apply, hloaded] using h.frame
  elapsed := by simpa [apply, hloaded] using h.elapsed
  clock := by simpa [apply, hloaded] using h.clock.trans hnow
  edges := h.edges
  held := fun hstill => absurd hstill (by simp [apply, ScriptHost.runFrame, hloaded])

theorem Sees.unload {seen : List Seen} {s : InputHost F} (h : Sees seen s) {now : Nat}
    (hnow : s.clock ≤ now) (onUnload : Option (CallbackRun F)) :
    Sees seen (s.apply now (.unload onUnload)) where
  numbered := h.numbered
  frame := h.frame
  elapsed := h.elapsed
  clock := h.clock.trans hnow
  edges := h.edges
  held := fun hstill => absurd hstill (by simp [apply, s.host.loaded_unload onUnload])

-- ============================================================================
-- Runs
-- ============================================================================

/-- The frames so far are those of the log, and the VM in use is the last one that
    has seen any. -/
structure InputOk (tr : List (InputHost F × (Nat × InputCall F))) (s : InputHost F) : Prop where
  lives : s.host.Lives
  sees : Sees (frames s.host.vm tr) s
  later : ∀ v, s.host.vm < v → frames v tr = []
  log : ∀ v, s.host.log.countP (Entry.looksUpFrame v) = (frames v tr).length

omit [Add F] [Zero F] [One F] [OfNat F 8] [LT F] [DecidableLT F] in
theorem frames_snoc (v : Nat) (tr : List (InputHost F × (Nat × InputCall F))) (s : InputHost F)
    (e : Nat × InputCall F) :
    frames v (tr ++ [(s, e)]) = frames v tr ++ ((s.sees e).filter (·.vm = v)).toList := by
  rw [frames, List.filterMap_append, List.filter_append, ← frames]
  congr 1
  cases h : s.sees e with
  | none => simp [h]
  | some f => by_cases hv : f.vm = v <;> simp [h, hv, Option.filter]

omit [Add F] [Zero F] [One F] [OfNat F 8] [LT F] [DecidableLT F] in
theorem frames_quiet {v : Nat} {tr : List (InputHost F × (Nat × InputCall F))}
    {s : InputHost F} {e : Nat × InputCall F} (h : s.sees e = none) :
    frames v (tr ++ [(s, e)]) = frames v tr := by
  rw [frames_snoc, h]
  simp

variable {tr : List (InputHost F × (Nat × InputCall F))} {s : InputHost F} {now : Nat}

/-- The new VM has seen nothing yet. -/
theorem InputOk.load (h : InputOk tr s) (onUnload : Option (CallbackRun F)) (installs : Bool)
    (chunk : CallbackRun F) (onInit : Option (CallbackRun F)) :
    let c := InputCall.loadScript onUnload installs chunk onInit
    InputOk (tr ++ [(s, (now, c))]) (s.apply now c) := by
  obtain ⟨hlives, hvm, -⟩ := h.lives.loadScript onUnload installs chunk onInit
  have hquiet : ∀ v, frames v (tr ++ [(s, (now, .loadScript onUnload installs chunk onInit))]) =
      frames v tr := fun v => frames_quiet rfl
  refine ⟨hlives, ?_, ?_, ?_⟩
  · rw [hquiet]
    show Sees (frames (s.host.loadScript onUnload installs chunk onInit).2.vm tr) _
    rw [hvm, h.later _ (Nat.lt_succ_self _)]
    exact sees_new _ now
  · intro v hv
    have hlt : (s.host.loadScript onUnload installs chunk onInit).2.vm < v := hv
    rw [hquiet]
    exact h.later v (by omega)
  · intro v
    rw [hquiet, ← h.log]
    exact ScriptHost.countP_loadScript ..

theorem InputOk.update (h : InputOk tr s) (hnow : s.clock ≤ now) (reading : MouseFrame F)
    (done : List (Nat × CallbackRun F)) (onFrame : Option (CallbackRun F)) :
    let c := InputCall.update reading done onFrame
    InputOk (tr ++ [(s, (now, c))]) (s.apply now c) := by
  have hlives := h.lives.runFrame done onFrame
  cases hloaded : s.host.loaded with
  | false =>
      have hquiet : ∀ v, frames v (tr ++ [(s, (now, .update reading done onFrame))]) =
          frames v tr := fun v => frames_quiet (by simp [InputHost.sees, hloaded])
      have hsame : (s.host.runFrame done onFrame).2 = s.host := by
        simp [ScriptHost.runFrame, hloaded]
      refine ⟨hlives, ?_, ?_, ?_⟩
      · rw [hquiet]
        show Sees (frames (s.host.runFrame done onFrame).2.vm tr) _
        rw [hsame]
        exact h.sees.skip hloaded hnow reading done onFrame
      · intro v hv
        rw [hquiet]
        exact h.later v (by simpa [apply, hsame] using hv)
      · intro v
        rw [hquiet, ← h.log]
        simp [apply, hsame]
  | true =>
      obtain ⟨-, -, hvm, -⟩ := ScriptHost.runFrame_spec hloaded done onFrame
      obtain ⟨f, hf⟩ : ∃ f, s.sees (now, .update reading done onFrame) = some f := by
        simp [InputHost.sees, hloaded]
      have hfvm : f.vm = s.host.vm := by
        simp only [InputHost.sees, hloaded, if_true, Option.some.injEq] at hf
        rw [← hf]
      have hframes : ∀ v, frames v (tr ++ [(s, (now, .update reading done onFrame))]) =
          frames v tr ++ if s.host.vm = v then [f] else [] := by
        intro v
        rw [frames_snoc, hf, Option.filter_some, hfvm]
        split <;> simp_all
      refine ⟨hlives, ?_, ?_, ?_⟩
      · rw [hframes]
        show Sees (frames (s.host.runFrame done onFrame).2.vm tr ++
          if s.host.vm = (s.host.runFrame done onFrame).2.vm then [f] else []) _
        rw [hvm, if_pos rfl]
        exact h.sees.frame_snoc hloaded hnow reading done onFrame hf
      · intro v hv
        have hlt : (s.host.runFrame done onFrame).2.vm < v := hv
        rw [hframes, h.later v (by omega), if_neg (by omega), List.nil_append]
      · intro v
        rw [hframes, List.length_append, ← h.log]
        show (s.host.runFrame done onFrame).2.log.countP _ = _
        rw [ScriptHost.countP_runFrame hloaded]
        split <;> rfl

theorem InputOk.unload (h : InputOk tr s) (hnow : s.clock ≤ now)
    (onUnload : Option (CallbackRun F)) :
    let c := InputCall.unload onUnload
    InputOk (tr ++ [(s, (now, c))]) (s.apply now c) := by
  have hquiet : ∀ v, frames v (tr ++ [(s, (now, .unload onUnload))]) = frames v tr :=
    fun v => frames_quiet rfl
  have hvm := s.host.vm_unload onUnload
  refine ⟨h.lives.unload onUnload, ?_, ?_, ?_⟩
  · rw [hquiet]
    show Sees (frames (s.host.unload onUnload).vm tr) _
    rw [hvm]
    exact h.sees.unload hnow onUnload
  · intro v hv
    have hlt : (s.host.unload onUnload).vm < v := hv
    rw [hquiet]
    exact h.later v (by omega)
  · intro v
    rw [hquiet, ← h.log]
    exact ScriptHost.countP_unload ..

theorem inputOk_step {t : InputHost F} {e : Nat × InputCall F} (h : InputOk tr s)
    (hs : s.step e = some t) : InputOk (tr ++ [(s, e)]) t := by
  obtain ⟨now, c⟩ := e
  simp only [step] at hs
  split at hs
  · rename_i hnow
    obtain rfl := Option.some.inj hs
    cases c with
    | loadScript onUnload installs chunk onInit => exact h.load onUnload installs chunk onInit
    | update reading done onFrame => exact h.update hnow reading done onFrame
    | unload onUnload => exact h.unload hnow onUnload
  · cases hs

/-- The pointer with the left button up or down. -/
def leftButton (down : Bool) : MouseFrame Int where
  pos := some (1, 1)
  buttons := fun btn => btn = 0 && down
  wheel := 0

/-- A script is loaded, and the left button held for two frames. -/
def holdAndRelease : List (Nat × InputCall Int) :=
  [(5, .update (leftButton true) [] none), (9, .loadScript none true ⟨[], true⟩ none),
   (20, .update (leftButton true) [] (some ⟨[], true⟩)), (36, .update (leftButton true) [] none),
   (52, .update (leftButton false) [] none)]

end InputHost

end LuaApi
end SniLua
