/-
  SniLua.LuaApi.ScriptHost

  The host of one script: `load_script`, `run_frame` and `unload`, with the flag that
  says whether a script is loaded and the draw state shared with the script.

  What a script does is not known here.  Each call of the host is given the runs of
  the callbacks it may come to call, `none` for one that is not defined.  The log is
  history only.
-/

import SniLua.Lib.HashMap
import SniLua.LuaApi.Lifecycle

namespace SniLua
namespace LuaApi

open Lib Render

variable {F : Type}

/-- The entry of a callback that is looked up. -/
def Entry.lookedUp (vm : Nat) (cb : Callback) : Option (CallbackRun F) → Entry F
  | some run => .ran vm cb run
  | none => .skipped vm cb

/-- The callback is defined and raises. -/
def raises : Option (CallbackRun F) → Bool
  | some run => !run.ok
  | none => false

/-- The calls among these that draw. -/
def gfxCalls (calls : List (Call F)) : List (GfxCall F) :=
  calls.filterMap fun
    | .gfx c => some c
    | .httpRequest _ _ => none

-- ============================================================================
-- The host
-- ============================================================================

/-- The key of a stashed callback, good for the VM whose registry holds it. -/
structure RegistryKey where
  vm : Nat

structure ScriptHost (F : Type) where
  gfx : GfxState F
  /-- There is an HTTP worker. -/
  http : Bool
  pending : HashMap Nat RegistryKey
  /-- Counts the VMs made since the start. -/
  vm : Nat
  loaded : Bool
  log : List (Entry F)

namespace ScriptHost

/-- `build`: the API is installed, no script is loaded. -/
def build (http : Bool) : ScriptHost F where
  gfx := .fresh
  http
  pending := .empty
  vm := 0
  loaded := false
  log := []

/-- The phase of a host between two calls. -/
def phase (s : ScriptHost F) : Phase := if s.loaded then .running s.vm else .stopped s.vm

/-- The log is one of the machine, and the flag is its phase. -/
def Lives (s : ScriptHost F) : Prop := Lifecycle s.log s.phase

/-- The flag, read off the log. -/
theorem Lives.running_iff {s : ScriptHost F} (h : s.Lives) (v : Nat) :
    Running s.log v ↔ s.loaded = true ∧ v = s.vm := by
  rw [Lifecycle.running_iff h, phase]
  cases s.loaded with
  | false => simp
  | true => simpa using eq_comm

theorem Lives.running {s : ScriptHost F} (h : s.Lives) (hloaded : s.loaded = true) :
    Lifecycle s.log (.running s.vm) := by
  simpa [Lives, phase, hloaded] using h

theorem Lives.stopped {s : ScriptHost F} (h : s.Lives) (hstopped : s.loaded = false) :
    Lifecycle s.log (.stopped s.vm) := by
  simpa [Lives, phase, hstopped] using h

section Calls

variable [Add F] [Zero F] [One F] [OfNat F 8] [LT F] [DecidableLT F]

/-- A script makes a call. -/
def call (s : ScriptHost F) : Call F → ScriptHost F
  | .gfx c => { s with gfx := c.run s.gfx }
  | .httpRequest (some id) true =>
      if s.http then { s with pending := s.pending.insert id { vm := s.vm } } else s
  | .httpRequest _ _ => s

/-- A callback is looked up and called if it is defined. -/
def invoke (s : ScriptHost F) (cb : Callback) (run : Option (CallbackRun F)) : ScriptHost F :=
  let t := match run with
    | some run => run.calls.foldl call s
    | none => s
  { t with log := s.log ++ [.lookedUp s.vm cb run] }

/-- `fire_unload`. -/
def fireUnload (s : ScriptHost F) (onUnload : Option (CallbackRun F)) : ScriptHost F :=
  if s.loaded then { s.invoke .onUnload onUnload with loaded := false } else s

def unload (s : ScriptHost F) (onUnload : Option (CallbackRun F)) : ScriptHost F :=
  s.fireUnload onUnload

/-- The state of the last script is cleared and the VM replaced. -/
def replaceVm (s : ScriptHost F) : ScriptHost F :=
  { s with loaded := false, gfx := .fresh, pending := .empty, vm := s.vm + 1 }

/-- `load_script`, and whether it returns `Ok`; `installs` says whether
    `install_api` does. -/
def loadScript (s : ScriptHost F) (onUnload : Option (CallbackRun F)) (installs : Bool)
    (chunk : CallbackRun F) (onInit : Option (CallbackRun F)) : Bool × ScriptHost F :=
  let s := { s with log := s.log ++ [Entry.loadBegins (s.vm + 1)] }
  let s := (s.fireUnload onUnload).replaceVm
  if installs then
    let s := s.invoke .chunk (some chunk)
    if chunk.ok then
      let s := s.invoke .onInit onInit
      if raises onInit then (false, s) else (true, { s with loaded := true })
    else (false, s)
  else (false, s.invoke .chunk none)

/-- A response of `pump_http`: its callback is taken out of the map and called; a
    key of another VM finds no function. -/
def deliver (s : ScriptHost F) (id : Nat) (run : CallbackRun F) : ScriptHost F :=
  match s.pending.get id with
  | none => s
  | some key =>
      let s := { s with pending := s.pending.retain (· ≠ id) }
      if key.vm = s.vm then s.invoke .http (some run) else s

/-- `pump_http` with the drained responses, each with what its callback does. -/
def pumpHttp (s : ScriptHost F) (done : List (Nat × CallbackRun F)) : ScriptHost F :=
  if s.http then done.foldl (fun s resp => s.deliver resp.1 resp.2) s else s

/-- `run_frame`. -/
def runFrame (s : ScriptHost F) (done : List (Nat × CallbackRun F))
    (onFrame : Option (CallbackRun F)) : DrawList F × ScriptHost F :=
  if s.loaded then
    let s := { s with gfx := .fresh }
    let s := s.pumpHttp done
    let s := s.invoke .onFrame onFrame
    if raises onFrame then ([], { s with loaded := false }) else (s.gfx.draw, s)
  else ([], s)

end Calls

end ScriptHost

/-- A call of the host by the app. -/
inductive HostCall (F : Type) where
  | loadScript (onUnload : Option (CallbackRun F)) (installs : Bool) (chunk : CallbackRun F)
      (onInit : Option (CallbackRun F))
  | runFrame (done : List (Nat × CallbackRun F)) (onFrame : Option (CallbackRun F))
  | unload (onUnload : Option (CallbackRun F))

namespace ScriptHost

variable [Add F] [Zero F] [One F] [OfNat F 8] [LT F] [DecidableLT F]

def apply (s : ScriptHost F) : HostCall F → ScriptHost F
  | .loadScript onUnload installs chunk onInit =>
      (s.loadScript onUnload installs chunk onInit).2
  | .runFrame done onFrame => (s.runFrame done onFrame).2
  | .unload onUnload => s.unload onUnload

/-- The host after a sequence of calls. -/
def after (http : Bool) (calls : List (HostCall F)) : ScriptHost F :=
  calls.foldl apply (build http)

-- ============================================================================
-- Callbacks
-- ============================================================================

/-- The draw state after a script's calls. -/
def drawn (g : GfxState F) (calls : List (Call F)) : GfxState F :=
  { draw := g.draw ++ emitted g.pen (gfxCalls calls), pen := moved g.pen (gfxCalls calls) }

theorem drawn_append (g : GfxState F) (a b : List (Call F)) :
    drawn g (a ++ b) = drawn (drawn g a) b := by
  simp only [drawn, gfxCalls, List.filterMap_append, emitted_append, moved_append,
    List.append_assoc]

/-- A call changes the draw state and the stashed callbacks, nothing else. -/
theorem call_eq (s : ScriptHost F) (c : Call F) :
    ∃ pending, s.call c = { s with gfx := drawn s.gfx [c], pending } := by
  cases c with
  | gfx c =>
      refine ⟨s.pending, ?_⟩
      simp [call, drawn, gfxCalls, emitted, moved, GfxCall.run_eq]
  | httpRequest id callback =>
      have hsame : drawn s.gfx [.httpRequest id callback] = s.gfx := by
        simp [drawn, gfxCalls, emitted, moved]
      rw [hsame]
      unfold call
      split
      · rename_i c hc
        cases hc
      · split
        · exact ⟨_, rfl⟩
        · exact ⟨s.pending, rfl⟩
      · exact ⟨s.pending, rfl⟩

theorem foldl_call (s : ScriptHost F) (calls : List (Call F)) :
    ∃ pending, calls.foldl call s = { s with gfx := drawn s.gfx calls, pending } := by
  induction calls generalizing s with
  | nil => exact ⟨s.pending, by simp [drawn, gfxCalls, emitted, moved]⟩
  | cons c calls ih =>
      obtain ⟨_, hc⟩ := call_eq s c
      obtain ⟨pending, h⟩ := ih (s.call c)
      refine ⟨pending, ?_⟩
      rw [List.foldl_cons, h, hc]
      show _ = { s with gfx := drawn s.gfx ([c] ++ calls), pending }
      rw [drawn_append]

/-- The calls of a callback that may not be defined. -/
def callsOf (run : Option (CallbackRun F)) : List (Call F) := (run.map (·.calls)).getD []

theorem invoke_eq (s : ScriptHost F) (cb : Callback) (run : Option (CallbackRun F)) :
    ∃ pending, s.invoke cb run =
      { s with
        gfx := drawn s.gfx (callsOf run)
        pending
        log := s.log ++ [.lookedUp s.vm cb run] } := by
  cases run with
  | none => exact ⟨s.pending, by simp [invoke, callsOf, drawn, gfxCalls, emitted, moved]⟩
  | some run =>
      obtain ⟨pending, h⟩ := foldl_call s run.calls
      exact ⟨pending, by simp [invoke, callsOf, h]⟩

section Invoke

variable (s : ScriptHost F) (cb : Callback) (run : Option (CallbackRun F))

@[simp] theorem invoke_gfx : (s.invoke cb run).gfx = drawn s.gfx (callsOf run) := by
  obtain ⟨pending, h⟩ := invoke_eq s cb run
  rw [h]

@[simp] theorem invoke_vm : (s.invoke cb run).vm = s.vm := by
  obtain ⟨pending, h⟩ := invoke_eq s cb run
  rw [h]

@[simp] theorem invoke_loaded : (s.invoke cb run).loaded = s.loaded := by
  obtain ⟨pending, h⟩ := invoke_eq s cb run
  rw [h]

@[simp] theorem invoke_log : (s.invoke cb run).log = s.log ++ [.lookedUp s.vm cb run] := rfl

end Invoke

-- ============================================================================
-- The host follows the machine
-- ============================================================================

theorem Lives.unload {s : ScriptHost F} (h : s.Lives) (onUnload : Option (CallbackRun F)) :
    (s.unload onUnload).Lives := by
  rw [ScriptHost.unload, fireUnload]
  cases hloaded : s.loaded with
  | false => simpa using h
  | true =>
      have hrunning := h.running hloaded
      cases onUnload with
      | none => simpa [Lives, phase, Entry.lookedUp] using hrunning.snoc (.unloadsSilently s.vm)
      | some run => simpa [Lives, phase, Entry.lookedUp] using hrunning.snoc (.unloads s.vm run)

/-- A load begins, and `on_unload` of the last script runs if one was running. -/
theorem Lives.replaceVm {s : ScriptHost F} (h : s.Lives) (onUnload : Option (CallbackRun F)) :
    let t := (({ s with log := s.log ++ [.loadBegins (s.vm + 1)] } : ScriptHost F).fireUnload
      onUnload).replaceVm
    t.loaded = false ∧ t.vm = s.vm + 1 ∧ Lifecycle t.log (.loading (s.vm + 1)) := by
  cases hloaded : s.loaded with
  | false =>
      simpa [fireUnload, ScriptHost.replaceVm, hloaded] using
        (h.stopped hloaded).snoc (.loads s.vm)
  | true =>
      have hreplacing := (h.running hloaded).snoc (.replaces s.vm)
      cases onUnload with
      | none =>
          simpa [fireUnload, ScriptHost.replaceVm, hloaded, Entry.lookedUp] using
            hreplacing.snoc (.replacedSilently s.vm)
      | some run =>
          simpa [fireUnload, ScriptHost.replaceVm, hloaded, Entry.lookedUp] using
            hreplacing.snoc (.replaced s.vm run)

/-- A load follows the machine, and succeeds exactly when a script is loaded
    after it. -/
theorem Lives.loadScript {s : ScriptHost F} (h : s.Lives) (onUnload : Option (CallbackRun F))
    (installs : Bool) (chunk : CallbackRun F) (onInit : Option (CallbackRun F)) :
    let r := s.loadScript onUnload installs chunk onInit
    r.2.Lives ∧ r.2.vm = s.vm + 1 ∧ r.2.loaded = r.1 := by
  obtain ⟨hloaded, hvm, hlog⟩ := h.replaceVm onUnload
  rw [ScriptHost.loadScript]
  generalize (({ s with log := s.log ++ [.loadBegins (s.vm + 1)] } : ScriptHost F).fireUnload
    onUnload).replaceVm = t at hloaded hvm hlog ⊢
  rw [← hvm] at hlog ⊢
  cases installs with
  | false =>
      simpa [Lives, phase, Entry.lookedUp, hloaded] using hlog.snoc (.notInstalled t.vm)
  | true =>
      have hran := hlog.snoc (.chunk t.vm chunk)
      cases hchunk : chunk.ok with
      | false => simpa [Lives, phase, Entry.lookedUp, hloaded, hchunk] using hran
      | true =>
          rw [hchunk] at hran
          cases onInit with
          | none =>
              simpa [Lives, phase, Entry.lookedUp, hchunk, raises] using hran.snoc (.noInit t.vm)
          | some run =>
              have hinit := hran.snoc (.onInit t.vm run)
              cases hok : run.ok <;>
                simpa [Lives, phase, Entry.lookedUp, hloaded, hchunk, raises, hok] using hinit

/-- What a load needs to succeed. -/
theorem loadScript_fst (s : ScriptHost F) (onUnload : Option (CallbackRun F)) (installs : Bool)
    (chunk : CallbackRun F) (onInit : Option (CallbackRun F)) :
    (s.loadScript onUnload installs chunk onInit).1 =
      (installs && chunk.ok && !raises onInit) := by
  rw [ScriptHost.loadScript]
  cases installs with
  | false => rfl
  | true =>
      cases hchunk : chunk.ok with
      | false => simp
      | true => cases hinit : raises onInit <;> simp

/-- `t` is `s` after these runs of HTTP callbacks. -/
structure Delivered (s t : ScriptHost F) (runs : List (CallbackRun F)) : Prop where
  vm : t.vm = s.vm
  loaded : t.loaded = s.loaded
  log : t.log = s.log ++ runs.map (.ran s.vm .http)
  gfx : t.gfx = drawn s.gfx (runs.flatMap (·.calls))

theorem Delivered.refl (s : ScriptHost F) (pending : HashMap Nat RegistryKey) :
    Delivered s { s with pending } [] where
  vm := rfl
  loaded := rfl
  log := by simp
  gfx := by simp [drawn, gfxCalls, emitted, moved]

theorem Delivered.trans {s t u : ScriptHost F} {a b : List (CallbackRun F)}
    (h₁ : Delivered s t a) (h₂ : Delivered t u b) : Delivered s u (a ++ b) where
  vm := h₂.vm.trans h₁.vm
  loaded := h₂.loaded.trans h₁.loaded
  log := by rw [h₂.log, h₁.log, h₁.vm, List.map_append, List.append_assoc]
  gfx := by rw [h₂.gfx, h₁.gfx, List.flatMap_append, drawn_append]

/-- A response runs its callback or nothing. -/
theorem deliver_spec (s : ScriptHost F) (id : Nat) (run : CallbackRun F) :
    ∃ runs : List (CallbackRun F), runs.Sublist [run] ∧ Delivered s (s.deliver id run) runs := by
  unfold deliver
  split
  · exact ⟨[], List.nil_sublist _, .refl s s.pending⟩
  · rename_i key hkey
    by_cases hvm : key.vm = s.vm
    · refine ⟨[run], List.Sublist.refl _, ?_⟩
      simp only [if_pos hvm]
      exact ⟨by simp, by simp, by simp [Entry.lookedUp], by simp [callsOf]⟩
    · refine ⟨[], List.nil_sublist _, ?_⟩
      simp only [if_neg hvm]
      exact .refl s _

theorem foldl_deliver_spec (s : ScriptHost F) (done : List (Nat × CallbackRun F)) :
    ∃ runs : List (CallbackRun F), runs.Sublist (done.map (·.2)) ∧
      Delivered s (done.foldl (fun s resp => s.deliver resp.1 resp.2) s) runs := by
  induction done generalizing s with
  | nil => exact ⟨[], List.Sublist.refl _, .refl s s.pending⟩
  | cons resp done ih =>
      obtain ⟨a, ha, hs⟩ := deliver_spec s resp.1 resp.2
      obtain ⟨b, hb, ht⟩ := ih (s.deliver resp.1 resp.2)
      exact ⟨a ++ b, ha.append hb, hs.trans ht⟩

theorem pumpHttp_spec (s : ScriptHost F) (done : List (Nat × CallbackRun F)) :
    ∃ runs : List (CallbackRun F),
      runs.Sublist (done.map (·.2)) ∧ Delivered s (s.pumpHttp done) runs := by
  unfold pumpHttp
  split
  · exact foldl_deliver_spec s done
  · exact ⟨[], List.nil_sublist _, .refl s s.pending⟩

/-- A frame of a loaded script: HTTP callbacks run, then `on_frame`, all from a fresh
    draw state. -/
theorem runFrame_spec {s : ScriptHost F} (hloaded : s.loaded = true)
    (done : List (Nat × CallbackRun F)) (onFrame : Option (CallbackRun F)) :
    ∃ runs : List (CallbackRun F), runs.Sublist (done.map (·.2)) ∧
      (s.runFrame done onFrame).2.vm = s.vm ∧
      (s.runFrame done onFrame).2.loaded = !raises onFrame ∧
      (s.runFrame done onFrame).2.log =
        s.log ++ runs.map (.ran s.vm .http) ++ [.lookedUp s.vm .onFrame onFrame] ∧
      (s.runFrame done onFrame).1 = if raises onFrame then [] else
        emitted .default (gfxCalls (runs.flatMap (·.calls) ++ callsOf onFrame)) := by
  obtain ⟨runs, hsub, ht⟩ := pumpHttp_spec { s with gfx := .fresh } done
  refine ⟨runs, hsub, ?_⟩
  obtain ⟨hvm, hstill, hlog, hgfx⟩ := ht
  rw [ScriptHost.runFrame, if_pos hloaded]
  dsimp only
  generalize ({ s with gfx := .fresh } : ScriptHost F).pumpHttp done = t at hvm hstill hlog hgfx ⊢
  cases hraises : raises onFrame with
  | true => simp [hvm, hlog]
  | false =>
      have hdraw : (drawn t.gfx (callsOf onFrame)).draw =
          emitted .default (gfxCalls (runs.flatMap (·.calls) ++ callsOf onFrame)) := by
        rw [hgfx, ← drawn_append]
        rfl
      simp [hvm, hlog, hstill, hloaded, hdraw]

theorem Lives.runFrame {s : ScriptHost F} (h : s.Lives) (done : List (Nat × CallbackRun F))
    (onFrame : Option (CallbackRun F)) : (s.runFrame done onFrame).2.Lives := by
  cases hloaded : s.loaded with
  | false => simpa [ScriptHost.runFrame, hloaded] using h
  | true =>
      obtain ⟨runs, -, hvm, ht, hlog, -⟩ := runFrame_spec hloaded done onFrame
      have hpumped := (h.running hloaded).https runs
      cases onFrame with
      | none =>
          simpa [Lives, phase, hvm, ht, hlog, raises, Entry.lookedUp] using
            hpumped.snoc (.noFrame s.vm)
      | some run =>
          have hstep := hpumped.snoc (.onFrame s.vm run)
          cases hok : run.ok <;>
            simpa [Lives, phase, hvm, ht, hlog, raises, Entry.lookedUp, hok] using hstep

theorem Lives.apply {s : ScriptHost F} (h : s.Lives) (c : HostCall F) : (s.apply c).Lives := by
  cases c with
  | loadScript onUnload installs chunk onInit =>
      exact (h.loadScript onUnload installs chunk onInit).1
  | runFrame done onFrame => exact h.runFrame done onFrame
  | unload onUnload => exact h.unload onUnload

/-- After every sequence of calls. -/
theorem lives_after (http : Bool) (calls : List (HostCall F)) : (after http calls).Lives := by
  have hfold : ∀ s : ScriptHost F, s.Lives → (calls.foldl ScriptHost.apply s).Lives := by
    induction calls with
    | nil => exact fun s h => h
    | cons c calls ih => exact fun s h => ih (s.apply c) (h.apply c)
  exact hfold (build http) .start

/-- `on_unload` of a loaded script is looked up. -/
theorem unload_log {s : ScriptHost F} (hloaded : s.loaded = true)
    (onUnload : Option (CallbackRun F)) :
    (s.unload onUnload).log = s.log ++ [.lookedUp s.vm .onUnload onUnload] := by
  simp [ScriptHost.unload, fireUnload, hloaded]

/-- A load begins with `on_unload` of the script it replaces. -/
theorem loadScript_log {s : ScriptHost F} (hloaded : s.loaded = true)
    (onUnload : Option (CallbackRun F)) (installs : Bool) (chunk : CallbackRun F)
    (onInit : Option (CallbackRun F)) :
    ∃ rest, (s.loadScript onUnload installs chunk onInit).2.log =
      s.log ++ .loadBegins (s.vm + 1) :: .lookedUp s.vm .onUnload onUnload :: rest := by
  simp only [ScriptHost.loadScript, fireUnload, hloaded, if_true]
  split
  · split
    · split <;> simp [ScriptHost.replaceVm]
    · simp [ScriptHost.replaceVm]
  · simp [ScriptHost.replaceVm]

-- ============================================================================
-- Safety
-- ============================================================================

/-- **The lifecycle of scripts is safe.**  After every sequence of loads, frames and
    unloads, whatever the callbacks do: `on_frame` and HTTP callbacks have run only
    while their script did, which means after its chunk and its `on_init` succeeded
    and before its `on_frame` raised, it was unloaded or another load began;
    `on_unload` has run at most once for each script, and only for one that was
    running until then or until the load that replaced it began.  A load succeeds
    when the API installs, the chunk succeeds and `on_init` does not raise, and its
    script is running afterwards exactly then.  A running script with an `on_unload`
    has it run when it is replaced or unloaded.  A frame draws nothing when no script
    is running or `on_frame` raises, and otherwise exactly what the HTTP callbacks of
    the frame and `on_frame` emit with the pen of a new frame. -/
theorem lifecycle_safe (http : Bool) (hist : List (HostCall F)) :
    let s := after http hist
    (∀ pre post v cb run, s.log = pre ++ .ran v cb run :: post → cb = .onFrame ∨ cb = .http →
      Running pre v) ∧
    (∀ v, s.log.countP (·.unloads v) ≤ 1) ∧
    (∀ pre post v run, s.log = pre ++ .ran v .onUnload run :: post →
      ∃ pre', Running pre' v ∧ (pre = pre' ∨ pre = pre' ++ [.loadBegins (v + 1)])) ∧
    (∀ onUnload installs chunk onInit,
      let r := s.loadScript onUnload installs chunk onInit
      r.1 = (installs && chunk.ok && !raises onInit) ∧
        (r.1 = true ↔ Running r.2.log (s.vm + 1))) ∧
    (∀ v run, Running s.log v →
      (∀ installs chunk onInit, ∃ rest, (s.loadScript (some run) installs chunk onInit).2.log =
        s.log ++ .loadBegins (v + 1) :: .ran v .onUnload run :: rest) ∧
      (s.unload (some run)).log = s.log ++ [.ran v .onUnload run]) ∧
    ∀ done onFrame,
      let (drawList, t) := s.runFrame done onFrame
      ((∀ v, ¬ Running s.log v) → drawList = [] ∧ t.log = s.log) ∧
      (raises onFrame = true → drawList = []) ∧
      ∀ v, Running s.log v → ∃ runs : List (CallbackRun F), runs.Sublist (done.map (·.2)) ∧
        t.log = s.log ++ runs.map (.ran v .http) ++ [.lookedUp v .onFrame onFrame] ∧
        (raises onFrame = false → drawList =
          emitted .default (gfxCalls (runs.flatMap (·.calls) ++ callsOf onFrame))) := by
  intro s
  have hlives : s.Lives := lives_after http hist
  refine ⟨?_, hlives.countP_unloads_le_one, ?_, ?_, ?_, ?_⟩
  · intro pre post v cb run hlog hcb
    rw [Lives, hlog] at hlives
    exact hlives.running_of_ran hcb
  · intro pre post v run hlog
    rw [Lives, hlog] at hlives
    exact hlives.running_of_unloads
  · intro onUnload installs chunk onInit
    obtain ⟨hlives', hvm, hloaded⟩ := hlives.loadScript onUnload installs chunk onInit
    refine ⟨loadScript_fst s onUnload installs chunk onInit, ?_⟩
    simp only [hlives'.running_iff, hvm, hloaded, and_true]
  · intro v run hrun
    obtain ⟨hloaded, rfl⟩ := (hlives.running_iff v).mp hrun
    exact ⟨loadScript_log hloaded (some run), unload_log hloaded (some run)⟩
  · intro done onFrame
    dsimp only
    refine ⟨fun hnone => ?_, fun hraises => ?_, fun v hrun => ?_⟩
    · have hloaded : s.loaded = false := by
        refine Bool.eq_false_iff.mpr fun h => hnone s.vm ?_
        exact (hlives.running_iff s.vm).mpr ⟨h, rfl⟩
      simp [ScriptHost.runFrame, hloaded]
    · cases hloaded : s.loaded <;> simp [ScriptHost.runFrame, hraises, hloaded]
    · obtain ⟨hloaded, rfl⟩ := (hlives.running_iff v).mp hrun
      obtain ⟨runs, hsub, -, -, hlog, hdraw⟩ := runFrame_spec hloaded done onFrame
      refine ⟨runs, hsub, hlog, fun hraises => ?_⟩
      rw [hdraw, hraises]
      rfl

/-- A reload in the middle: the origin pushed while loading is gone in the frame,
    and `on_unload` runs. -/
example :
    let quiet : CallbackRun Int := ⟨[], true⟩
    let s := after false [.loadScript none true ⟨[.gfx (.pushOrigin 5 5)], true⟩ (some quiet)]
    let (drawList, t) := s.runFrame [] (some ⟨[.gfx (.pixel 1 2 none)], true⟩)
    drawList = [.pixel 1 2 ⟨255, 255, 255, 255⟩] ∧
      (t.loadScript (some quiet) true quiet none).2.log.countP (·.unloads 1) = 1 := by
  decide

end ScriptHost
end LuaApi
end SniLua
