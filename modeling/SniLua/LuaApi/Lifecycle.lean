/-
  SniLua.LuaApi.Lifecycle

  The lifecycle of a script as a machine of its own: which callback may run when.
  It names no flag and no draw list; `ScriptHost` shows that the host follows it.

  A log lists, in order, where loads begin and which callbacks run or are passed
  over.  What a log says about a script ("running") is read off the log itself.
-/

import SniLua.LuaApi.Gfx
import SniLua.Lib.Run

namespace SniLua
namespace LuaApi

open Lib

-- ============================================================================
-- Logs
-- ============================================================================

inductive Callback where
  /-- The top level of the script. -/
  | chunk
  | onInit
  | onFrame
  /-- A callback given to `http.request`. -/
  | http
  | onUnload
deriving DecidableEq

/-- What a script does in the `gfx` table and with `http.request`. -/
inductive Call (F : Type) where
  | gfx (c : GfxCall F)
  /-- `id` is what `submit` answered, `none` when it rejected the request. -/
  | httpRequest (id : Option Nat) (callback : Bool)

/-- A run of a callback: the calls it makes, and whether it returns or raises. -/
structure CallbackRun (F : Type) where
  calls : List (Call F)
  ok : Bool

/-- Scripts are told apart by their VM. -/
inductive Entry (F : Type) where
  /-- `load_script` is called and will make the VM. -/
  | loadBegins (vm : Nat)
  | ran (vm : Nat) (cb : Callback) (run : CallbackRun F)
  /-- The callback is not defined; the chunk, that the API could not be installed. -/
  | skipped (vm : Nat) (cb : Callback)

namespace Entry

variable {F : Type}

def vm : Entry F → Nat
  | loadBegins vm | ran vm _ _ | skipped vm _ => vm

/-- The calls of the callback. -/
def calls : Entry F → List (Call F)
  | ran _ _ run => run.calls
  | _ => []

/-- The chunk of `v` succeeds. -/
def loads (v : Nat) : Entry F → Bool
  | ran vm .chunk run => vm = v && run.ok
  | _ => false

/-- `on_init` of `v` succeeds or is not defined. -/
def inits (v : Nat) : Entry F → Bool
  | ran vm .onInit run => vm = v && run.ok
  | skipped vm .onInit => vm = v
  | _ => false

/-- `on_frame` of `v` raises, or `v` is unloaded. -/
def ends (v : Nat) : Entry F → Bool
  | ran vm .onFrame run => vm = v && !run.ok
  | ran vm .onUnload _ => vm = v
  | skipped vm .onUnload => vm = v
  | _ => false

/-- A load after that of `v` begins. -/
def replaces (v : Nat) : Entry F → Bool
  | loadBegins vm => v < vm
  | _ => false

/-- `on_unload` of `v` runs. -/
def unloads (v : Nat) : Entry F → Bool
  | ran vm .onUnload _ => vm = v
  | _ => false

end Entry

/-- The chunk and `on_init` of `v` have succeeded. -/
def Started {F : Type} (log : List (Entry F)) (v : Nat) : Prop :=
  (∃ e ∈ log, e.loads v) ∧ ∃ e ∈ log, e.inits v

/-- `on_frame` of `v` has raised, `v` was unloaded, or another load has begun. -/
def Stopped {F : Type} (log : List (Entry F)) (v : Nat) : Prop :=
  (∃ e ∈ log, e.ends v) ∨ ∃ e ∈ log, e.replaces v

def Running {F : Type} (log : List (Entry F)) (v : Nat) : Prop :=
  Started log v ∧ ¬ Stopped log v

-- ============================================================================
-- The machine
-- ============================================================================

inductive Phase where
  /-- No script runs; the VM is the last one made. -/
  | stopped (vm : Nat)
  | running (vm : Nat)
  /-- A load has begun, and the script is told. -/
  | replacing (vm : Nat)
  | loading (vm : Nat)
  | initialising (vm : Nat)
deriving DecidableEq

variable {F : Type}

/-- What may come next. -/
inductive Follows : Phase → Entry F → Phase → Prop
  | loads (v : Nat) : Follows (.stopped v) (.loadBegins (v + 1)) (.loading (v + 1))
  | replaces (v : Nat) : Follows (.running v) (.loadBegins (v + 1)) (.replacing v)
  | replaced (v : Nat) (run : CallbackRun F) :
      Follows (.replacing v) (.ran v .onUnload run) (.loading (v + 1))
  | replacedSilently (v : Nat) : Follows (.replacing v) (.skipped v .onUnload) (.loading (v + 1))
  | chunk (v : Nat) (run : CallbackRun F) :
      Follows (.loading v) (.ran v .chunk run) (if run.ok then .initialising v else .stopped v)
  | notInstalled (v : Nat) : Follows (.loading v) (.skipped v .chunk) (.stopped v)
  | onInit (v : Nat) (run : CallbackRun F) :
      Follows (.initialising v) (.ran v .onInit run) (if run.ok then .running v else .stopped v)
  | noInit (v : Nat) : Follows (.initialising v) (.skipped v .onInit) (.running v)
  | http (v : Nat) (run : CallbackRun F) : Follows (.running v) (.ran v .http run) (.running v)
  | onFrame (v : Nat) (run : CallbackRun F) :
      Follows (.running v) (.ran v .onFrame run) (if run.ok then .running v else .stopped v)
  | noFrame (v : Nat) : Follows (.running v) (.skipped v .onFrame) (.running v)
  | unloads (v : Nat) (run : CallbackRun F) :
      Follows (.running v) (.ran v .onUnload run) (.stopped v)
  | unloadsSilently (v : Nat) : Follows (.running v) (.skipped v .onUnload) (.stopped v)

/-- The logs of the machine, with the phase they lead to. -/
inductive Lifecycle : List (Entry F) → Phase → Prop
  | start : Lifecycle [] (.stopped 0)
  | snoc {log : List (Entry F)} {p q : Phase} {e : Entry F} :
      Lifecycle log p → Follows p e q → Lifecycle (log ++ [e]) q

-- ============================================================================
-- Logs along the machine
-- ============================================================================

section Snoc

variable (log : List (Entry F)) (e : Entry F) (P : Entry F → Prop)

theorem exists_mem_snoc : (∃ x ∈ log ++ [e], P x) ↔ (∃ x ∈ log, P x) ∨ P e := by
  simp [or_and_right, exists_or]

theorem forall_mem_snoc : (∀ x ∈ log ++ [e], P x) ↔ (∀ x ∈ log, P x) ∧ P e := by
  simp [or_imp, forall_and]

end Snoc

/-- The log has no word on `on_init` of `v`, nor on its end. -/
def Untouched (log : List (Entry F)) (v : Nat) : Prop :=
  ∀ e ∈ log, e.inits v = false ∧ e.ends v = false

theorem Entry.vm_of_inits {e : Entry F} {v : Nat} (h : e.inits v = true) : e.vm = v := by
  cases e with
  | loadBegins w => simp [inits] at h
  | ran w cb run => cases cb <;> simp_all [inits, vm]
  | skipped w cb => cases cb <;> simp_all [inits, vm]

theorem Entry.vm_of_ends {e : Entry F} {v : Nat} (h : e.ends v = true) : e.vm = v := by
  cases e with
  | loadBegins w => simp [ends] at h
  | ran w cb run => cases cb <;> simp_all [ends, vm]
  | skipped w cb => cases cb <;> simp_all [ends, vm]

theorem Entry.lt_of_replaces {e : Entry F} {v : Nat} (h : e.replaces v = true) : v < e.vm := by
  cases e with
  | loadBegins w => simpa [replaces, vm] using h
  | ran w cb run => simp [replaces] at h
  | skipped w cb => simp [replaces] at h

theorem untouched_of_lt {log : List (Entry F)} {v : Nat} (h : ∀ e ∈ log, e.vm < v) :
    Untouched log v := by
  intro e he
  have hlt := h e he
  constructor
  · exact Bool.eq_false_iff.mpr fun hi => by have := Entry.vm_of_inits hi; omega
  · exact Bool.eq_false_iff.mpr fun hi => by have := Entry.vm_of_ends hi; omega

/-- The newest VM a load was begun for. -/
def Phase.newest : Phase → Nat
  | stopped v | running v | loading v | initialising v => v
  | replacing v => v + 1

/-- The VM in use. -/
def Phase.vm : Phase → Nat
  | stopped v | running v | replacing v | loading v | initialising v => v

/-- What the log says about the VM in use. -/
def Phase.Facts (log : List (Entry F)) : Phase → Prop
  | stopped v => ¬ Running log v
  | running v => Running log v
  | replacing v => Started log v ∧ (∀ e ∈ log, e.ends v = false) ∧ Untouched log (v + 1)
  | loading v => Untouched log v
  | initialising v => (∃ e ∈ log, e.loads v) ∧ Untouched log v

/-- A log that leads to a phase. -/
structure Traced (log : List (Entry F)) (p : Phase) : Prop where
  bound : ∀ e ∈ log, e.vm ≤ p.newest
  replaced : ∀ v < p.newest, ∃ e ∈ log, e.replaces v
  facts : p.Facts log

theorem Started.snoc {log : List (Entry F)} {v : Nat} (h : Started log v) (e : Entry F) :
    Started (log ++ [e]) v := by
  obtain ⟨⟨x, hx, hl⟩, y, hy, hi⟩ := h
  exact ⟨⟨x, List.mem_append_left _ hx, hl⟩, y, List.mem_append_left _ hy, hi⟩

/-- A step that ends nothing leaves a script running. -/
theorem Running.snoc {log : List (Entry F)} {v : Nat} {e : Entry F} (h : Running log v)
    (hends : e.ends v = false) (hreplaces : e.replaces v = false) : Running (log ++ [e]) v := by
  refine ⟨h.1.snoc e, ?_⟩
  rw [Stopped, exists_mem_snoc, exists_mem_snoc, hends, hreplaces]
  simpa [Stopped] using h.2

/-- A script whose end is in the log does not run. -/
theorem not_running_of_ends {log : List (Entry F)} {v : Nat} {e : Entry F}
    (hends : e.ends v = true) : ¬ Running (log ++ [e]) v :=
  fun h => h.2 (.inl ⟨e, by simp, hends⟩)

theorem Untouched.snoc {log : List (Entry F)} {v : Nat} {e : Entry F} (h : Untouched log v)
    (hi : e.inits v = false) (he : e.ends v = false) : Untouched (log ++ [e]) v :=
  (forall_mem_snoc log e _).mpr ⟨h, hi, he⟩

theorem traced_start : Traced ([] : List (Entry F)) (.stopped 0) where
  bound := by simp
  replaced := fun v hv => absurd hv (Nat.not_lt_zero v)
  facts := by
    rintro ⟨⟨⟨e, he, -⟩, -⟩, -⟩
    simp at he

/-- The bounds after a step that begins no load. -/
theorem Traced.same {log : List (Entry F)} {p q : Phase} {e : Entry F} (h : Traced log p)
    (hvm : e.vm ≤ p.newest) (hq : q.newest = p.newest) (facts : q.Facts (log ++ [e])) :
    Traced (log ++ [e]) q where
  bound := by
    rw [forall_mem_snoc, hq]
    exact ⟨h.bound, hvm⟩
  replaced := by
    intro v hv
    obtain ⟨x, hx, hr⟩ := h.replaced v (hq ▸ hv)
    exact ⟨x, List.mem_append_left _ hx, hr⟩
  facts

/-- The bounds after a load has begun. -/
theorem Traced.loadBegins {log : List (Entry F)} {p q : Phase} (h : Traced log p)
    (hq : q.newest = p.newest + 1) (facts : q.Facts (log ++ [.loadBegins (p.newest + 1)])) :
    Traced (log ++ [.loadBegins (p.newest + 1)]) q where
  bound := by
    rw [forall_mem_snoc, hq]
    exact ⟨fun e he => Nat.le_succ_of_le (h.bound e he), Nat.le_refl _⟩
  replaced := by
    intro v hv
    rw [hq] at hv
    exact ⟨.loadBegins (p.newest + 1), by simp, decide_eq_true hv⟩
  facts

theorem untouched_begins {log : List (Entry F)} {p : Phase} (h : Traced log p) :
    Untouched (log ++ [.loadBegins (p.newest + 1)]) (p.newest + 1) :=
  (untouched_of_lt fun e he => Nat.lt_succ_of_le (h.bound e he)).snoc rfl rfl

/-- A VM that is the newest has not been replaced. -/
theorem Traced.not_replaced {log : List (Entry F)} {p : Phase} (h : Traced log p) :
    ¬ ∃ e ∈ log, e.replaces p.newest := by
  rintro ⟨e, he, hr⟩
  exact absurd (Entry.lt_of_replaces hr) (Nat.not_lt_of_le (h.bound e he))

/-- With `on_init` done the script runs. -/
theorem Traced.running_of_inits {log : List (Entry F)} {v : Nat} {e : Entry F}
    (h : Traced log (.initialising v)) (hinits : e.inits v = true) (hends : e.ends v = false)
    (hreplaces : e.replaces v = false) : Running (log ++ [e]) v := by
  obtain ⟨⟨x, hx, hloads⟩, huntouched⟩ := h.facts
  refine ⟨⟨⟨x, List.mem_append_left _ hx, hloads⟩, e, by simp, hinits⟩, ?_⟩
  rw [Stopped, exists_mem_snoc, exists_mem_snoc, hends, hreplaces]
  rintro ((⟨y, hy, hye⟩ | h') | (h' | h'))
  · simp [(huntouched y hy).2] at hye
  · cases h'
  · exact h.not_replaced h'
  · cases h'

/-- A script is not running after a failed `on_init`. -/
theorem not_running_of_failed {log : List (Entry F)} {v : Nat} {e : Entry F}
    (h : Untouched log v) (hinits : e.inits v = false) : ¬ Running (log ++ [e]) v := by
  rintro ⟨⟨-, x, hx, hi⟩, -⟩
  rcases List.mem_append.mp hx with hx | hx
  · simp [(h x hx).1] at hi
  · obtain rfl := List.mem_singleton.mp hx
    simp [hinits] at hi

theorem Traced.step {log : List (Entry F)} {p q : Phase} {e : Entry F} (h : Traced log p)
    (hstep : Follows p e q) : Traced (log ++ [e]) q := by
  have hfacts := h.facts
  cases hstep with
  | loads v => exact h.loadBegins rfl (untouched_begins h)
  | replaces v =>
      obtain ⟨hstarted, hstopped⟩ := hfacts
      refine h.loadBegins rfl ⟨hstarted.snoc _, ?_, untouched_begins h⟩
      refine (forall_mem_snoc log _ _).mpr ⟨fun e he => ?_, rfl⟩
      exact Bool.eq_false_iff.mpr fun hends => hstopped (.inl ⟨e, he, hends⟩)
  | replaced v run =>
      obtain ⟨-, -, huntouched⟩ := hfacts
      exact h.same (Nat.le_succ v) rfl (huntouched.snoc rfl (by simp [Entry.ends]))
  | replacedSilently v =>
      obtain ⟨-, -, huntouched⟩ := hfacts
      exact h.same (Nat.le_succ v) rfl (huntouched.snoc rfl (by simp [Entry.ends]))
  | chunk v run =>
      cases hok : run.ok with
      | true =>
          refine h.same (Nat.le_refl v) rfl ⟨⟨.ran v .chunk run, by simp, ?_⟩, hfacts.snoc rfl rfl⟩
          simp [Entry.loads, hok]
      | false => exact h.same (Nat.le_refl v) rfl (not_running_of_failed hfacts rfl)
  | notInstalled v => exact h.same (Nat.le_refl v) rfl (not_running_of_failed hfacts rfl)
  | onInit v run =>
      cases hok : run.ok with
      | true =>
          exact h.same (Nat.le_refl v) rfl
            (h.running_of_inits (by simp [Entry.inits, hok]) rfl rfl)
      | false =>
          exact h.same (Nat.le_refl v) rfl
            (not_running_of_failed hfacts.2 (by simp [Entry.inits, hok]))
  | noInit v =>
      exact h.same (Nat.le_refl v) rfl (h.running_of_inits (by simp [Entry.inits]) rfl rfl)
  | http v run => exact h.same (Nat.le_refl v) rfl (hfacts.snoc rfl rfl)
  | onFrame v run =>
      cases hok : run.ok with
      | true => exact h.same (Nat.le_refl v) rfl (hfacts.snoc (by simp [Entry.ends, hok]) rfl)
      | false =>
          exact h.same (Nat.le_refl v) rfl (not_running_of_ends (by simp [Entry.ends, hok]))
  | noFrame v => exact h.same (Nat.le_refl v) rfl (hfacts.snoc rfl rfl)
  | unloads v run => exact h.same (Nat.le_refl v) rfl (not_running_of_ends (by simp [Entry.ends]))
  | unloadsSilently v =>
      exact h.same (Nat.le_refl v) rfl (not_running_of_ends (by simp [Entry.ends]))

theorem Lifecycle.traced {log : List (Entry F)} {p : Phase} (h : Lifecycle log p) :
    Traced log p := by
  induction h with
  | start => exact traced_start
  | snoc _ hstep ih => exact ih.step hstep

theorem not_running_of_untouched {log : List (Entry F)} {v : Nat} (h : Untouched log v) :
    ¬ Running log v := by
  rintro ⟨⟨-, e, he, hi⟩, -⟩
  simp [(h e he).1] at hi

/-- Only the newest script can be running. -/
theorem Traced.eq_newest {log : List (Entry F)} {p : Phase} (h : Traced log p) {v : Nat}
    (hrun : Running log v) : v = p.newest := by
  rcases Nat.lt_trichotomy v p.newest with hlt | heq | hgt
  · exact absurd (.inr (h.replaced v hlt)) hrun.2
  · exact heq
  · obtain ⟨⟨-, e, he, hi⟩, -⟩ := hrun
    have hvm := Entry.vm_of_inits hi
    have hbound := h.bound e he
    omega

/-- The machine and the log agree on which script is running. -/
theorem Lifecycle.running_iff {log : List (Entry F)} {p : Phase} (h : Lifecycle log p) (v : Nat) :
    Running log v ↔ p = .running v := by
  have ht := h.traced
  have hfacts := ht.facts
  constructor
  · intro hrun
    obtain rfl := ht.eq_newest hrun
    cases p with
    | stopped u => exact absurd hrun hfacts
    | running u => rfl
    | replacing u => exact absurd hrun (not_running_of_untouched hfacts.2.2)
    | loading u => exact absurd hrun (not_running_of_untouched hfacts)
    | initialising u => exact absurd hrun (not_running_of_untouched hfacts.2)
  · rintro rfl
    exact hfacts

/-- The last step of a log. -/
theorem Lifecycle.of_snoc {log : List (Entry F)} {e : Entry F} {q : Phase}
    (h : Lifecycle (log ++ [e]) q) : ∃ p, Lifecycle log p ∧ Follows p e q := by
  generalize hlog : log ++ [e] = log' at h
  cases h with
  | start => simp at hlog
  | snoc h hstep =>
      obtain ⟨rfl, he⟩ := List.append_inj' hlog rfl
      obtain rfl := List.singleton_inj.mp he
      exact ⟨_, h, hstep⟩

/-- Every entry of a log is a step of the machine. -/
theorem Lifecycle.of_append {pre post : List (Entry F)} {e : Entry F} {p : Phase}
    (h : Lifecycle (pre ++ e :: post) p) : ∃ q r, Lifecycle pre q ∧ Follows q e r := by
  induction post using List.reverseRecOn generalizing p with
  | nil =>
      obtain ⟨q, hq, hstep⟩ := h.of_snoc
      exact ⟨q, p, hq, hstep⟩
  | append_singleton post x ih =>
      rw [← List.cons_append, ← List.append_assoc] at h
      obtain ⟨q, hq, -⟩ := h.of_snoc
      exact ih hq

-- ============================================================================
-- Who runs when
-- ============================================================================

/-- `on_frame` and HTTP callbacks run only while their script does. -/
theorem Lifecycle.running_of_ran {pre post : List (Entry F)} {v : Nat} {cb : Callback}
    {run : CallbackRun F} {p : Phase} (h : Lifecycle (pre ++ .ran v cb run :: post) p)
    (hcb : cb = .onFrame ∨ cb = .http) : Running pre v := by
  obtain ⟨q, r, hq, hstep⟩ := h.of_append
  rcases hcb with rfl | rfl
  · cases hstep with
    | onFrame => exact (hq.running_iff v).mpr rfl
  · cases hstep with
    | http => exact (hq.running_iff v).mpr rfl

/-- Only a load that begins while a script runs leads to its replacement. -/
theorem Follows.of_replacing {p q : Phase} {e : Entry F} {v : Nat} (h : Follows p e q)
    (hq : q = .replacing v) : p = .running v ∧ e = .loadBegins (v + 1) := by
  cases h with
  | replaces w =>
      obtain rfl : w = v := by simpa using hq
      exact ⟨rfl, rfl⟩
  | chunk | onInit | onFrame => split at hq <;> cases hq
  | _ => cases hq

/-- `on_unload` runs for a script that was running until then, or until a load
    began right before. -/
theorem Lifecycle.running_of_unloads {pre post : List (Entry F)} {v : Nat} {run : CallbackRun F}
    {p : Phase} (h : Lifecycle (pre ++ .ran v .onUnload run :: post) p) :
    ∃ pre', Running pre' v ∧ (pre = pre' ∨ pre = pre' ++ [.loadBegins (v + 1)]) := by
  obtain ⟨q, r, hq, hstep⟩ := h.of_append
  cases hstep with
  | unloads => exact ⟨pre, (hq.running_iff v).mpr rfl, .inl rfl⟩
  | replaced =>
      generalize hphase : Phase.replacing v = q at hq
      cases hq with
      | start => cases hphase
      | snoc hq hstep =>
          obtain ⟨rfl, rfl⟩ := hstep.of_replacing hphase.symm
          exact ⟨_, (hq.running_iff v).mpr rfl, .inr rfl⟩

theorem Entry.ends_of_unloads {e : Entry F} {v : Nat} (h : e.unloads v = true) :
    e.ends v = true := by
  cases e with
  | loadBegins w => simp [unloads] at h
  | ran w cb run => cases cb <;> simp_all [unloads, ends]
  | skipped w cb => simp [unloads] at h

/-- What runs `on_unload` of `v` finds no end of `v`. -/
theorem Traced.no_ends {log : List (Entry F)} {p q : Phase} {e : Entry F} {v : Nat}
    (h : Traced log p) (hstep : Follows p e q) (hun : e.unloads v = true) :
    ∀ x ∈ log, x.ends v = false := by
  have hfacts := h.facts
  intro x hx
  cases hstep with
  | replaced w run =>
      obtain rfl : w = v := by simpa [Entry.unloads] using hun
      exact hfacts.2.1 x hx
  | unloads w run =>
      obtain rfl : w = v := by simpa [Entry.unloads] using hun
      exact Bool.eq_false_iff.mpr fun hends => hfacts.2 (.inl ⟨x, hx, hends⟩)
  | _ => simp [Entry.unloads] at hun

/-- `on_unload` of a script runs at most once. -/
theorem Lifecycle.countP_unloads_le_one {log : List (Entry F)} {p : Phase} (h : Lifecycle log p)
    (v : Nat) : log.countP (·.unloads v) ≤ 1 := by
  induction h with
  | start => simp
  | @snoc log p q e hlog hstep ih =>
      rw [List.countP_append, List.countP_singleton]
      cases hun : e.unloads v with
      | false => simpa using ih
      | true =>
          have hnone : log.countP (·.unloads v) = 0 := by
            refine List.countP_eq_zero.mpr fun x hx hxun => ?_
            have hends := hlog.traced.no_ends hstep hun x hx
            rw [Entry.ends_of_unloads hxun] at hends
            cases hends
          simp [hnone]

/-- HTTP callbacks leave a script running. -/
theorem Lifecycle.https {log : List (Entry F)} {v : Nat} (h : Lifecycle log (.running v))
    (runs : List (CallbackRun F)) : Lifecycle (log ++ runs.map (.ran v .http)) (.running v) := by
  induction runs generalizing log with
  | nil => simpa using h
  | cons run runs ih => simpa using ih (h.snoc (.http v run))

end LuaApi
end SniLua
