/-
  SniLua.LuaApi.ControlDomains

  The values of the settings panel.  A control is seeded from a document that may
  have been edited by hand, updated by the script and edited by the app; each of
  the three clamps on its own.  The app indexes the options of a select and
  `ui.get` reports the index, so a value must never leave its domain.

  `declarations` is what the panel should be: the declarations since the last load.
  Every control stays of its declaration, with its value in the domain.
-/

import Mathlib.Data.List.Forall2
import Mathlib.Data.List.Induction
import SniLua.LuaApi.Panel

namespace SniLua
namespace LuaApi

open Lib

-- ============================================================================
-- Domains
-- ============================================================================

/-- The value is in the domain of its control. -/
def Control.InDomain : Control → Prop
  | .slider _ _ min max v =>
      F64.le (F64.minNum min max) v = true ∧ F64.le v (F64.maxNum min max) = true
  | .select _ _ options v => v < max 1 options.length
  | _ => True

/-- The values the widget of a control can be set to. -/
def Control.InWidget : Control → ControlValue → Prop
  | .slider _ _ min max _, .num x =>
      F64.le (F64.minNum min max) x = true ∧ F64.le x (F64.maxNum min max) = true
  | .select _ _ options _, .index i => i < options.length
  | _, _ => True

/-- The numbers of a declaration are no NaN. -/
def Declaration.NanFree : Declaration → Prop
  | .slider _ _ min max default => min ≠ .nan ∧ max ≠ .nan ∧ default ≠ some .nan
  | _ => True

/-- A document holds no NaN. -/
theorem asF64_ne_nan {j : Json} {x : F64} (h : j.asF64 = some x) : x ≠ .nan := by
  cases j with
  | number n =>
      cases n <;>
      · obtain rfl := Option.some.inj h
        simp [F64.ofInt]
  | _ => exact absurd h (by simp [Json.asF64])

theorem clampSlider_between {min max x : F64} (hmin : min ≠ .nan) (hmax : max ≠ .nan)
    (hx : x ≠ .nan) :
    F64.le (F64.minNum min max) (clampSlider min max x) = true ∧
      F64.le (clampSlider min max x) (F64.maxNum min max) = true := by
  obtain ⟨hlo, hhi, hle⟩ := F64.minNum_maxNum_of_not_nan hmin hmax
  exact F64.clamp_between hx hlo hhi hle

-- ============================================================================
-- One control
-- ============================================================================

/-- Whatever the document holds, a declared control starts in its domain. -/
theorem inDomain_declare {d : Declaration} (hd : d.NanFree) (seed : String → Option Json) :
    (d.declare seed).InDomain := by
  cases d with
  | slider id caption min max default =>
      obtain ⟨hmin, hmax, hdefault⟩ := hd
      have hvalue : ((seed id).bind Json.asF64).getD (default.getD min) ≠ .nan := by
        cases hseed : (seed id).bind Json.asF64 with
        | some x =>
            obtain ⟨j, -, hj⟩ := Option.bind_eq_some_iff.mp hseed
            exact asF64_ne_nan hj
        | none =>
            cases default with
            | none => exact hmin
            | some x => exact fun h => hdefault (congrArg some h)
      exact clampSlider_between hmin hmax hvalue
  | select id caption options default =>
      show min _ _ < _
      omega
  | _ => exact trivial

/-- So does a control that `ui.set` has changed. -/
theorem inDomain_setTo {V : Type} {view : LuaView V} {v : V} (hv : view.asF64 v ≠ some .nan)
    {d : Declaration} {c : Control} (h : Declares d c) (hd : d.NanFree) (hc : c.InDomain) :
    (c.setTo view v).InDomain := by
  cases h with
  | slider id caption min max default value =>
      rw [Control.setTo]
      cases hx : view.asF64 v with
      | none => exact hc
      | some x => exact clampSlider_between hd.1 hd.2.1 fun hnan => hv (hx.trans (congrArg some hnan))
  | select id caption options default value =>
      rw [Control.setTo]
      cases view.asU64 v with
      | none => exact hc
      | some n =>
          show min (n - 1) (options.length - 1) < _
          omega
  | _ => exact trivial

/-- And one that the app has edited. -/
theorem inDomain_withValue {c : Control} (hc : c.InDomain) {v : ControlValue}
    (hv : c.InWidget v) : (c.withValue v).InDomain := by
  cases c with
  | slider id caption min max value =>
      cases v with
      | num x => exact hv
      | _ => exact hc
  | select id caption options value =>
      cases v with
      | index i => exact Nat.lt_of_lt_of_le hv (Nat.le_max_right ..)
      | _ => exact hc
  | _ => cases v <;> exact trivial

-- ============================================================================
-- The panel
-- ============================================================================

def Control.setPressed (pressed : Bool) : Control → Control
  | .button id caption _ => .button id caption pressed
  | c => c

def Control.isPressed : Control → Bool
  | .button _ _ pressed => pressed
  | _ => false

/-- `ui.pressed(id)`: the first control with the id, and what its latch held. -/
def uiPressed (id : String) : List Control → Bool × List Control
  | [] => (false, [])
  | c :: cs =>
      if c.id = some id then (c.isPressed, c.setPressed false :: cs)
      else ((uiPressed id cs).1, c :: (uiPressed id cs).2)

/-- What happens to a panel. -/
inductive ControlEvent (V : Type) where
  /-- `load_script` drops the panel of the previous script. -/
  | clear
  /-- A declaration, seeded from a document. -/
  | declare (doc : JsonMap) (d : Declaration)
  | set (id : String) (v : V)
  | pressed (id : String)
  /-- The app changes the value of a control. -/
  | edit (i : Nat) (v : ControlValue)
  /-- The app latches a button. -/
  | click (i : Nat)

section Panel

variable {V : Type} (view : LuaView V)

def ControlEvent.apply (cs : List Control) : ControlEvent V → List Control
  | .clear => []
  | .declare doc d => cs ++ [d.declare (seed doc)]
  | .set id v => uiSet view id v cs
  | .pressed id => (uiPressed id cs).2
  | .edit i v => cs.modify i (·.withValue v)
  | .click i => cs.modify i (·.setPressed true)

def panelAfter (es : List (ControlEvent V)) : List Control := es.foldl (ControlEvent.apply view) []

/-- The numbers are no NaN, and an edit stays in the range of its widget. -/
def ControlEvent.Allowed (cs : List Control) : ControlEvent V → Prop
  | .declare _ d => d.NanFree
  | .set _ v => view.asF64 v ≠ some .nan
  | .edit i v => ∀ c, cs[i]? = some c → c.InWidget v
  | .clear | .pressed _ | .click _ => True

/-- The declarations since the last load. -/
def declarations (es : List (ControlEvent V)) : List Declaration :=
  es.foldl (fun ds e =>
    match e with
    | .clear => []
    | .declare _ d => ds ++ [d]
    | _ => ds) []

/-- The control is of the declaration, with its value in the domain. -/
structure KeepsDomain (d : Declaration) (c : Control) : Prop where
  declares : Declares d c
  nanFree : d.NanFree
  inDomain : c.InDomain

variable {view}

theorem KeepsDomain.setPressed {d : Declaration} {c : Control} (h : KeepsDomain d c)
    (pressed : Bool) : KeepsDomain d (c.setPressed pressed) := by
  obtain ⟨hdeclares, hnan, hin⟩ := h
  cases hdeclares <;> exact ⟨by constructor, hnan, hin⟩

theorem keepsDomain_uiPressed {ds : List Declaration} {cs : List Control}
    (h : List.Forall₂ KeepsDomain ds cs) (id : String) :
    List.Forall₂ KeepsDomain ds (uiPressed id cs).2 := by
  induction h with
  | nil => exact .nil
  | cons hd hl ih =>
      rw [uiPressed]
      split
      · exact .cons (hd.setPressed false) hl
      · exact .cons hd ih

theorem keepsDomain_uiSet {ds : List Declaration} {cs : List Control}
    (h : List.Forall₂ KeepsDomain ds cs) (id : String) {v : V}
    (hv : view.asF64 v ≠ some .nan) : List.Forall₂ KeepsDomain ds (uiSet view id v cs) := by
  induction h with
  | nil => exact .nil
  | cons hd hl ih =>
      rw [uiSet]
      split
      · exact .cons ⟨hd.declares.setTo view v, hd.nanFree,
          inDomain_setTo hv hd.declares hd.nanFree hd.inDomain⟩ hl
      · exact .cons hd ih

/-- A change of one control in place. -/
theorem keepsDomain_modify {ds : List Declaration} {cs : List Control}
    (h : List.Forall₂ KeepsDomain ds cs) {i : Nat} {f : Control → Control}
    (hf : ∀ c, cs[i]? = some c → ∀ d, KeepsDomain d c → KeepsDomain d (f c)) :
    List.Forall₂ KeepsDomain ds (cs.modify i f) := by
  induction h generalizing i with
  | nil => simp
  | cons hd hl ih =>
      cases i with
      | zero => exact .cons (hf _ rfl _ hd) hl
      | succ i => exact .cons hd (ih fun c hc => hf c hc)

/-- One event keeps every control of its declaration and in its domain. -/
theorem keepsDomain_step {es : List (ControlEvent V)} {e : ControlEvent V}
    (h : List.Forall₂ KeepsDomain (declarations es) (panelAfter view es))
    (he : e.Allowed view (panelAfter view es)) :
    List.Forall₂ KeepsDomain (declarations (es ++ [e])) (panelAfter view (es ++ [e])) := by
  rw [declarations, panelAfter, List.foldl_append, List.foldl_append]
  cases e with
  | clear => exact .nil
  | declare doc d =>
      exact List.rel_append h (.cons ⟨.declare _ d, he, inDomain_declare he _⟩ .nil)
  | set id v => exact keepsDomain_uiSet h id he
  | pressed id => exact keepsDomain_uiPressed h id
  | edit i v =>
      refine keepsDomain_modify h fun c hc d hd => ?_
      exact ⟨hd.declares.withValue v, hd.nanFree, inDomain_withValue hd.inDomain (he c hc)⟩
  | click i => exact keepsDomain_modify h fun c _ d hd => hd.setPressed true

theorem keepsDomain_run {es : List (ControlEvent V)}
    (hes : ∀ pre e post, es = pre ++ e :: post → e.Allowed view (panelAfter view pre)) :
    List.Forall₂ KeepsDomain (declarations es) (panelAfter view es) := by
  induction es using List.reverseRecOn with
  | nil => exact .nil
  | append_singleton es e ih =>
      refine keepsDomain_step (ih ?_) (hes es e [] rfl)
      intro pre e' post hsplit
      exact hes pre e' (post ++ [e]) (by rw [hsplit]; simp)

/-- `ui.set` changes the first control with the id, or nothing. -/
theorem uiSet_cases (id : String) (v : V) (cs : List Control) :
    ((∀ c ∈ cs, c.id ≠ some id) ∧ uiSet view id v cs = cs) ∨
      ∃ pre c post, cs = pre ++ c :: post ∧ (∀ c' ∈ pre, c'.id ≠ some id) ∧ c.id = some id ∧
        uiSet view id v cs = pre ++ c.setTo view v :: post := by
  induction cs with
  | nil => exact Or.inl ⟨by simp, rfl⟩
  | cons c cs ih =>
      by_cases hid : c.id = some id
      · refine Or.inr ⟨[], c, cs, rfl, by simp, hid, ?_⟩
        rw [uiSet, if_pos hid]
        rfl
      · rw [uiSet, if_neg hid]
        rcases ih with ⟨hnone, heq⟩ | ⟨pre, c', post, hcs, hpre, hid', heq⟩
        · refine Or.inl ⟨?_, by rw [heq]⟩
          intro c' hc'
          rcases List.mem_cons.mp hc' with rfl | hc'
          · exact hid
          · exact hnone c' hc'
        · refine Or.inr ⟨c :: pre, c', post, by rw [hcs]; rfl, ?_, hid', by rw [heq]; rfl⟩
          intro c'' hc''
          rcases List.mem_cons.mp hc'' with rfl | hc''
          · exact hid
          · exact hpre c'' hc''

/-- **Control values stay in their domain.**  Over every sequence of loads,
    declarations seeded from any document, `ui.set` and `ui.pressed` calls and
    edits of the app, without NaN and with edits in the range of their widgets:
    every control is of its declaration, with the kind, the bounds and the options
    declared, and every value is in its domain.  A `ui.set` changes the first
    control with its id, or nothing. -/
theorem controls_stay_in_domain {es : List (ControlEvent V)}
    (hes : ∀ pre e post, es = pre ++ e :: post → e.Allowed view (panelAfter view pre)) :
    List.Forall₂ Declares (declarations es) (panelAfter view es) ∧
    (∀ c ∈ panelAfter view es, c.InDomain) ∧
    ∀ id v,
      ((∀ c ∈ panelAfter view es, c.id ≠ some id) ∧
        uiSet view id v (panelAfter view es) = panelAfter view es) ∨
      ∃ pre c post, panelAfter view es = pre ++ c :: post ∧ (∀ c' ∈ pre, c'.id ≠ some id) ∧
        c.id = some id ∧
        uiSet view id v (panelAfter view es) = pre ++ c.setTo view v :: post := by
  have hkeeps := keepsDomain_run hes
  refine ⟨hkeeps.imp fun _ _ h => h.declares, ?_, fun id v => uiSet_cases id v _⟩
  intro c hc
  generalize panelAfter view es = cs at hkeeps hc
  generalize declarations es = ds at hkeeps
  induction hkeeps with
  | nil => exact absurd hc (by simp)
  | cons hd _ ih =>
      rcases List.mem_cons.mp hc with rfl | hc
      · exact hd.inDomain
      · exact ih hc

end Panel

/-- A slider with reversed bounds, its saved value and an update out of range. -/
def speedEvents : List (ControlEvent Json) :=
  [.declare [(storeKey, .object [("speed", .number (.posInt 99))])]
      (.slider "speed" "Speed" (.fin 10) (.fin 0) none),
    .set "speed" (.number (.float (-11 / 2)))]

theorem controls_stay_in_domain_speed :
    List.Forall₂ Declares (declarations speedEvents) (panelAfter jsonView speedEvents) ∧
      ∀ c ∈ panelAfter jsonView speedEvents, c.InDomain := by
  refine (controls_stay_in_domain ?_).imp_right And.left
  intro pre e post hsplit
  match pre, hsplit with
  | [], hsplit =>
      obtain ⟨rfl, -⟩ := List.cons.inj hsplit
      exact ⟨by simp, by simp, by simp⟩
  | [_], hsplit =>
      obtain ⟨-, hsplit⟩ := List.cons.inj hsplit
      obtain ⟨rfl, -⟩ := List.cons.inj hsplit
      simp [ControlEvent.Allowed, jsonView]
  | _ :: _ :: pre, hsplit =>
      obtain ⟨-, hsplit⟩ := List.cons.inj hsplit
      obtain ⟨-, hsplit⟩ := List.cons.inj hsplit
      simp at hsplit

end LuaApi
end SniLua
