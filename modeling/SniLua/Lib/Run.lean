/-
  SniLua.Lib.Run

  Finite runs of a partial step function `step : S → E → Option S`.

  A run carries its trace, the list of pairs (state before the step, event), so
  that a property of the steps of a run is a property of the members of a list
  and a history ("the last step that ...") is a function of a list.  Two rules
  do all the work: `Run.invariant` for predicates on states and
  `Run.trace_invariant` for predicates on the trace so far and the state.
-/

import Mathlib.Data.List.Forall2
import Mathlib.Data.List.Induction

namespace SniLua
namespace Lib

variable {S E : Type}

/-- `Run step s tr t`: the events of `tr` lead from `s` to `t`, each of them
    enabled in the state it is paired with. -/
inductive Run (step : S → E → Option S) (s : S) : List (S × E) → S → Prop
  | refl : Run step s [] s
  | snoc {tr : List (S × E)} {u v : S} {e : E} :
      Run step s tr u → step u e = some v → Run step s (tr ++ [(u, e)]) v

namespace Run

variable {step : S → E → Option S} {s t : S} {tr : List (S × E)}

/-- A predicate on states kept by every step that satisfies `P` holds at the
    end of a run whose steps all satisfy `P`. -/
theorem invariant {P : S → E → Prop} {I : S → Prop}
    (hstep : ∀ u e v, P u e → I u → step u e = some v → I v)
    (hrun : Run step s tr t) (hP : ∀ x ∈ tr, P x.1 x.2) (h0 : I s) : I t := by
  induction hrun with
  | refl => exact h0
  | snoc hrun hs ih =>
      refine hstep _ _ _ (hP (_, _) (List.mem_append_right _ (List.mem_singleton_self _))) ?_ hs
      exact ih fun x hx => hP x (List.mem_append_left _ hx)

/-- A predicate on the trace so far and the state, kept by every step. -/
theorem trace_invariant {I : List (S × E) → S → Prop}
    (hstep : ∀ tr u e v, Run step s tr u → I tr u → step u e = some v →
      I (tr ++ [(u, e)]) v)
    (hrun : Run step s tr t) (h0 : I [] s) : I tr t := by
  induction hrun with
  | refl => exact h0
  | snoc hrun hs ih => exact hstep _ _ _ _ hrun ih hs

/-- Every state a step of the run is taken in is itself reached by a run, along
    a prefix of the trace. -/
theorem prefix_of_mem {x : S × E} (hrun : Run step s tr t) (hx : x ∈ tr) :
    ∃ pre post, tr = pre ++ x :: post ∧ Run step s pre x.1 := by
  induction hrun with
  | refl => exact absurd hx (by simp)
  | @snoc tr u v e hrun hs ih =>
      rcases List.mem_append.mp hx with hx | hx
      · obtain ⟨pre, post, rfl, hpre⟩ := ih hx
        exact ⟨pre, post ++ [(u, e)], by simp, hpre⟩
      · obtain rfl := List.mem_singleton.mp hx
        exact ⟨tr, [], by simp, hrun⟩

/-- Runs compose. -/
theorem trans {tr₁ tr₂ : List (S × E)} {u : S}
    (h₁ : Run step s tr₁ u) (h₂ : Run step u tr₂ t) : Run step s (tr₁ ++ tr₂) t := by
  induction h₂ with
  | refl => simpa using h₁
  | snoc h hs ih => rw [← List.append_assoc]; exact ih.snoc hs

/-- The last step of a run. -/
theorem of_snoc {x : S × E} (h : Run step s (tr ++ [x]) t) :
    Run step s tr x.1 ∧ step x.1 x.2 = some t := by
  generalize htr : tr ++ [x] = tr' at h
  cases h with
  | refl => simp at htr
  | @snoc tr₀ u v e h hs =>
      obtain ⟨rfl, hx⟩ := List.append_inj' htr rfl
      obtain rfl := List.singleton_inj.mp hx
      exact ⟨h, hs⟩

/-- A run splits where its trace does. -/
theorem split {tr₁ tr₂ : List (S × E)} (h : Run step s (tr₁ ++ tr₂) t) :
    ∃ u, Run step s tr₁ u ∧ Run step u tr₂ t := by
  induction tr₂ using List.reverseRecOn generalizing t with
  | nil => exact ⟨t, by simpa using h, .refl⟩
  | append_singleton tr₂ x ih =>
      rw [← List.append_assoc] at h
      obtain ⟨h, hs⟩ := h.of_snoc
      obtain ⟨u, h₁, h₂⟩ := ih h
      exact ⟨u, h₁, h₂.snoc hs⟩

/-- A run taken apart at one of its steps. -/
theorem split_at {tr₁ tr₂ : List (S × E)} {u : S} {e : E}
    (h : Run step s (tr₁ ++ (u, e) :: tr₂) t) :
    ∃ v, Run step s tr₁ u ∧ step u e = some v ∧ Run step v tr₂ t := by
  rw [List.append_cons] at h
  obtain ⟨v, h₁, h₂⟩ := h.split
  obtain ⟨h₁, hs⟩ := h₁.of_snoc
  exact ⟨v, h₁, hs, h₂⟩

/-- A potential that every step lowers by what it gains bounds the number of
    gaining steps of a run. -/
theorem potential {P : S → E → Prop} (gain : S × E → Bool) (pot : S → Nat)
    (hstep : ∀ u e v, P u e → step u e = some v →
      pot v + (if gain (u, e) then 1 else 0) ≤ pot u)
    (hrun : Run step s tr t) (hP : ∀ x ∈ tr, P x.1 x.2) : pot t + tr.countP gain ≤ pot s := by
  induction hrun with
  | refl => simp
  | @snoc tr u v e hrun hs ih =>
      have hold := ih fun x hx => hP x (List.mem_append_left _ hx)
      have hnew := hstep u e v (hP (u, e) (by simp)) hs
      rw [List.countP_append, List.countP_singleton]
      omega

/-- A measure that grows only in counted steps is bounded by their number. -/
theorem growth {P : S → E → Prop} (counted : S × E → Bool) (meas : S → Nat)
    (hstep : ∀ u e v, P u e → step u e = some v →
      meas v ≤ meas u + (if counted (u, e) then 1 else 0))
    (hrun : Run step s tr t) (hP : ∀ x ∈ tr, P x.1 x.2) : meas t ≤ meas s + tr.countP counted := by
  induction hrun with
  | refl => simp
  | @snoc tr u v e hrun hs ih =>
      have hold := ih fun x hx => hP x (List.mem_append_left _ hx)
      have hnew := hstep u e v (hP (u, e) (by simp)) hs
      rw [List.countP_append, List.countP_singleton]
      omega

/-- A second machine keeps up with a run, event by event, while every step that
    satisfies `P` is matched by one of its own. -/
theorem simulate {step' : S → E → Option S} {P : S → E → Prop} {R : S → S → Prop}
    (hstep : ∀ tr u u' e v, Run step s tr u → P u e → R u u' → step u e = some v →
      ∃ v', step' u' e = some v' ∧ R v v')
    (hrun : Run step s tr t) (hP : ∀ x ∈ tr, P x.1 x.2) {s' : S} (h0 : R s s') :
    ∃ tr' t', Run step' s' tr' t' ∧
      List.Forall₂ (fun x x' => x'.2 = x.2 ∧ R x.1 x'.1) tr tr' ∧ R t t' := by
  induction hrun with
  | refl => exact ⟨[], s', .refl, .nil, h0⟩
  | @snoc tr u v e hrun hs ih =>
      obtain ⟨tr', u', hrun', hall, hR⟩ := ih fun x hx => hP x (List.mem_append_left _ hx)
      obtain ⟨v', hs', hR'⟩ := hstep tr u u' e v hrun (hP (u, e) (by simp)) hR hs
      exact ⟨tr' ++ [(u', e)], v', hrun'.snoc hs', List.rel_append hall (.cons ⟨rfl, hR⟩ .nil), hR'⟩

end Run

/-! ## Executing a list of events -/

/-- The state a list of events leads to, `none` if one of them is not enabled. -/
def exec (step : S → E → Option S) (s : S) : List E → Option S
  | [] => some s
  | e :: es =>
      match step s e with
      | some t => exec step t es
      | none => none

/-- The trace of executing a list of events. -/
def trace (step : S → E → Option S) (s : S) : List E → List (S × E)
  | [] => []
  | e :: es =>
      match step s e with
      | some t => (s, e) :: trace step t es
      | none => []

/-- An execution is a run along its trace. -/
theorem run_of_exec {step : S → E → Option S} {s t : S} {es : List E}
    (h : exec step s es = some t) : Run step s (trace step s es) t := by
  induction es generalizing s with
  | nil =>
      obtain rfl : s = t := by simpa [exec] using h
      exact .refl
  | cons e es ih =>
      cases hs : step s e with
      | none => simp [exec, hs] at h
      | some u =>
          simp only [exec, hs] at h
          simp only [trace, hs]
          have hone : Run step s [(s, e)] u := Run.snoc .refl hs
          simpa using hone.trans (ih h)

/-- The state a list of events leads to, the first one if it gets stuck. -/
def final (step : S → E → Option S) (s : S) (es : List E) : S := (exec step s es).getD s

/-- An execution that does not get stuck is a run to its final state. -/
theorem run_final {step : S → E → Option S} {s : S} {es : List E}
    (h : (exec step s es).isSome) : Run step s (trace step s es) (final step s es) := by
  obtain ⟨t, ht⟩ := Option.isSome_iff_exists.mp h
  refine run_of_exec ?_
  rw [final, ht]
  rfl

theorem exec_singleton {step : S → E → Option S} (s : S) (e : E) : exec step s [e] = step s e := by
  simp only [exec]
  cases step s e <;> rfl

theorem exec_append {step : S → E → Option S} {s : S} {es fs : List E} :
    exec step s (es ++ fs) = (exec step s es).bind fun u => exec step u fs := by
  induction es generalizing s with
  | nil => rfl
  | cons e es ih =>
      simp only [List.cons_append, exec]
      cases step s e with
      | none => rfl
      | some u => exact ih

theorem exec_concat {step : S → E → Option S} {s : S} {es : List E} {e : E} :
    exec step s (es ++ [e]) = (exec step s es).bind fun u => step u e := by
  have hsingle : ∀ u, exec step u [e] = step u e := by
    intro u
    simp only [exec]
    cases step u e <;> rfl
  rw [exec_append]
  simp only [hsingle]

/-- The run of an execution, its last event apart. -/
theorem run_final_concat {step : S → E → Option S} {s : S} {es : List E} {e : E}
    (h : (exec step s (es ++ [e])).isSome) :
    Run step s (trace step s es ++ [(final step s es, e)]) (final step s (es ++ [e])) := by
  obtain ⟨t, ht⟩ := Option.isSome_iff_exists.mp h
  obtain ⟨u, hu, hs⟩ := Option.bind_eq_some_iff.mp (exec_concat.symm.trans ht)
  have hfinal : final step s es = u := by rw [final, hu]; rfl
  have hfinal' : final step s (es ++ [e]) = t := by rw [final, ht]; rfl
  rw [hfinal, hfinal']
  exact (run_of_exec hu).snoc hs

/-- When a step is enabled and lowers a measure for as long as the measure is
    positive, whatever the event is, every sequence of events brings it to zero
    within as many steps as it counts at the start. -/
theorem exists_exec_measure_zero {step : S → E → Option S} {m : S → Nat}
    (hstep : ∀ s e, 0 < m s → ∃ t, step s e = some t ∧ m t < m s) (s : S) (es : Nat → E) :
    ∃ n ≤ m s, ∃ t, exec step s ((List.range n).map es) = some t ∧ m t = 0 := by
  induction hm : m s using Nat.strongRecOn generalizing s es with
  | ind k ih =>
      rcases Nat.eq_zero_or_pos k with rfl | hpos
      · exact ⟨0, Nat.le_refl _, s, rfl, hm⟩
      · obtain ⟨u, hs, hlt⟩ := hstep s (es 0) (by omega)
        obtain ⟨n, hn, t, ht, hzero⟩ := ih (m u) (by omega) u (fun i => es (i + 1)) rfl
        refine ⟨n + 1, by omega, t, ?_, hzero⟩
        rw [List.range_succ_eq_map, List.map_cons, List.map_map, exec, hs]
        exact ht

/-- The trace of an execution lists its events. -/
theorem map_snd_trace {step : S → E → Option S} {s : S} {es : List E}
    (h : (exec step s es).isSome) : (trace step s es).map (·.2) = es := by
  induction es generalizing s with
  | nil => rfl
  | cons e es ih =>
      cases hs : step s e with
      | none => simp [exec, hs] at h
      | some u =>
          simp only [exec, hs] at h
          simp only [trace, hs, List.map_cons, ih h]

theorem mem_of_mem_trace {step : S → E → Option S} {s : S} {es : List E} {x : S × E}
    (h : x ∈ trace step s es) : x.2 ∈ es := by
  induction es generalizing s with
  | nil => simp [trace] at h
  | cons e es ih =>
      cases hs : step s e with
      | none => simp [trace, hs] at h
      | some u =>
          simp only [trace, hs] at h
          rcases List.mem_cons.mp h with rfl | h
          · exact List.mem_cons_self ..
          · exact List.mem_cons_of_mem _ (ih h)

/-- The first step of a trace is taken in the first state. -/
theorem mem_trace_cons {step : S → E → Option S} {s : S} {e : E} {es : List E} {x : S × E}
    (h : x ∈ trace step s (e :: es)) : x = (s, e) ∨ x.2 ∈ es := by
  cases hs : step s e with
  | none => simp [trace, hs] at h
  | some u =>
      simp only [trace, hs] at h
      exact (List.mem_cons.mp h).imp_right mem_of_mem_trace

theorem head_mem_trace {step : S → E → Option S} {s t : S} {e : E} {es : List E}
    (h : exec step s (e :: es) = some t) : (s, e) ∈ trace step s (e :: es) := by
  cases hs : step s e with
  | none => simp [exec, hs] at h
  | some u => simp [trace, hs]

/-- The trace of an execution that goes on. -/
theorem trace_append {step : S → E → Option S} {s t : S} {es : List E}
    (h : exec step s es = some t) (fs : List E) :
    trace step s (es ++ fs) = trace step s es ++ trace step t fs := by
  induction es generalizing s with
  | nil =>
      obtain rfl : s = t := by simpa [exec] using h
      rfl
  | cons e es ih =>
      cases hs : step s e with
      | none => simp [exec, hs] at h
      | some u =>
          simp only [exec, hs] at h
          simp only [List.cons_append, trace, hs, ih h]

/-! ## Refinement -/

section Refinement

variable {S' E' : Type} {step : S → E → Option S} {step' : S' → E' → Option S'}

/-- When every step of a machine is an execution of a more abstract one, with as
    many events as it takes, so is every run, and the trace of the abstract
    execution is made of the traces of the steps. -/
theorem Run.refines (abs : S → S') {evs : S → E → List E'} {I : S → Prop}
    (hstep : ∀ u e v, I u → step u e = some v →
      I v ∧ exec step' (abs u) (evs u e) = some (abs v))
    {s t : S} {tr : List (S × E)} (hrun : Run step s tr t) (h0 : I s) :
    exec step' (abs s) (tr.flatMap fun x => evs x.1 x.2) = some (abs t) ∧
      trace step' (abs s) (tr.flatMap fun x => evs x.1 x.2) =
        tr.flatMap fun x => trace step' (abs x.1) (evs x.1 x.2) := by
  suffices h : I t ∧ exec step' (abs s) (tr.flatMap fun x => evs x.1 x.2) = some (abs t) ∧
      trace step' (abs s) (tr.flatMap fun x => evs x.1 x.2) =
        tr.flatMap fun x => trace step' (abs x.1) (evs x.1 x.2) from h.2
  induction hrun with
  | refl => exact ⟨h0, rfl, rfl⟩
  | @snoc tr u v e hrun hs ih =>
      obtain ⟨hinv, hexec, htrace⟩ := ih
      obtain ⟨hinv', hexec'⟩ := hstep u e v hinv hs
      have hone : [(u, e)].flatMap (fun x => evs x.1 x.2) = evs u e := by simp
      refine ⟨hinv', ?_, ?_⟩
      · rw [List.flatMap_append, hone, exec_append, hexec]
        exact hexec'
      · rw [List.flatMap_append, hone, trace_append hexec, htrace, List.flatMap_append]
        simp

/-- A run of a composed machine is one of a component, when every step is a step of
    the component or leaves it alone. -/
theorem Run.project (abs : S → S') (ev : S → E → Option E')
    (hown : ∀ u e v e', step u e = some v → ev u e = some e' → step' (abs u) e' = some (abs v))
    (hother : ∀ u e v, step u e = some v → ev u e = none → abs v = abs u)
    {s t : S} {tr : List (S × E)} (hrun : Run step s tr t) :
    Run step' (abs s) (tr.filterMap fun x => (ev x.1 x.2).map fun e' => (abs x.1, e')) (abs t) := by
  induction hrun with
  | refl => exact .refl
  | @snoc tr u v e hrun hs ih =>
      rw [List.filterMap_append]
      cases he : ev u e with
      | none =>
          rw [hother u e v hs he]
          simpa [he] using ih
      | some e' => simpa [he] using ih.snoc (hown u e v e' hs he)

/-- A member of a concatenation lies in one of its parts. -/
theorem flatMap_eq_append_cons {α β : Type} {f : α → List β} {l : List α} {A B : List β} {y : β}
    (h : l.flatMap f = A ++ y :: B) :
    ∃ pre x post a b, l = pre ++ x :: post ∧ f x = a ++ y :: b ∧ A = pre.flatMap f ++ a ∧
      B = b ++ post.flatMap f := by
  induction l generalizing A with
  | nil => simp at h
  | cons x l ih =>
      rw [List.flatMap_cons] at h
      rcases List.append_eq_append_iff.mp h with ⟨A', rfl, hrest⟩ | ⟨b, hfx, hrest⟩
      · obtain ⟨pre, x', post, a, b, rfl, hfx, rfl, rfl⟩ := ih hrest
        exact ⟨x :: pre, x', post, a, b, rfl, hfx, by simp, rfl⟩
      · cases b with
        | nil =>
            obtain ⟨pre, x', post, a, b, rfl, hfx', hA, rfl⟩ := ih (A := []) hrest.symm
            refine ⟨x :: pre, x', post, a, b, rfl, hfx', ?_, rfl⟩
            rw [List.flatMap_cons, List.append_assoc, ← hA, hfx]
            simp
        | cons y' b =>
            obtain ⟨rfl, rfl⟩ := List.cons.inj hrest
            exact ⟨[], x, l, A, b, rfl, hfx, rfl, rfl⟩

/-- A split of the kept members of a list is one of the list. -/
theorem filterMap_eq_append_cons {α β : Type} {f : α → Option β} {l : List α} {A B : List β}
    {y : β} (h : l.filterMap f = A ++ y :: B) :
    ∃ pre x post, l = pre ++ x :: post ∧ f x = some y ∧ pre.filterMap f = A ∧
      post.filterMap f = B := by
  obtain ⟨l₁, l₂, rfl, hA, hrest⟩ := List.filterMap_eq_append_iff.mp h
  obtain ⟨dropped, x, post, rfl, hdropped, hx, hB⟩ := List.filterMap_eq_cons_iff.mp hrest
  refine ⟨l₁ ++ dropped, x, post, by simp, hx, ?_, hB⟩
  rw [List.filterMap_append, hA, List.filterMap_eq_nil_iff.mpr hdropped, List.append_nil]

end Refinement

end Lib
end SniLua
