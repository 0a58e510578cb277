/-
  SniLua.LuaApi.ButtonLatch

  Clicks on the buttons of a panel, and the `ui.pressed` calls that ask for them.

  Between a click and the call the script may ask for other buttons, declare more
  controls and change values, and the user may edit the panel; none of it touches the
  latch.  Where two controls share an id, only the first is asked.
-/

import SniLua.LuaApi.ControlDomains

namespace SniLua
namespace LuaApi

-- ============================================================================
-- The latch
-- ============================================================================

/-- What `ui.pressed` answers. -/
def latched (id : String) (cs : List Control) : Bool := (uiPressed id cs).1

theorem latched_cons (id : String) (c : Control) (cs : List Control) :
    latched id (c :: cs) = if c.id = some id then c.isPressed else latched id cs := by
  rw [latched, uiPressed]
  split <;> rfl

/-- The two controls have the same id, and the same latch if it is this one. -/
structure SameLatch (id : String) (c c' : Control) : Prop where
  sameId : c'.id = c.id
  isPressed : c.id = some id → c'.isPressed = c.isPressed

theorem sameLatch_refl (id : String) (c : Control) : SameLatch id c c := ⟨rfl, fun _ => rfl⟩

theorem latched_congr {id : String} {cs cs' : List Control}
    (h : List.Forall₂ (SameLatch id) cs cs') : latched id cs' = latched id cs := by
  induction h with
  | nil => rfl
  | cons hc _ ih =>
      rw [latched_cons, latched_cons, hc.sameId]
      split
      · exact hc.isPressed ‹_›
      · exact ih

/-- A control that is declared is behind the others, and not pressed. -/
theorem latched_declare (id : String) (cs : List Control) (d : Declaration)
    (seed : String → Option Json) : latched id (cs ++ [d.declare seed]) = latched id cs := by
  induction cs with
  | nil =>
      have hnot : (d.declare seed).isPressed = false := by cases d <;> rfl
      rw [List.nil_append, latched_cons, hnot]
      simp [latched, uiPressed]
  | cons c cs ih => rw [List.cons_append, latched_cons, latched_cons, ih]

theorem forall₂_sameLatch_uiSet {V : Type} (view : LuaView V) (id id' : String) (v : V)
    (cs : List Control) : List.Forall₂ (SameLatch id) cs (uiSet view id' v cs) := by
  induction cs with
  | nil => exact .nil
  | cons c cs ih =>
      rw [uiSet]
      split
      · refine .cons ?_ (List.forall₂_same.mpr fun c _ => sameLatch_refl id c)
        cases c <;> exact ⟨rfl, fun _ => rfl⟩
      · exact .cons (sameLatch_refl id c) ih

theorem forall₂_sameLatch_edit (id : String) (i : Nat) (v : ControlValue) (cs : List Control) :
    List.Forall₂ (SameLatch id) cs (cs.modify i (·.withValue v)) := by
  induction cs generalizing i with
  | nil => simp
  | cons c cs ih =>
      cases i with
      | zero =>
          refine .cons ?_ (List.forall₂_same.mpr fun c _ => sameLatch_refl id c)
          cases c <;> cases v <;> exact ⟨rfl, fun _ => rfl⟩
      | succ i => exact .cons (sameLatch_refl id c) (ih i)

/-- Another id is asked for. -/
theorem forall₂_sameLatch_pressed {id id' : String} (hne : id' ≠ id) (cs : List Control) :
    List.Forall₂ (SameLatch id) cs (uiPressed id' cs).2 := by
  induction cs with
  | nil => exact .nil
  | cons c cs ih =>
      rw [uiPressed]
      split
      · rename_i hid
        refine .cons ⟨by cases c <;> rfl, fun hid' => ?_⟩
          (List.forall₂_same.mpr fun c _ => sameLatch_refl id c)
        exact absurd (Option.some.inj (hid.symm.trans hid')) hne
      · exact .cons (sameLatch_refl id c) ih

/-- A call drains the latch it reads. -/
theorem latched_pressed (id : String) (cs : List Control) :
    latched id (uiPressed id cs).2 = false := by
  induction cs with
  | nil => rfl
  | cons c cs ih =>
      rw [uiPressed]
      split
      · rename_i hid
        have hid' : (c.setPressed false).id = some id := by cases c <;> exact hid
        rw [latched_cons, if_pos hid']
        cases c <;> rfl
      · rename_i hid
        rw [latched_cons, if_neg hid]
        exact ih

-- ============================================================================
-- Clicks
-- ============================================================================

/-- The `i`-th control is the first with the id, and a button. -/
def FirstButton (id : String) (i : Nat) (cs : List Control) : Prop :=
  ∃ before caption pressed after, cs = before ++ .button id caption pressed :: after ∧
    before.length = i ∧ ∀ c ∈ before, c.id ≠ some id

theorem firstButton_zero {id : String} {c : Control} {cs : List Control} :
    FirstButton id 0 (c :: cs) ↔ ∃ caption pressed, c = .button id caption pressed := by
  constructor
  · rintro ⟨before, caption, pressed, after, hcs, hlen, -⟩
    obtain rfl := List.length_eq_zero_iff.mp hlen
    exact ⟨caption, pressed, (List.cons.inj hcs).1⟩
  · rintro ⟨caption, pressed, rfl⟩
    exact ⟨[], caption, pressed, cs, rfl, rfl, by simp⟩

theorem firstButton_succ {id : String} {i : Nat} {c : Control} {cs : List Control} :
    FirstButton id (i + 1) (c :: cs) ↔ c.id ≠ some id ∧ FirstButton id i cs := by
  constructor
  · rintro ⟨before, caption, pressed, after, hcs, hlen, hbefore⟩
    cases before with
    | nil => simp at hlen
    | cons b before =>
        obtain ⟨rfl, rfl⟩ := List.cons.inj hcs
        exact ⟨hbefore c (by simp), before, caption, pressed, after, rfl, by simpa using hlen,
          fun c' hc' => hbefore c' (by simp [hc'])⟩
  · rintro ⟨hc, before, caption, pressed, after, rfl, rfl, hbefore⟩
    refine ⟨c :: before, caption, pressed, after, rfl, rfl, ?_⟩
    intro c' hc'
    rcases List.mem_cons.mp hc' with rfl | hc'
    · exact hc
    · exact hbefore c' hc'

/-- A click latches the button if it is the one that is asked, and nothing else. -/
theorem latched_click {id : String} {i : Nat} {cs : List Control} :
    latched id (cs.modify i (·.setPressed true)) = true ↔
      latched id cs = true ∨ FirstButton id i cs := by
  induction cs generalizing i with
  | nil => simp [latched, uiPressed, FirstButton]
  | cons c cs ih =>
      cases i with
      | zero =>
          rw [firstButton_zero]
          show latched id (c.setPressed true :: cs) = true ↔ _
          rw [latched_cons, latched_cons]
          cases c with
          | button id' caption pressed =>
              by_cases hid : id' = id <;>
                simp [Control.setPressed, Control.id, Control.isPressed, hid]
          | _ => simp [Control.setPressed, Control.id, Control.isPressed]
      | succ i =>
          rw [firstButton_succ]
          show latched id (c :: cs.modify i (·.setPressed true)) = true ↔ _
          rw [latched_cons, latched_cons]
          by_cases hid : c.id = some id
          · simp [hid]
          · simp [hid, ih]

-- ============================================================================
-- Runs
-- ============================================================================

section Events

variable {V : Type} {view : LuaView V}

/-- The event empties the panel, or asks for the id. -/
def ControlEvent.drains (id : String) : ControlEvent V → Bool
  | .clear => true
  | .pressed id' => id' = id
  | _ => false

/-- The event is a click on the button that is asked for the id. -/
def ControlEvent.Clicks (id : String) (cs : List Control) (e : ControlEvent V) : Prop :=
  ∃ i, e = .click i ∧ FirstButton id i cs

/-- What an event does to the latch. -/
theorem latched_apply {id : String} {cs : List Control} {e : ControlEvent V} :
    latched id (e.apply view cs) = true ↔
      e.Clicks id cs ∨ latched id cs = true ∧ e.drains id = false := by
  have hkept : ∀ {cs'}, latched id cs' = latched id cs → (∀ i, e ≠ .click i) →
      e.drains id = false → (latched id cs' = true ↔
        e.Clicks id cs ∨ latched id cs = true ∧ e.drains id = false) := by
    intro cs' hlatched hclick hdrains
    have hnot : ¬ e.Clicks id cs := by
      rintro ⟨i, rfl, -⟩
      exact hclick i rfl
    simp [hlatched, hnot, hdrains]
  cases e with
  | clear =>
      simp [ControlEvent.apply, latched, uiPressed, ControlEvent.Clicks, ControlEvent.drains]
  | declare doc d => exact hkept (latched_declare id cs d _) (by simp) rfl
  | set id' v =>
      exact hkept (latched_congr (forall₂_sameLatch_uiSet view id id' v cs)) (by simp) rfl
  | pressed id' =>
      by_cases hid : id' = id
      · subst hid
        simp [ControlEvent.apply, latched_pressed, ControlEvent.Clicks, ControlEvent.drains]
      · exact hkept (latched_congr (forall₂_sameLatch_pressed hid cs)) (by simp)
          (by simp [ControlEvent.drains, hid])
  | edit i v => exact hkept (latched_congr (forall₂_sameLatch_edit id i v cs)) (by simp) rfl
  | click i =>
      rw [ControlEvent.apply, latched_click]
      simp [ControlEvent.Clicks, ControlEvent.drains, or_comm]

/-- **A click is delivered once.**  After any sequence of loads, declarations, calls of
    the script, edits and clicks, `ui.pressed` answers true exactly when the button
    that is asked was clicked since the panel was emptied and since the last call for
    the id. -/
theorem click_delivered_iff (es : List (ControlEvent V)) (id : String) :
    (uiPressed id (panelAfter view es)).1 = true ↔
      ∃ pre i post, es = pre ++ .click i :: post ∧ FirstButton id i (panelAfter view pre) ∧
        ∀ e ∈ post, e.drains id = false := by
  induction es using List.reverseRecOn with
  | nil => simp [panelAfter, uiPressed]
  | append_singleton es e ih =>
      have hlast : panelAfter view (es ++ [e]) = e.apply view (panelAfter view es) := by
        rw [panelAfter, List.foldl_append]
        rfl
      rw [hlast]
      show latched id _ = true ↔ _
      rw [latched_apply, latched, ih]
      constructor
      · rintro (⟨i, rfl, hfirst⟩ | ⟨⟨pre, i, post, rfl, hfirst, hpost⟩, hdrains⟩)
        · exact ⟨es, i, [], rfl, hfirst, by simp⟩
        · refine ⟨pre, i, post ++ [e], by simp, hfirst, ?_⟩
          intro e' he'
          rcases List.mem_append.mp he' with he' | he'
          · exact hpost e' he'
          · rw [List.mem_singleton.mp he']
            exact hdrains
      · rintro ⟨pre, i, post, hes, hfirst, hpost⟩
        rcases List.eq_nil_or_concat post with rfl | ⟨post, e', rfl⟩
        · obtain ⟨rfl, he⟩ := List.append_inj' hes rfl
          exact .inl ⟨i, List.singleton_inj.mp he, hfirst⟩
        · rw [List.concat_eq_append] at hes hpost
          have hes' : es ++ [e] = (pre ++ .click i :: post) ++ [e'] := by simpa using hes
          obtain ⟨rfl, he⟩ := List.append_inj' hes' rfl
          obtain rfl := List.singleton_inj.mp he
          exact .inr ⟨⟨pre, i, post, rfl, hfirst, fun e he => hpost e (by simp [he])⟩,
            hpost e (by simp)⟩

end Events

end LuaApi
end SniLua
