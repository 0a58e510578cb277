/-
  SniLua.Lib.Aimd

  Controllers of the additive-increase, multiplicative-decrease kind: a value that
  is over its target is cut, down to a smallest one, and a value that is not over
  grows up to a ceiling where it rests.  Whether such a controller settles on a
  value that is not over depends on two points alone, the smallest value and the
  ceiling: between a ceiling that is over and a smallest value that is not, no
  value is at rest.
-/

import Mathlib.Logic.Function.Iterate

namespace SniLua
namespace Lib

/-- `f` steps a controller on the values `D`, with smallest value `lo` and growth
    up to `ceil`; `exceeds` is judged by `size`. -/
structure Aimd {α : Type} (size : α → Nat) (exceeds D : α → Prop) (f : α → α) (lo ceil : α) :
    Prop where
  mono : ∀ {a b}, size a ≤ size b → exceeds a → exceeds b
  maps : ∀ {b}, D b → D (f b)
  least : ∀ {b}, D b → size lo ≤ size b
  bottom : exceeds lo → f lo = lo
  cut : ∀ {b}, D b → exceeds b → b ≠ lo → size (f b) < size b
  grow : ∀ {b}, D b → ¬ exceeds b → size b < size ceil →
    size b < size (f b) ∧ size (f b) ≤ size ceil
  rest : ∀ {b}, D b → ¬ exceeds b → size ceil ≤ size b → f b = b

namespace Aimd

variable {α : Type} {size : α → Nat} {exceeds D : α → Prop} {f : α → α} {lo ceil : α}

/-- Cutting ends at the smallest value or at one that is not over. -/
theorem exists_not_exceeds (h : Aimd size exceeds D f lo ceil) {b : α} (hb : D b) :
    ∃ k, D (f^[k] b) ∧ (f^[k] b = lo ∨ ¬ exceeds (f^[k] b)) := by
  induction hn : size b using Nat.strongRecOn generalizing b with
  | ind n ih =>
      by_cases hover : exceeds b
      · by_cases hlo : b = lo
        · exact ⟨0, hb, Or.inl hlo⟩
        · have hlt : size (f b) < size b := h.cut hb hover hlo
          obtain ⟨k, hk⟩ := ih (size (f b)) (by omega) (h.maps hb) rfl
          refine ⟨k + 1, ?_⟩
          rw [Function.iterate_succ_apply]
          exact hk
      · exact ⟨0, hb, Or.inr hover⟩

/-- Below a ceiling that is not over, growth ends in a value at rest. -/
theorem exists_rest (h : Aimd size exceeds D f lo ceil) (hceil : ¬ exceeds ceil) {b : α} (hb : D b)
    (hover : ¬ exceeds b) : ∃ k, f (f^[k] b) = f^[k] b ∧ ¬ exceeds (f^[k] b) := by
  induction hn : size ceil - size b using Nat.strongRecOn generalizing b with
  | ind n ih =>
      by_cases hle : size ceil ≤ size b
      · exact ⟨0, h.rest hb hover hle, hover⟩
      · obtain ⟨hlt, hbound⟩ := h.grow hb hover (by omega)
        have hover' : ¬ exceeds (f b) := fun hf => hceil (h.mono hbound hf)
        obtain ⟨k, hk⟩ := ih (size ceil - size (f b)) (by omega) (h.maps hb) hover' rfl
        refine ⟨k + 1, ?_⟩
        rw [Function.iterate_succ_apply]
        exact hk

/-- A value at rest is the smallest one, or it is not over and not below the ceiling. -/
theorem of_fixed (h : Aimd size exceeds D f lo ceil) {b : α} (hb : D b) (hfix : f b = b) :
    b = lo ∧ exceeds b ∨ ¬ exceeds b ∧ size ceil ≤ size b := by
  by_cases hover : exceeds b
  · by_contra hne
    have hlo : b ≠ lo := fun hlo => hne (Or.inl ⟨hlo, hover⟩)
    have hlt := h.cut hb hover hlo
    rw [hfix] at hlt
    omega
  · refine Or.inr ⟨hover, ?_⟩
    by_contra hle
    have hlt := (h.grow hb hover (by omega)).1
    rw [hfix] at hlt
    omega

/-- From every value the controller settles, at the smallest value or at one that
    is not over, if and only if the smallest value is over or the ceiling is not. -/
theorem settles_iff (h : Aimd size exceeds D f lo ceil) {b : α} (hb : D b) :
    (∃ k, f (f^[k] b) = f^[k] b ∧ (f^[k] b = lo ∨ ¬ exceeds (f^[k] b))) ↔
      exceeds lo ∨ ¬ exceeds ceil := by
  have hiter : ∀ k, D (f^[k] b) := by
    intro k
    induction k with
    | zero => exact hb
    | succ k ih =>
        rw [Function.iterate_succ_apply']
        exact h.maps ih
  constructor
  · rintro ⟨k, hfix, -⟩
    rcases h.of_fixed (hiter k) hfix with ⟨hlo, hover⟩ | ⟨hover, hle⟩
    · exact Or.inl (hlo ▸ hover)
    · exact Or.inr fun hceil => hover (h.mono hle hceil)
  · intro hcond
    obtain ⟨k, hk, hend⟩ := h.exists_not_exceeds hb
    by_cases hover : exceeds (f^[k] b)
    · have hlo : f^[k] b = lo := hend.resolve_right (not_not_intro hover)
      refine ⟨k, ?_, Or.inl hlo⟩
      rw [hlo] at hover ⊢
      exact h.bottom hover
    · have hlo : ¬ exceeds lo := fun hlo => hover (h.mono (h.least hk) hlo)
      obtain ⟨n, hfix, hn⟩ := h.exists_rest (hcond.resolve_left hlo) hk hover
      rw [← Function.iterate_add_apply] at hfix hn
      exact ⟨n + k, hfix, Or.inr hn⟩

end Aimd

end Lib
end SniLua
