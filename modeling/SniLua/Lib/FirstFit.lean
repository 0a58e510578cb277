/-
  SniLua.Lib.FirstFit

  The greedy fill of a bounded room: walk a list once, admit what still fits,
  skip what does not and keep going.  The result is the list with a mark on every
  element, so that what was left out keeps its place among what was admitted.
-/

import Mathlib.Algebra.Group.Nat.Defs
import Mathlib.Data.List.Basic

namespace SniLua
namespace Lib
namespace FirstFit

variable {α : Type} (weight : α → Nat)

/-- Mark the elements that are admitted. -/
def fill (room : Nat) : List α → List (α × Bool)
  | [] => []
  | x :: xs =>
      if weight x ≤ room then (x, true) :: fill (room - weight x) xs
      else (x, false) :: fill room xs

/-- The elements with a mark. -/
def admitted : List (α × Bool) → List α
  | [] => []
  | (x, true) :: l => x :: admitted l
  | (_, false) :: l => admitted l

/-- The weight of a list. -/
def total : List α → Nat
  | [] => 0
  | x :: xs => weight x + total xs

variable {weight}

@[simp] theorem total_nil : total weight [] = 0 := rfl

@[simp] theorem total_cons (x : α) (l : List α) :
    total weight (x :: l) = weight x + total weight l := rfl

theorem map_fst_fill (room : Nat) (l : List α) : (fill weight room l).map (·.1) = l := by
  induction l generalizing room with
  | nil => rfl
  | cons x xs ih =>
      simp only [fill]
      split <;> rw [List.map_cons, ih]

/-- What is admitted fits. -/
theorem total_admitted_fill (room : Nat) (l : List α) :
    total weight (admitted (fill weight room l)) ≤ room := by
  induction l generalizing room with
  | nil => exact Nat.zero_le _
  | cons x xs ih =>
      simp only [fill]
      split
      · rename_i hfits
        have := ih (room - weight x)
        rw [admitted, total_cons]
        omega
      · exact ih room

/-- What is left out does not fit next to what was admitted before it. -/
theorem left_out {room : Nat} {l : List α} {pre post : List (α × Bool)} {x : α}
    (h : fill weight room l = pre ++ (x, false) :: post) :
    room < total weight (admitted pre) + weight x := by
  induction l generalizing room pre with
  | nil => exact absurd h (by simp [fill])
  | cons y ys ih =>
      simp only [fill] at h
      split at h
      · rename_i hfits
        cases pre with
        | nil => exact absurd (List.cons.inj h).1 (by simp)
        | cons p pre =>
            obtain ⟨hhead, htail⟩ := List.cons.inj h
            subst hhead
            have := ih htail
            rw [admitted, total_cons]
            omega
      · rename_i hfits
        cases pre with
        | nil =>
            obtain ⟨heq, -⟩ := List.cons.inj h
            obtain ⟨rfl, -⟩ := Prod.mk.inj heq
            rw [admitted, total_nil]
            omega
        | cons p pre =>
            obtain ⟨hhead, htail⟩ := List.cons.inj h
            subst hhead
            rw [admitted]
            exact ih htail

end FirstFit
end Lib
end SniLua
