/-
  SniLua.Lib.Checked

  Arithmetic that stops on overflow: `checkedAdd` and `checkedSub` have a value
  when the exact result is a `u32`, and it is the wrapped one.  `mapM` over a list
  has a value when every step has.
-/

import Mathlib.Algebra.Group.Nat.Defs
import Mathlib.Data.List.Basic

namespace SniLua
namespace Lib

/-- `a + b`, unless it overflows. -/
def checkedAdd (a b : UInt32) : Option UInt32 :=
  if a.toNat + b.toNat < 2 ^ 32 then some (a + b) else none

/-- `a - b`, unless it underflows. -/
def checkedSub (a b : UInt32) : Option UInt32 :=
  if b.toNat ≤ a.toNat then some (a - b) else none

theorem checkedAdd_of_lt {a b : UInt32} (h : a.toNat + b.toNat < 2 ^ 32) :
    checkedAdd a b = some (a + b) := if_pos h

theorem checkedSub_of_le {a b : UInt32} (h : b.toNat ≤ a.toNat) :
    checkedSub a b = some (a - b) := if_pos h

theorem lt_of_checkedAdd {a b c : UInt32} (h : checkedAdd a b = some c) :
    a.toNat + b.toNat < 2 ^ 32 := by
  rw [checkedAdd] at h
  split at h
  · assumption
  · exact absurd h (by simp)

variable {α β : Type}

/-- Every step has a value: so has the traversal. -/
theorem mapM_eq_some_map {f : α → Option β} {g : α → β} {l : List α}
    (h : ∀ x ∈ l, f x = some (g x)) : l.mapM f = some (l.map g) := by
  induction l with
  | nil => rfl
  | cons x l ih =>
      rw [List.mapM_cons, h x (List.mem_cons_self ..),
        ih fun y hy => h y (List.mem_cons_of_mem _ hy)]
      rfl

/-- The traversal has a value: so has every step. -/
theorem exists_of_mapM_eq_some {f : α → Option β} {l : List α} {ys : List β}
    (h : l.mapM f = some ys) : ∀ x ∈ l, ∃ y, f x = some y := by
  induction l generalizing ys with
  | nil => simp
  | cons x l ih =>
      rw [List.mapM_cons] at h
      obtain ⟨y, hy, h⟩ := Option.bind_eq_some_iff.mp h
      obtain ⟨zs, hzs, -⟩ := Option.bind_eq_some_iff.mp h
      intro z hz
      rcases List.mem_cons.mp hz with rfl | hz
      · exact ⟨y, hy⟩
      · exact ih hzs z hz

end Lib
end SniLua
