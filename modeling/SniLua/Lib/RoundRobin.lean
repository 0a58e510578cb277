/-
  SniLua.Lib.RoundRobin

  Serving the oldest first.  Every participant carries the time it was last
  served; `servedBy l r b` counts those of `l` last served at time `b` or before.
  Serving only lowers the count, and serving one of the counted lowers it
  strictly: who is passed over is passed over at most `l.length - 1` times.
-/

import Mathlib.Data.List.Basic

namespace SniLua
namespace Lib

variable {ι : Type}

/-- Fewer members pass a test that is stricter on `l` and fails one that passed. -/
theorem countP_lt_of_imp {p q : ι → Bool} {l : List ι} (h : ∀ i ∈ l, q i → p i) {x : ι}
    (hx : x ∈ l) (hp : p x) (hq : ¬ q x) : l.countP q < l.countP p := by
  induction l with
  | nil => exact absurd hx (by simp)
  | cons i l ih =>
      have hl : ∀ j ∈ l, q j → p j := fun j hj => h j (List.mem_cons_of_mem _ hj)
      have hi := h i (List.mem_cons_self ..)
      simp only [List.countP_cons]
      rcases List.mem_cons.mp hx with rfl | hx
      · have hle : l.countP q ≤ l.countP p := List.countP_mono_left hl
        rw [if_pos hp, if_neg hq]
        omega
      · have hlt : l.countP q < l.countP p := ih hl hx
        by_cases hqi : q i
        · rw [if_pos hqi, if_pos (hi hqi)]
          omega
        · rw [if_neg hqi]
          omega

/-- How many of `l` were last served at time `b` or before. -/
def servedBy (l : List ι) (r : ι → Nat) (b : Nat) : Nat := l.countP fun i => r i ≤ b

theorem servedBy_le_length (l : List ι) (r : ι → Nat) (b : Nat) : servedBy l r b ≤ l.length :=
  List.countP_le_length

theorem servedBy_pos {l : List ι} {r : ι → Nat} {b : Nat} {i : ι} (hi : i ∈ l) (hb : r i ≤ b) :
    0 < servedBy l r b :=
  List.countP_pos_iff.mpr ⟨i, hi, by simpa using hb⟩

/-- The count does not grow when nobody comes back below the bound. -/
theorem servedBy_mono {l : List ι} {r r' : ι → Nat} {b : Nat}
    (h : ∀ i ∈ l, r' i ≤ b → r i ≤ b) : servedBy l r' b ≤ servedBy l r b :=
  List.countP_mono_left fun i hi => by simpa using h i hi

/-- It goes down when one of the counted is served after the bound. -/
theorem servedBy_lt {l : List ι} {r r' : ι → Nat} {b : Nat} (h : ∀ i ∈ l, r' i ≤ b → r i ≤ b)
    {x : ι} (hx : x ∈ l) (hold : r x ≤ b) (hnew : b < r' x) : servedBy l r' b < servedBy l r b :=
  countP_lt_of_imp (by simpa using h) hx (by simpa using hold) (by simpa using hnew)

end Lib
end SniLua
