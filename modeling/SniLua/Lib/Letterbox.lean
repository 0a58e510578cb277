/-
  SniLua.Lib.Letterbox

  The largest scale at which a box of size `w × h` fits into one of size `W × H`:
  the scaled box fits, and it fills the other on one axis.
-/

import Mathlib.Algebra.Order.Field.Basic

namespace SniLua
namespace Lib

variable {K : Type} [Field K] [LinearOrder K]

/-- The scale at which `w × h` is letterboxed in `W × H`. -/
def fitScale (W H w h : K) : K := min (W / w) (H / h)

variable {W H w h : K}

theorem fitScale_of_le (hle : W / w ≤ H / h) : fitScale W H w h = W / w := min_eq_left hle

theorem fitScale_of_ge (hle : H / h ≤ W / w) : fitScale W H w h = H / h := min_eq_right hle

/-- One axis is filled. -/
theorem mul_fitScale_fills (hw : 0 < w) (hh : 0 < h) :
    w * fitScale W H w h = W ∨ h * fitScale W H w h = H := by
  rcases le_total (W / w) (H / h) with hle | hge
  · left
    rw [fitScale_of_le hle, mul_div_cancel₀ W hw.ne']
  · right
    rw [fitScale_of_ge hge, mul_div_cancel₀ H hh.ne']

variable [IsStrictOrderedRing K]

theorem fitScale_pos (hW : 0 < W) (hH : 0 < H) (hw : 0 < w) (hh : 0 < h) :
    0 < fitScale W H w h :=
  lt_min (div_pos hW hw) (div_pos hH hh)

theorem mul_fitScale_le_width (hw : 0 < w) : w * fitScale W H w h ≤ W := by
  have hscale : fitScale W H w h ≤ W / w := min_le_left _ _
  have hmul := mul_le_mul_of_nonneg_left hscale hw.le
  rwa [mul_div_cancel₀ W hw.ne'] at hmul

theorem mul_fitScale_le_height (hh : 0 < h) : h * fitScale W H w h ≤ H := by
  have hscale : fitScale W H w h ≤ H / h := min_le_right _ _
  have hmul := mul_le_mul_of_nonneg_left hscale hh.le
  rwa [mul_div_cancel₀ H hh.ne'] at hmul

/-- The wider box fills the height. -/
theorem div_le_div_swap (hH : 0 < H) (hw : 0 < w) (hh : 0 < h) :
    W / H ≤ w / h ↔ W / w ≤ H / h := by
  rw [div_le_div_iff₀ hH hh, div_le_div_iff₀ hw hh, mul_comm w H]

end Lib
end SniLua
