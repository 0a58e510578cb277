/-
  SniLua.LuaApi.Gradient

  `gfx.color_lerp`, and the colours of a gradient on the screen.

  The script blends packed colours, the painter blends the channels of a mesh: two
  pieces of code for one blend.
-/

import SniLua.Render.Paint

namespace SniLua
namespace LuaApi

open Render

-- ============================================================================
-- Blends
-- ============================================================================

/-- A number in [0, 1]. -/
def clampUnit (t : ℚ) : ℚ := max 0 (min t 1)

/-- One channel of `gfx.color_lerp`, in its place. -/
def lerpShift (a b : UInt32) (t : ℚ) (shift : UInt32) : UInt32 :=
  let ca : ℚ := ((a >>> shift) &&& 0xFF).toNat
  let cb : ℚ := ((b >>> shift) &&& 0xFF).toNat
  let v := UInt32.ofNat (max 0 (min (round (ca + (cb - ca) * t)) 255)).toNat
  v <<< shift

/-- `gfx.color_lerp`. -/
def colorLerp (a b : UInt32) (t : ℚ) : UInt32 :=
  let t := clampUnit t
  lerpShift a b t 24 ||| lerpShift a b t 16 ||| lerpShift a b t 8 ||| lerpShift a b t 0

/-- A blend of two colours, channel by channel. -/
def mix (a b : Color) (t : ℚ) : Color where
  r := lerpChannel a.r b.r t
  g := lerpChannel a.g b.g t
  b := lerpChannel a.b b.b t
  a := lerpChannel a.a b.a t

theorem toNat_lerpChannel (lhs rhs : UInt8) (t : ℚ) :
    (lerpChannel lhs rhs t).toNat =
      (max 0 (min (round ((lhs.toNat : ℚ) + ((rhs.toNat : ℚ) - lhs.toNat) * t)) 255)).toNat := by
  rw [lerpChannel, UInt8.toNat_ofNat_of_lt']
  show _ < 256
  omega

theorem lerpChannel_zero (lhs rhs : UInt8) : lerpChannel lhs rhs 0 = lhs := by
  have hlt := lhs.toNat_lt
  apply UInt8.toNat_inj.mp
  rw [toNat_lerpChannel, mul_zero, add_zero, round_natCast]
  omega

theorem lerpChannel_one (lhs rhs : UInt8) : lerpChannel lhs rhs 1 = rhs := by
  have hlt := rhs.toNat_lt
  apply UInt8.toNat_inj.mp
  rw [toNat_lerpChannel, mul_one, add_sub_cancel, round_natCast]
  omega

theorem lerpChannel_le {lhs rhs : UInt8} {t t' : ℚ}
    (h : ((rhs.toNat : ℚ) - lhs.toNat) * t ≤ ((rhs.toNat : ℚ) - lhs.toNat) * t') :
    lerpChannel lhs rhs t ≤ lerpChannel lhs rhs t' := by
  have hround : round ((lhs.toNat : ℚ) + ((rhs.toNat : ℚ) - lhs.toNat) * t) ≤
      round ((lhs.toNat : ℚ) + ((rhs.toNat : ℚ) - lhs.toNat) * t') := by
    rw [round_eq, round_eq]
    gcongr
  rw [UInt8.le_iff_toNat_le, toNat_lerpChannel, toNat_lerpChannel]
  omega

/-- `y` and `z` lie on the way from `x` to `w`, in this order. -/
def OnTheWay (x y z w : UInt8) : Prop := (x ≤ y ∧ y ≤ z ∧ z ≤ w) ∨ (w ≤ z ∧ z ≤ y ∧ y ≤ x)

/-- A channel goes from the one colour to the other and never turns back. -/
theorem lerpChannel_onTheWay (lhs rhs : UInt8) {t t' : ℚ} (ht : 0 ≤ t) (htt : t ≤ t')
    (ht' : t' ≤ 1) :
    OnTheWay lhs (lerpChannel lhs rhs t) (lerpChannel lhs rhs t') rhs := by
  rcases le_total lhs.toNat rhs.toNat with hle | hle
  · have hstep : ∀ s s' : ℚ, s ≤ s' → lerpChannel lhs rhs s ≤ lerpChannel lhs rhs s' := by
      intro s s' hs
      have hdiff : (0 : ℚ) ≤ (rhs.toNat : ℚ) - lhs.toNat := sub_nonneg.mpr (by exact_mod_cast hle)
      exact lerpChannel_le (mul_le_mul_of_nonneg_left hs hdiff)
    have hfirst := hstep 0 t ht
    have hlast := hstep t' 1 ht'
    rw [lerpChannel_zero] at hfirst
    rw [lerpChannel_one] at hlast
    exact .inl ⟨hfirst, hstep t t' htt, hlast⟩
  · have hstep : ∀ s s' : ℚ, s ≤ s' → lerpChannel lhs rhs s' ≤ lerpChannel lhs rhs s := by
      intro s s' hs
      have hdiff : (rhs.toNat : ℚ) - lhs.toNat ≤ 0 := sub_nonpos.mpr (by exact_mod_cast hle)
      exact lerpChannel_le (mul_le_mul_of_nonpos_left hs hdiff)
    have hfirst := hstep 0 t ht
    have hlast := hstep t' 1 ht'
    rw [lerpChannel_zero] at hfirst
    rw [lerpChannel_one] at hlast
    exact .inr ⟨hlast, hstep t t' htt, hfirst⟩

-- ============================================================================
-- Packed blends
-- ============================================================================

theorem toNat_and_mask (x : UInt32) : (x &&& 0xFF).toNat = x.toUInt8.toNat := by
  rw [UInt32.toNat_and, UInt32.toNat_toUInt8]
  exact Nat.and_two_pow_sub_one_eq_mod x.toNat 8

theorem lerpShift_eq (a b : UInt32) (t : ℚ) (shift : UInt32) :
    lerpShift a b t shift =
      (lerpChannel (a >>> shift).toUInt8 (b >>> shift).toUInt8 t).toUInt32 <<< shift := by
  simp only [lerpShift, toNat_and_mask]
  congr 1
  apply UInt32.toNat_inj.mp
  rw [UInt8.toNat_toUInt32, toNat_lerpChannel, UInt32.toNat_ofNat_of_lt']
  show _ < 4294967296
  omega

/-- The blend of packed colours is the blend of the colours. -/
theorem fromArgb_colorLerp (a b : UInt32) (t : ℚ) :
    Color.fromArgb (colorLerp a b t) =
      mix (Color.fromArgb a) (Color.fromArgb b) (clampUnit t) := by
  have hpack : colorLerp a b t =
      packArgb (lerpChannel (alphaOf a) (alphaOf b) (clampUnit t))
        (lerpChannel (redOf a) (redOf b) (clampUnit t))
        (lerpChannel (greenOf a) (greenOf b) (clampUnit t))
        (lerpChannel (blueOf a) (blueOf b) (clampUnit t)) := by
    simp [colorLerp, lerpShift_eq, packArgb, alphaOf, redOf, greenOf, blueOf]
  simp [hpack, Color.fromArgb, mix]

-- ============================================================================
-- Places
-- ============================================================================

section Place

variable {coords : List ℚ} {v v' : ℚ}

theorem epsilon_pos : 0 < epsilon := by norm_num [epsilon]

theorem gradientPlace_unit (coords : List ℚ) (v : ℚ) :
    0 ≤ gradientPlace coords v ∧ gradientPlace coords v ≤ 1 :=
  ⟨le_max_left _ _, max_le zero_le_one (min_le_right _ _)⟩

theorem clampUnit_gradientPlace (coords : List ℚ) (v : ℚ) :
    clampUnit (gradientPlace coords v) = gradientPlace coords v := by
  obtain ⟨hnonneg, hle⟩ := gradientPlace_unit coords v
  rw [clampUnit, min_eq_left hle, max_eq_right hnonneg]

theorem gradientPlace_mono (coords : List ℚ) (h : v ≤ v') :
    gradientPlace coords v ≤ gradientPlace coords v' := by
  have hspan : 0 < max (coords.max?.getD 0 - coords.min?.getD 0) epsilon :=
    lt_max_of_lt_right epsilon_pos
  simp only [gradientPlace]
  gcongr

/-- The least coordinate is at 0. -/
theorem gradientPlace_first (hv : v ∈ coords) (hfirst : ∀ u ∈ coords, v ≤ u) :
    gradientPlace coords v = 0 := by
  have hlo : coords.min? = some v := List.min?_eq_some_iff.mpr ⟨hv, hfirst⟩
  simp [gradientPlace, hlo]

/-- The greatest is at 1, if the polygon is as wide as `f32` can tell. -/
theorem gradientPlace_last (hv : v ∈ coords) (hlast : ∀ u ∈ coords, u ≤ v)
    (hwide : ∃ u ∈ coords, u + epsilon ≤ v) : gradientPlace coords v = 1 := by
  obtain ⟨u, hu, huv⟩ := hwide
  have hhi : coords.max? = some v := List.max?_eq_some_iff.mpr ⟨hv, hlast⟩
  obtain ⟨lo, hlo⟩ := Option.isSome_iff_exists.mp (List.isSome_min?_of_mem hv)
  have hle : lo ≤ u := (List.min?_eq_some_iff.mp hlo).2 u hu
  have hspan : epsilon ≤ v - lo := by linarith
  have hpos : 0 < v - lo := epsilon_pos.trans_le hspan
  simp [gradientPlace, hhi, hlo, max_eq_left hspan, div_self hpos.ne']

end Place

-- ============================================================================
-- Meshes
-- ============================================================================

/-- **A gradient is the blend a script computes.**  In every mesh the painter makes of
    two packed colours, each corner lies where its polygon has it and has the colour
    `gfx.color_lerp` gives at the corner's place; the first corners along the gradient
    have the first colour, the last ones the second if the polygon is as wide as `f32`
    can tell; and from corner to corner every channel goes from the one to the other
    and never turns back. -/
theorem gradient_is_color_lerp {egui : Egui} {g : Geometry} {vp : Viewport} {polygon : Polygon}
    {a b : UInt32} {vertical : Bool} {mesh : Mesh}
    (hmesh : polygonMesh egui g vp polygon (Color.fromArgb a) (Color.fromArgb b) vertical =
      some mesh) :
    let corners := (g.earcut polygon).vertices
    let axis := gradientAxis vertical
    let blend c := colorLerp a b (gradientPlace (corners.map axis) (axis c))
    (mesh.vertices = corners.map fun c =>
      { pos := vp.pt c.1 c.2, color := egui.col (Color.fromArgb (blend c)) }) ∧
    (∀ c ∈ corners, (∀ c' ∈ corners, axis c ≤ axis c') →
      Color.fromArgb (blend c) = Color.fromArgb a) ∧
    (∀ c ∈ corners, (∀ c' ∈ corners, axis c' ≤ axis c) →
      (∃ c' ∈ corners, axis c' + epsilon ≤ axis c) →
      Color.fromArgb (blend c) = Color.fromArgb b) ∧
    ∀ c c' : Coord, axis c ≤ axis c' → ∀ channel ∈ [redOf, greenOf, blueOf, alphaOf],
      OnTheWay (channel a) (channel (blend c)) (channel (blend c')) (channel b) := by
  intro corners axis blend
  have hblend : ∀ c, Color.fromArgb (blend c) = mix (Color.fromArgb a) (Color.fromArgb b)
      (gradientPlace (corners.map axis) (axis c)) := by
    intro c
    rw [fromArgb_colorLerp, clampUnit_gradientPlace]
  refine ⟨?_, fun c hc hfirst => ?_, fun c hc hlast hwide => ?_, fun c c' hcc => ?_⟩
  · simp only [polygonMesh] at hmesh
    split at hmesh
    · cases hmesh
    · obtain rfl := Option.some.inj hmesh
      simp only [hblend]
      rfl
  · have hplace : gradientPlace (corners.map axis) (axis c) = 0 :=
      gradientPlace_first (List.mem_map_of_mem hc) (List.forall_mem_map.mpr hfirst)
    simp only [hblend, hplace, mix, lerpChannel_zero]
  · have hplace : gradientPlace (corners.map axis) (axis c) = 1 :=
      gradientPlace_last (List.mem_map_of_mem hc) (List.forall_mem_map.mpr hlast)
        (by simpa using hwide)
    simp only [hblend, hplace, mix, lerpChannel_one]
  · have hchannel : ∀ lhs rhs : UInt8, OnTheWay lhs
        (lerpChannel lhs rhs (gradientPlace (corners.map axis) (axis c)))
        (lerpChannel lhs rhs (gradientPlace (corners.map axis) (axis c'))) rhs := fun lhs rhs =>
      lerpChannel_onTheWay lhs rhs (gradientPlace_unit _ _).1 (gradientPlace_mono _ hcc)
        (gradientPlace_unit _ _).2
    have hc := hblend c
    have hc' := hblend c'
    simp only [Color.fromArgb, mix, Color.mk.injEq] at hc hc'
    obtain ⟨hr, hg, hb, ha⟩ := hc
    obtain ⟨hr', hg', hb', ha'⟩ := hc'
    simp [hr, hg, hb, ha, hr', hg', hb', ha', hchannel]

/-- From red to green over a bar. -/
theorem gradient_is_color_lerp_bar :
    let bar := Geometry.rectPolygon 12 1 20 4
    let vp := Viewport.fit ⟨⟨0, 0⟩, 1024, 448⟩ ⟨256, 224⟩
    let blend x := colorLerp 0xFFFF0000 0xFF00FF00 (gradientPlace (bar.exterior.map (·.1)) x)
    (∃ mesh, polygonMesh .nearest .upright vp bar (Color.fromArgb 0xFFFF0000)
        (Color.fromArgb 0xFF00FF00) false = some mesh ∧
      mesh.vertices = bar.exterior.map fun c =>
        { pos := vp.pt c.1 c.2, color := Egui.nearest.col (Color.fromArgb (blend c.1)) }) ∧
    blend 22 = 0xFF808000 := by
  intro bar vp blend
  obtain ⟨mesh, hmesh⟩ : ∃ mesh, polygonMesh .nearest .upright vp bar (Color.fromArgb 0xFFFF0000)
      (Color.fromArgb 0xFF00FF00) false = some mesh :=
    Option.isSome_iff_exists.mp (by decide +kernel)
  obtain ⟨hvertices, -⟩ := gradient_is_color_lerp hmesh
  exact ⟨⟨mesh, hmesh, hvertices⟩, by decide +kernel⟩

end LuaApi
end SniLua
