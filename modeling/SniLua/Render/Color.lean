/-
  SniLua.Render.Color

  Colours on their way to the painter.  A script and the store hold a packed
  `0xAARRGGBB` with straight alpha; egui's `Color32` holds its channels multiplied
  by alpha.

  `Egui` is what the code relies on of egui: how a channel is scaled by alpha.
  `MultipliesOn` adds how it rounds, which decides the channels that come through.
-/

import Mathlib.Data.List.Basic
import Mathlib.Data.Real.Basic
import Mathlib.Tactic.Linarith
import Mathlib.Tactic.Ring

namespace SniLua
namespace Render

-- ============================================================================
-- Packed colours
-- ============================================================================

/-- The packed `0xAARRGGBB` of four channels. -/
def packArgb (a r g b : UInt8) : UInt32 :=
  a.toUInt32 <<< 24 ||| r.toUInt32 <<< 16 ||| g.toUInt32 <<< 8 ||| b.toUInt32

def alphaOf (argb : UInt32) : UInt8 := (argb >>> 24).toUInt8

def redOf (argb : UInt32) : UInt8 := (argb >>> 16).toUInt8

def greenOf (argb : UInt32) : UInt8 := (argb >>> 8).toUInt8

def blueOf (argb : UInt32) : UInt8 := argb.toUInt8

section Pack

variable (a r g b : UInt8)

@[simp] theorem alphaOf_packArgb : alphaOf (packArgb a r g b) = a := by
  apply UInt8.toBitVec_inj.mp
  apply BitVec.eq_of_getLsbD_eq
  intro i hi
  simp [alphaOf, packArgb]
  grind

@[simp] theorem redOf_packArgb : redOf (packArgb a r g b) = r := by
  apply UInt8.toBitVec_inj.mp
  apply BitVec.eq_of_getLsbD_eq
  intro i hi
  simp [redOf, packArgb]
  grind

@[simp] theorem greenOf_packArgb : greenOf (packArgb a r g b) = g := by
  apply UInt8.toBitVec_inj.mp
  apply BitVec.eq_of_getLsbD_eq
  intro i hi
  simp [greenOf, packArgb]
  grind

@[simp] theorem blueOf_packArgb : blueOf (packArgb a r g b) = b := by
  apply UInt8.toBitVec_inj.mp
  apply BitVec.eq_of_getLsbD_eq
  intro i hi
  simp [blueOf, packArgb]

end Pack

structure Color where
  r : UInt8
  g : UInt8
  b : UInt8
  a : UInt8
deriving DecidableEq

/-- Parse `0xAARRGGBB`. -/
def Color.fromArgb (argb : UInt32) : Color :=
  { a := alphaOf argb, r := redOf argb, g := greenOf argb, b := blueOf argb }

-- ============================================================================
-- egui
-- ============================================================================

/-- `egui::Color32`, its channels as stored: multiplied by alpha. -/
structure Color32 where
  r : UInt8
  g : UInt8
  b : UInt8
  a : UInt8
deriving DecidableEq

/-- How egui multiplies a channel by alpha. -/
structure Egui where
  scale : UInt8 → UInt8 → UInt8
  scale_full : ∀ ch, scale ch 255 = ch
  scale_zero : ∀ ch, scale ch 0 = 0
  scale_le : ∀ ch a, scale ch a ≤ ch

namespace Egui

def fromRgbaUnmultiplied (egui : Egui) (r g b a : UInt8) : Color32 :=
  { r := egui.scale r a, g := egui.scale g a, b := egui.scale b a, a }

/-- The colour the painter draws with. -/
def col (egui : Egui) (c : Color) : Color32 := egui.fromRgbaUnmultiplied c.r c.g c.b c.a

/-- Scaling to the nearest channel. -/
def nearest : Egui where
  scale ch a := UInt8.ofNat ((2 * (ch.toNat * a.toNat) + 255) / 510)
  scale_full ch := by
    have hch : (2 * (ch.toNat * (255 : UInt8).toNat) + 255) / 510 = ch.toNat := by
      rw [show (255 : UInt8).toNat = 255 from rfl]
      omega
    rw [hch]
    exact UInt8.ofNat_toNat
  scale_zero ch := by simp
  scale_le ch a := by
    have ha := a.toNat_lt
    have hch := ch.toNat_lt
    have hmul : ch.toNat * a.toNat ≤ ch.toNat * 255 := Nat.mul_le_mul_left _ (by omega)
    have hle : (2 * (ch.toNat * a.toNat) + 255) / 510 ≤ ch.toNat := by omega
    rw [UInt8.le_iff_toNat_le, UInt8.toNat_ofNat_of_lt' (by show _ < 2 ^ 8; omega)]
    exact hle

-- ============================================================================
-- The channels that scaling leaves alone
-- ============================================================================

/-- How egui multiplies, in exact arithmetic: the brightness of a channel, on some
    curve, by alpha, and back to the nearest channel.  The curve is the identity for a
    multiplication of the stored channels, and the one of sRGB for one of light. -/
structure MultipliesOn (egui : Egui) (brightness : ℝ → ℝ) : Prop where
  zero : brightness 0 = 0
  strictMono : StrictMono brightness
  nearest : ∀ ch a,
    brightness ((egui.scale ch a).toNat - 1 / 2) ≤ a.toNat / 255 * brightness ch.toNat ∧
      a.toNat / 255 * brightness ch.toNat < brightness ((egui.scale ch a).toNat + 1 / 2)

section Multiplies

variable {egui : Egui} {brightness : ℝ → ℝ}

/-- A channel is left alone when what alpha leaves of its brightness is nearer to it
    than to the channel below. -/
theorem MultipliesOn.scale_eq_iff (h : egui.MultipliesOn brightness) (ch a : UInt8) :
    egui.scale ch a = ch ↔
      255 * brightness (ch.toNat - 1 / 2) ≤ a.toNat * brightness ch.toNat := by
  obtain ⟨hlow, hhigh⟩ := h.nearest ch a
  have hscaled : a.toNat * brightness ch.toNat = 255 * (a.toNat / 255 * brightness ch.toNat) := by
    ring
  constructor
  · intro heq
    rw [heq] at hlow
    linarith
  · intro hle
    have hlt : brightness (ch.toNat - 1 / 2) < brightness ((egui.scale ch a).toNat + 1 / 2) := by
      linarith
    have hreal : (ch.toNat : ℝ) < ((egui.scale ch a).toNat + 1 : Nat) := by
      have hargs := h.strictMono.lt_iff_lt.mp hlt
      push_cast
      linarith
    have hnat : ch.toNat < (egui.scale ch a).toNat + 1 := by exact_mod_cast hreal
    have hscale := UInt8.le_iff_toNat_le.mp (egui.scale_le ch a)
    exact UInt8.toNat_inj.mp (by omega)

/-- Where brightness is proportional to the channel, alpha must take less than half
    a step away. -/
theorem MultipliesOn.scale_eq_iff_of_proportional (h : egui.MultipliesOn brightness)
    {ch a : UInt8} {k : ℝ} (hk : 0 < k) (hlin : ∀ x ≤ (ch.toNat : ℝ), brightness x = k * x) :
    egui.scale ch a = ch ↔ ch.toNat * (255 - a.toNat) ≤ 127 := by
  have ha : a.toNat ≤ 255 := Nat.le_of_lt_succ a.toNat_lt
  have hcast : ((2 * (ch.toNat * (255 - a.toNat)) : Nat) : ℝ) =
      2 * (ch.toNat * (255 - a.toNat)) := by
    push_cast [Nat.cast_sub ha]
    rfl
  have hhalf : ch.toNat * (255 - a.toNat) ≤ 127 ↔
      ((2 * (ch.toNat * (255 - a.toNat)) : Nat) : ℝ) ≤ (255 : Nat) := by
    rw [Nat.cast_le]
    omega
  rw [h.scale_eq_iff, hlin _ le_rfl, hlin _ (by linarith), hhalf, hcast]
  have hdiff : 2 * (a.toNat * (k * ch.toNat) - 255 * (k * (ch.toNat - 1 / 2))) =
      k * ((255 : Nat) - 2 * (ch.toNat * (255 - a.toNat))) := by
    push_cast
    ring
  constructor
  · intro hle
    have hnonneg : 0 ≤ k * (((255 : Nat) : ℝ) - 2 * (ch.toNat * (255 - a.toNat))) := by
      rw [← hdiff]
      linarith
    have hpos := nonneg_of_mul_nonneg_right hnonneg hk
    linarith
  · intro hle
    have hnonneg : 0 ≤ k * (((255 : Nat) : ℝ) - 2 * (ch.toNat * (255 - a.toNat))) :=
      mul_nonneg hk.le (by linarith)
    rw [← hdiff] at hnonneg
    linarith

end Multiplies

/-- Multiplying the stored channels. -/
theorem nearest_multipliesOn : nearest.MultipliesOn id where
  zero := rfl
  strictMono := strictMono_id
  nearest := by
    intro ch a
    have hle := UInt8.le_iff_toNat_le.mp (nearest.scale_le ch a)
    have hscale : (nearest.scale ch a).toNat = (2 * (ch.toNat * a.toNat) + 255) / 510 := by
      have ha := a.toNat_lt
      have hch := ch.toNat_lt
      have hmul : ch.toNat * a.toNat ≤ ch.toNat * 255 := Nat.mul_le_mul_left _ (by omega)
      exact UInt8.toNat_ofNat_of_lt' (by show _ < 2 ^ 8; omega)
    generalize (nearest.scale ch a).toNat = s at hscale
    have hlow : 510 * s ≤ 2 * (ch.toNat * a.toNat) + 255 := by omega
    have hhigh : 2 * (ch.toNat * a.toNat) + 255 < 510 * (s + 1) := by omega
    have hlow' : (510 * s : ℝ) ≤ 2 * (ch.toNat * a.toNat) + 255 := by exact_mod_cast hlow
    have hhigh' : (2 * (ch.toNat * a.toNat) + 255 : ℝ) < 510 * (s + 1) := by exact_mod_cast hhigh
    simp only [id]
    constructor <;> linarith

end Egui

/-- `Color32::to_array`. -/
def Color32.toArray (c : Color32) : UInt8 × UInt8 × UInt8 × UInt8 := (c.r, c.g, c.b, c.a)

end Render
end SniLua
