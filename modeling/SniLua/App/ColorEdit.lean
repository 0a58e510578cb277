/-
  SniLua.App.ColorEdit

  The colour picker of the settings panel.  Every frame the panel makes a `Color32`
  of the stored value and hands it to the picker; an edit packs the channels of the
  picked `Color32` into the value.

  The unpacking multiplies by alpha, the packing does not divide by it: the stored
  channels are multiplied already and are multiplied again, by the panel in the next
  frame and by the painter.  A channel comes through when alpha takes less from it
  than rounding gives back.
-/

import SniLua.Render.Color

namespace SniLua
namespace App

open Render

/-- The colour the panel shows for a stored value. -/
def shownColor (egui : Egui) (value : UInt32) : Color32 :=
  egui.fromRgbaUnmultiplied (redOf value) (greenOf value) (blueOf value) (alphaOf value)

/-- The value an edit stores for the picked colour. -/
def editedValue (picked : Color32) : UInt32 :=
  let (r, g, b, a) := picked.toArray
  packArgb a r g b

/-- The colour drawn for a stored value: a script hands it to a `gfx` call. -/
def drawnColor (egui : Egui) (value : UInt32) : Color32 := egui.col (Color.fromArgb value)

/-- Panel and painter unpack a value alike. -/
theorem drawnColor_eq (egui : Egui) (value : UInt32) :
    drawnColor egui value = shownColor egui value := rfl

/-- What becomes of the picked colour: each channel is multiplied by alpha once more. -/
theorem shownColor_editedValue (egui : Egui) (c : Color32) :
    shownColor egui (editedValue c) =
      { r := egui.scale c.r c.a, g := egui.scale c.g c.a, b := egui.scale c.b c.a, a := c.a } := by
  simp [shownColor, editedValue, Color32.toArray, Egui.fromRgbaUnmultiplied]

/-- So an edit of the colour that is shown only ever darkens it. -/
theorem shownColor_editedValue_le (egui : Egui) (c : Color32) :
    (shownColor egui (editedValue c)).r ≤ c.r ∧ (shownColor egui (editedValue c)).g ≤ c.g ∧
      (shownColor egui (editedValue c)).b ≤ c.b := by
  rw [shownColor_editedValue]
  exact ⟨egui.scale_le _ _, egui.scale_le _ _, egui.scale_le _ _⟩

/-- The value stored for a picked colour is shown and drawn as that colour. -/
def StableColor (egui : Egui) (c : Color32) : Prop :=
  shownColor egui (editedValue c) = c ∧ drawnColor egui (editedValue c) = c

theorem stableColor_iff (egui : Egui) (c : Color32) :
    StableColor egui c ↔ ∀ ch ∈ [c.r, c.g, c.b], egui.scale ch c.a = ch := by
  obtain ⟨r, g, b, a⟩ := c
  rw [StableColor, drawnColor_eq, shownColor_editedValue, and_self]
  simp

/-- **Stable colours.**  The value stored for a picked colour is shown and drawn as
    that colour if and only if alpha leaves each channel at least the brightness that
    lies half-way between the channel and the one below.  Where brightness is
    proportional to the channels, this is when a channel times what alpha lacks of 255
    is at most 127.  An opaque colour is always stable, and one of alpha 0 only if it
    is black. -/
theorem color_stable_iff {egui : Egui} {brightness : ℝ → ℝ} (h : egui.MultipliesOn brightness)
    (c : Color32) :
    (StableColor egui c ↔ ∀ ch ∈ [c.r, c.g, c.b],
      255 * brightness (ch.toNat - 1 / 2) ≤ c.a.toNat * brightness ch.toNat) ∧
    (∀ k > 0, ∀ top : ℝ, (∀ x ≤ top, brightness x = k * x) →
      (∀ ch ∈ [c.r, c.g, c.b], (ch.toNat : ℝ) ≤ top) →
      (StableColor egui c ↔ ∀ ch ∈ [c.r, c.g, c.b], ch.toNat * (255 - c.a.toNat) ≤ 127)) ∧
    (c.a = 255 → StableColor egui c) ∧
    (c.a = 0 → (StableColor egui c ↔ c = ⟨0, 0, 0, 0⟩)) := by
  rw [stableColor_iff]
  refine ⟨forall₂_congr fun ch _ => h.scale_eq_iff ch c.a, ?_, ?_, ?_⟩
  · intro k hk top hlin htop
    refine forall₂_congr fun ch hch => h.scale_eq_iff_of_proportional hk fun x hx => ?_
    exact hlin x (hx.trans (htop ch hch))
  · intro ha ch _
    rw [ha, egui.scale_full]
  · intro ha
    obtain ⟨r, g, b, a⟩ := c
    obtain rfl : a = 0 := ha
    simp only [egui.scale_zero, List.forall_mem_cons, Color32.mk.injEq, eq_comm]
    simp

/-- A dark grey is stable when it is nearly opaque, and not at half alpha. -/
theorem color_stable_iff_darkGrey :
    StableColor .nearest ⟨10, 10, 10, 254⟩ ∧ ¬ StableColor .nearest ⟨10, 10, 10, 128⟩ := by
  have hiff : ∀ a, StableColor .nearest ⟨10, 10, 10, a⟩ ↔
      ∀ ch ∈ [(10 : UInt8), 10, 10], ch.toNat * (255 - a.toNat) ≤ 127 := by
    intro a
    refine (color_stable_iff Egui.nearest_multipliesOn ⟨10, 10, 10, a⟩).2.1 1 one_pos 10 ?_ ?_
    · simp
    · simp
  exact ⟨(hiff 254).mpr (by decide +kernel),
    fun h => absurd ((hiff 128).mp h) (by decide +kernel)⟩

/-- A dark grey at half alpha is shown and drawn at half its brightness. -/
theorem not_color_stable :
    let picked : Color32 := ⟨10, 10, 10, 128⟩
    editedValue picked = 0x800A0A0A ∧
      shownColor .nearest (editedValue picked) = ⟨5, 5, 5, 128⟩ ∧
      drawnColor .nearest (editedValue picked) = ⟨5, 5, 5, 128⟩ ∧
      ¬ StableColor .nearest picked := by
  have hshown : shownColor .nearest (editedValue ⟨10, 10, 10, 128⟩) = ⟨5, 5, 5, 128⟩ := by decide
  refine ⟨by decide, hshown, hshown, fun h => ?_⟩
  have heq := hshown.symm.trans h.1
  exact absurd heq (by decide)

end App
end SniLua
