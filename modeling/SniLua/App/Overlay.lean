/-
  SniLua.App.Overlay

  The capture frame under the overlay, in exact arithmetic: which part of it is shown
  (`capture_uv_rect`), and where on the canvas the pointer is.

  `marginCrop` is what the margins are meant to leave, in whole pixels.  The code gets
  there by a repair of margins that cross; in aspect mode it then letterboxes the
  canvas in what is left.
-/

import Mathlib.Tactic.NormNum
import SniLua.Client.MemRegion
import SniLua.Render.Viewport

namespace SniLua
namespace App

open Lib Render

-- ============================================================================
-- The code
-- ============================================================================

/-- The crop settings of the app. -/
structure CropConfig where
  captureCropLeft : UInt32
  captureCropTop : UInt32
  captureCropRight : UInt32
  captureCropBottom : UInt32
  captureCropMode : String

/-- The sides of a rectangle in source pixels. -/
structure Sides where
  left : ℚ
  top : ℚ
  right : ℚ
  bottom : ℚ

/-- The rectangle of these sides. -/
def Sides.rect (s : Sides) : Rect :=
  .fromMinMax { x := s.left, y := s.top } { x := s.right, y := s.bottom }

/-- The size of a frame on one axis, as the divisor. -/
def frameLength (size : Nat) : ℚ := (max size 1 : Nat)

/-- The crop on one axis: the margins are clamped to the frame, and where they cross a
    pixel is left. -/
def cropAxis (size : Nat) (near far : UInt32) : ℚ × ℚ :=
  let last := UInt32.ofNat (size - 1)
  let lo : ℚ := (min near last).toNat
  let hi : ℚ := frameLength size - (min far last).toNat
  (lo, if hi ≤ lo then min (lo + 1) (frameLength size) else hi)

/-- The crop to the aspect ratio of the canvas, on the axis that has too much. -/
def cropAspect (canvas : CanvasSize) (s : Sides) : Sides :=
  let target := canvas.w / canvas.h
  let cropW := s.right - s.left
  let cropH := s.bottom - s.top
  if 0 < cropW ∧ 0 < cropH ∧ 0 < target then
    let current := cropW / cropH
    if target < current then
      let dx := (cropW - cropH * target) * (1 / 2)
      { s with left := s.left + dx, right := s.right - dx }
    else if current < target then
      let dy := (cropH - cropW / target) * (1 / 2)
      { s with top := s.top + dy, bottom := s.bottom - dy }
    else s
  else s

/-- The sides after the margins. -/
def CropConfig.margins (config : CropConfig) (frameSize : Nat × Nat) : Sides :=
  let (left, right) := cropAxis frameSize.1 config.captureCropLeft config.captureCropRight
  let (top, bottom) := cropAxis frameSize.2 config.captureCropTop config.captureCropBottom
  { left, top, right, bottom }

/-- `capture_uv_rect`. -/
def captureUvRect (config : CropConfig) (frameSize : Nat × Nat) (canvas : CanvasSize) : Rect :=
  let s := config.margins frameSize
  let s := if config.captureCropMode = "aspect" ∧ 0 < canvas.h then cropAspect canvas s else s
  Rect.fromMinMax
    { x := s.left / frameLength frameSize.1, y := s.top / frameLength frameSize.2 }
    { x := s.right / frameLength frameSize.1, y := s.bottom / frameLength frameSize.2 }

/-- `feed_mouse`: the position handed to the script. -/
def feedMousePos (lastViewport : Option Viewport) (latestPos : Option Pos2) : Option (ℚ × ℚ) :=
  latestPos.bind fun p => lastViewport.bind fun vp => vp.screenToCanvas p

-- ============================================================================
-- The margin crop
-- ============================================================================

/-- What the margins leave of an axis, in whole pixels; at least one. -/
def marginCrop (size near far : Nat) : Nat × Nat :=
  let size := max size 1
  let lo := min near (size - 1)
  (lo, max (size - far) (lo + 1))

theorem marginCrop_fst_lt (size near far : Nat) :
    (marginCrop size near far).1 < (marginCrop size near far).2 := by
  simp only [marginCrop]
  omega

theorem marginCrop_snd_le (size near far : Nat) : (marginCrop size near far).2 ≤ max size 1 := by
  simp only [marginCrop]
  omega

/-- The repair leaves what the margins are meant to. -/
theorem cropAxis_eq {size : Nat} (hsize : size < 2 ^ 32) (near far : UInt32) :
    cropAxis size near far = (((marginCrop size near.toNat far.toNat).1 : ℚ),
      ((marginCrop size near.toNat far.toNat).2 : ℚ)) := by
  have hlast : (UInt32.ofNat (size - 1)).toNat = size - 1 := by
    rw [UInt32.toNat_ofNat', Nat.mod_eq_of_lt (by omega)]
  have hmin : ∀ m : UInt32, (min m (UInt32.ofNat (size - 1))).toNat = min m.toNat (size - 1) := by
    intro m
    rw [U32.toNat_min, hlast]
  simp only [cropAxis, hmin, frameLength]
  rw [← Nat.cast_sub (show min far.toNat (size - 1) ≤ max size 1 by omega)]
  simp only [marginCrop, Prod.mk.injEq, Nat.cast_inj]
  refine ⟨by omega, ?_⟩
  split
  · rename_i hcross
    rw [Nat.cast_le] at hcross
    rw [← Nat.cast_succ, ← Nat.cast_min, Nat.cast_inj]
    omega
  · rename_i hcross
    rw [Nat.cast_le] at hcross
    rw [Nat.cast_inj]
    omega

/-- The sides of the margin crop. -/
def CropConfig.marginSides (config : CropConfig) (frameSize : Nat × Nat) : Sides :=
  let (left, right) :=
    marginCrop frameSize.1 config.captureCropLeft.toNat config.captureCropRight.toNat
  let (top, bottom) :=
    marginCrop frameSize.2 config.captureCropTop.toNat config.captureCropBottom.toNat
  { left, top, right, bottom }

theorem CropConfig.margins_eq (config : CropConfig) {frameSize : Nat × Nat}
    (hfw : frameSize.1 < 2 ^ 32) (hfh : frameSize.2 < 2 ^ 32) :
    config.margins frameSize = config.marginSides frameSize := by
  simp only [margins, marginSides, cropAxis_eq hfw, cropAxis_eq hfh]

theorem frameLength_pos (size : Nat) : 0 < frameLength size :=
  Nat.cast_pos.mpr (by omega)

/-- At least one source pixel each way. -/
theorem one_le_marginSides (config : CropConfig) (frameSize : Nat × Nat) :
    1 ≤ (config.marginSides frameSize).rect.w ∧ 1 ≤ (config.marginSides frameSize).rect.h := by
  have hone : ∀ size near far : Nat,
      (1 : ℚ) ≤ (marginCrop size near far).2 - (marginCrop size near far).1 := by
    intro size near far
    have hlt : ((marginCrop size near far).1 : ℚ) + 1 ≤ (marginCrop size near far).2 := by
      exact_mod_cast marginCrop_fst_lt size near far
    linarith
  exact ⟨hone _ _ _, hone _ _ _⟩

theorem marginSides_inside (config : CropConfig) (frameSize : Nat × Nat) :
    (config.marginSides frameSize).rect.Inside
      ⟨⟨0, 0⟩, frameLength frameSize.1, frameLength frameSize.2⟩ := by
  have hle : ∀ size near far : Nat, ((marginCrop size near far).2 : ℚ) ≤ frameLength size :=
    fun size near far => Nat.cast_le.mpr (marginCrop_snd_le size near far)
  simp only [Rect.Inside, Sides.rect, Rect.fromMinMax, CropConfig.marginSides, zero_add,
    add_sub_cancel]
  exact ⟨Nat.cast_nonneg _, hle _ _ _, Nat.cast_nonneg _, hle _ _ _⟩

-- ============================================================================
-- The crop to the canvas
-- ============================================================================

/-- The crop to the aspect ratio letterboxes the canvas. -/
theorem cropAspect_rect {canvas : CanvasSize} {s : Sides} (hcw : 0 < canvas.w)
    (hch : 0 < canvas.h) (hw : 0 < s.rect.w) (hh : 0 < s.rect.h) :
    let scale := fitScale s.rect.w s.rect.h canvas.w canvas.h
    (cropAspect canvas s).rect = s.rect.centred (canvas.w * scale) (canvas.h * scale) := by
  intro scale
  have htarget : 0 < canvas.w / canvas.h := div_pos hcw hch
  have hswap := div_le_div_swap (W := s.rect.w) hh hcw hch
  obtain ⟨left, top, right, bottom⟩ := s
  simp only [Sides.rect, Rect.fromMinMax] at hw hh hswap scale
  simp only [cropAspect]
  rw [if_pos ⟨hw, hh, htarget⟩]
  rcases lt_trichotomy (canvas.w / canvas.h) ((right - left) / (bottom - top)) with hlt | heq | hgt
  · have hscale : scale = (bottom - top) / canvas.h :=
      fitScale_of_ge (le_of_not_ge fun hle => hlt.not_ge (hswap.mpr hle))
    have hnewH : canvas.h * scale = bottom - top := by
      rw [hscale, mul_div_cancel₀ _ hch.ne']
    have hnewW : canvas.w * scale = (bottom - top) * (canvas.w / canvas.h) := by
      rw [hscale, mul_div_left_comm]
    rw [if_pos hlt, hnewW, hnewH]
    simp only [Sides.rect, Rect.fromMinMax, Rect.centred, Rect.mk.injEq, Pos2.mk.injEq, and_true]
    refine ⟨⟨?_, ?_⟩, ?_⟩ <;> ring
  · have hswap' := hswap.mp heq.ge
    have hwide : scale = (right - left) / canvas.w := fitScale_of_le hswap'
    have hhigh : scale = (bottom - top) / canvas.h := by
      rw [hwide, div_eq_div_iff hcw.ne' hch.ne']
      rw [div_eq_div_iff hch.ne' hh.ne'] at heq
      linarith
    have hnewW : canvas.w * scale = right - left := by
      rw [hwide, mul_div_cancel₀ _ hcw.ne']
    have hnewH : canvas.h * scale = bottom - top := by
      rw [hhigh, mul_div_cancel₀ _ hch.ne']
    rw [if_neg heq.not_lt, if_neg heq.not_gt, hnewW, hnewH]
    exact (Rect.centred_self _).symm
  · have hscale : scale = (right - left) / canvas.w := fitScale_of_le (hswap.mp hgt.le)
    have hnewW : canvas.w * scale = right - left := by
      rw [hscale, mul_div_cancel₀ _ hcw.ne']
    have hnewH : canvas.h * scale = (right - left) / (canvas.w / canvas.h) := by
      rw [hscale, mul_div_left_comm, div_div_eq_mul_div, mul_div_assoc]
    rw [if_neg hgt.not_gt, if_pos hgt, hnewW, hnewH]
    simp only [Sides.rect, Rect.fromMinMax, Rect.centred, Rect.mk.injEq, Pos2.mk.injEq, true_and]
    refine ⟨⟨?_, ?_⟩, ?_⟩ <;> ring

/-- The rectangle shown, in source pixels. -/
theorem scaled_captureUvRect (config : CropConfig) (frameSize : Nat × Nat) (canvas : CanvasSize) :
    (captureUvRect config frameSize canvas).scaled (frameLength frameSize.1)
        (frameLength frameSize.2) =
      (if config.captureCropMode = "aspect" ∧ 0 < canvas.h then
        cropAspect canvas (config.margins frameSize) else config.margins frameSize).rect := by
  have hw := (frameLength_pos frameSize.1).ne'
  have hh := (frameLength_pos frameSize.2).ne'
  simp only [captureUvRect, Rect.fromMinMax, Rect.scaled, Sides.rect, sub_mul,
    div_mul_cancel₀ _ hw, div_mul_cancel₀ _ hh]

section Shown

variable (config : CropConfig) {frameSize : Nat × Nat} {canvas : CanvasSize}

/-- Any other mode shows the margin crop. -/
theorem scaled_captureUvRect_stretch (hfw : frameSize.1 < 2 ^ 32) (hfh : frameSize.2 < 2 ^ 32)
    (hmode : config.captureCropMode ≠ "aspect") :
    (captureUvRect config frameSize canvas).scaled (frameLength frameSize.1)
      (frameLength frameSize.2) = (config.marginSides frameSize).rect := by
  rw [scaled_captureUvRect, if_neg fun h => hmode h.1, config.margins_eq hfw hfh]

/-- The aspect mode shows the letterbox of the canvas in it. -/
theorem scaled_captureUvRect_aspect (hfw : frameSize.1 < 2 ^ 32) (hfh : frameSize.2 < 2 ^ 32)
    (hcw : 0 < canvas.w) (hch : 0 < canvas.h) (hmode : config.captureCropMode = "aspect") :
    let source := (captureUvRect config frameSize canvas).scaled (frameLength frameSize.1)
      (frameLength frameSize.2)
    Letterbox (config.marginSides frameSize).rect source canvas ∧ 0 < source.w ∧ 0 < source.h := by
  obtain ⟨hw, hh⟩ := one_le_marginSides config frameSize
  have hw' := one_pos.trans_le hw
  have hh' := one_pos.trans_le hh
  have hscale := fitScale_pos hw' hh' hcw hch
  rw [scaled_captureUvRect, if_pos ⟨hmode, hch⟩, config.margins_eq hfw hfh,
    cropAspect_rect hcw hch hw' hh']
  exact ⟨letterbox_centred hw' hh' hcw hch, mul_pos hcw hscale, mul_pos hch hscale⟩

/-- In either mode, part of the margin crop is shown. -/
theorem scaled_captureUvRect_inside (hfw : frameSize.1 < 2 ^ 32) (hfh : frameSize.2 < 2 ^ 32)
    (hcw : 0 < canvas.w) (hch : 0 < canvas.h) :
    let source := (captureUvRect config frameSize canvas).scaled (frameLength frameSize.1)
      (frameLength frameSize.2)
    source.Inside (config.marginSides frameSize).rect ∧ 0 < source.w ∧ 0 < source.h := by
  by_cases hmode : config.captureCropMode = "aspect"
  · obtain ⟨hletterbox, hpos⟩ := scaled_captureUvRect_aspect config hfw hfh hcw hch hmode
    exact ⟨hletterbox.inside, hpos⟩
  · obtain ⟨hw, hh⟩ := one_le_marginSides config frameSize
    rw [scaled_captureUvRect_stretch config hfw hfh hmode]
    exact ⟨⟨le_refl _, le_refl _, le_refl _, le_refl _⟩, one_pos.trans_le hw, one_pos.trans_le hh⟩

end Shown

/-- **The capture crop is valid.**  For every frame whose size fits `u32`, all margins,
    every canvas of positive size and either mode: the texture rectangle lies in the
    unit square and has positive width and height.  In source pixels it is the margin
    crop, which has at least one pixel each way, or in aspect mode the letterbox of
    the canvas in the margin crop. -/
theorem capture_crop_valid (config : CropConfig) {frameSize : Nat × Nat} {canvas : CanvasSize}
    (hfw : frameSize.1 < 2 ^ 32) (hfh : frameSize.2 < 2 ^ 32) (hcw : 0 < canvas.w)
    (hch : 0 < canvas.h) :
    let uv := captureUvRect config frameSize canvas
    let source := uv.scaled (frameLength frameSize.1) (frameLength frameSize.2)
    let crop := (config.marginSides frameSize).rect
    uv.Inside ⟨⟨0, 0⟩, 1, 1⟩ ∧ 0 < uv.w ∧ 0 < uv.h ∧
    1 ≤ crop.w ∧ 1 ≤ crop.h ∧
    (config.captureCropMode ≠ "aspect" → source = crop) ∧
    (config.captureCropMode = "aspect" → Letterbox crop source canvas) := by
  intro uv source crop
  obtain ⟨hw, hh⟩ := one_le_marginSides config frameSize
  obtain ⟨hin, hsw, hsh⟩ := scaled_captureUvRect_inside config hfw hfh hcw hch
  have hfw' := frameLength_pos frameSize.1
  have hfh' := frameLength_pos frameSize.2
  refine ⟨?_, ?_, ?_, hw, hh, scaled_captureUvRect_stretch config hfw hfh, fun hmode => ?_⟩
  · exact Rect.inside_unit_of_scaled hfw' hfh' (hin.trans (marginSides_inside config frameSize))
  · exact (mul_pos_iff_of_pos_right hfw').mp hsw
  · exact (mul_pos_iff_of_pos_right hfh').mp hsh
  · exact (scaled_captureUvRect_aspect config hfw hfh hcw hch hmode).1

/-- Margins that cross, on a tiny frame. -/
theorem capture_crop_valid_crossing :
    let config : CropConfig := ⟨4000, 1, 4000000000, 0, "aspect"⟩
    let uv := captureUvRect config (3, 2) ⟨256, 224⟩
    uv.Inside ⟨⟨0, 0⟩, 1, 1⟩ ∧ 0 < uv.w ∧ 0 < uv.h ∧
      Letterbox (config.marginSides (3, 2)).rect (uv.scaled 3 2) ⟨256, 224⟩ := by
  obtain ⟨hin, hw, hh, -, -, -, haspect⟩ :=
    @capture_crop_valid ⟨4000, 1, 4000000000, 0, "aspect"⟩ (3, 2) ⟨256, 224⟩ (by decide)
      (by decide) (by norm_num) (by norm_num)
  exact ⟨hin, hw, hh, haspect rfl⟩

-- ============================================================================
-- On the screen
-- ============================================================================

section Screen

variable {area : Rect} {canvas : CanvasSize}

/-- In aspect mode the pixels of the capture are square on the screen. -/
theorem capture_scale_uniform (config : CropConfig) {frameSize : Nat × Nat}
    (hmode : config.captureCropMode = "aspect") (hfw : frameSize.1 < 2 ^ 32)
    (hfh : frameSize.2 < 2 ^ 32) (haw : 0 < area.w) (hah : 0 < area.h) (hcw : 0 < canvas.w)
    (hch : 0 < canvas.h) :
    let view := (Viewport.fit area canvas).screenRect
    let source := (captureUvRect config frameSize canvas).scaled (frameLength frameSize.1)
      (frameLength frameSize.2)
    view.w / source.w = view.h / source.h := by
  intro view source
  obtain ⟨hshown, hsw, hsh⟩ := scaled_captureUvRect_aspect config hfw hfh hcw hch hmode
  have hview : 0 < view.h := mul_pos hch (fitScale_pos haw hah hcw hch)
  exact (Viewport.letterbox_fit haw hah hcw hch).div_eq_div hshown hview hsh hsw

/-- A script is told the canvas point the pointer is over. -/
theorem feedMousePos_eq_some_iff (haw : 0 < area.w) (hah : 0 < area.h) (hcw : 0 < canvas.w)
    (hch : 0 < canvas.h) {latestPos : Option Pos2} {q : ℚ × ℚ} :
    feedMousePos (some (Viewport.fit area canvas)) latestPos = some q ↔
      canvas.Contains q.1 q.2 ∧ latestPos = some ((Viewport.fit area canvas).pt q.1 q.2) := by
  have hscale : 0 < (Viewport.fit area canvas).scale := fitScale_pos haw hah hcw hch
  cases latestPos with
  | none => simp [feedMousePos]
  | some p =>
      simp only [feedMousePos, Option.bind_some, Option.some.injEq]
      rw [Viewport.screenToCanvas_eq_some_iff hscale, eq_comm (a := p)]
      rfl

end Screen

end App
end SniLua
