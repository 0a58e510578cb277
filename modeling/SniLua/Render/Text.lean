/-
  SniLua.Render.Text

  Text as a script measures it and as the painter draws it.  `gfx.text_width` and
  `gfx.text_height` split the string into lines and count; the painter walks over
  the characters with a pen that goes back to the left at a newline.

  The walk visits the lines of the split (`TextGrid`), so a glyph lies where
  measuring puts it, and inside the measured box.  The quads of a glyph are the
  squares of its pixels (`mem_glyphQuads_iff`).
-/

import Mathlib.Data.List.Nodup
import Mathlib.Data.Nat.Bitwise
import Mathlib.Tactic.Linarith
import Mathlib.Tactic.Ring
import SniLua.Lib.TextGrid
import SniLua.Render.Color
import SniLua.Render.Font
import SniLua.Render.Viewport

namespace SniLua
namespace Render

open Lib

-- ============================================================================
-- Measuring
-- ============================================================================

/-- The length of the longest line. -/
def widest (text : String) : Nat := TextGrid.width '\n' text.toList

def lineCount (text : String) : Nat := TextGrid.height '\n' text.toList

/-- `gfx.text_width`. -/
def textWidth (font : Font) (s : String) : ℚ := widest s * font.advance

/-- `gfx.text_height`; a missing string counts as one line. -/
def textHeight (font : Font) (s : Option String) : ℚ :=
  (max ((s.map lineCount).getD 1) 1 : Nat) * font.lineAdvance

-- ============================================================================
-- Painting
-- ============================================================================

inductive TextAlign where
  | left | center | right
deriving DecidableEq

inductive TextVAlign where
  | top | middle | bottom
deriving DecidableEq

/-- `DrawCmd::Text`. -/
structure TextCmd where
  x : ℚ
  y : ℚ
  text : String
  color : Color
  scale : ℚ
  font : Font
  bg : Option Color
  outline : Option Color
  align : TextAlign
  valign : TextVAlign

/-- How overlay text is sized. -/
inductive TextSizing where
  /-- One font-pixel is `mult` SNES pixels, scaled with the viewport. -/
  | gameScaled (mult : ℚ)
  /-- One font-pixel is `px` screen pixels. -/
  | fixedScreen (px : ℚ)

/-- A filled rectangle. -/
structure Quad where
  rect : Rect
  color : Color32
deriving DecidableEq

/-- The size of a font-pixel on the screen. -/
def fontPixel (vp : Viewport) (t : TextCmd) (sizing : TextSizing) : ℚ :=
  let snesPx := vp.scale / vp.canvas.snesRatio
  max (match sizing with
    | .gameScaled mult => snesPx * mult * t.scale
    | .fixedScreen px => px * t.scale) 1

section Paint

variable (px : ℚ)

/-- The width and the height the painter aligns with. -/
def paintedSize (t : TextCmd) : ℚ × ℚ :=
  let advance := t.font.advance * px
  let lineAdvance := t.font.lineAdvance * px
  let nLines : ℚ := (max (lineCount t.text) 1 : Nat)
  (widest t.text * advance, max (nLines * lineAdvance) lineAdvance)

/-- The box of the text, aligned to its anchor. -/
def textBox (anchor : Pos2) (t : TextCmd) : Rect :=
  let (textW, textH) := paintedSize px t
  let ax := match t.align with
    | .left => 0
    | .center => textW * (1 / 2)
    | .right => textW
  let ay := match t.valign with
    | .top => 0
    | .middle => textH * (1 / 2)
    | .bottom => textH
  { min := { x := anchor.x - ax, y := anchor.y - ay }, w := textW, h := textH }

/-- The pixels of a row that are set. -/
def rowQuads (width : Nat) (penX ry : ℚ) (bits : UInt8) (paint : Color32) : List Quad :=
  (List.range width).filterMap fun bit =>
    if bits &&& (1 <<< UInt8.ofNat bit) ≠ 0 then
      some
        { rect := { min := { x := penX + bit * px, y := ry }, w := px, h := px }, color := paint }
    else none

/-- The quads of a character with the pen at its cell. -/
def glyphQuads (font : Font) (pen : Pos2) (paint : Color32) (ch : Char) : List Quad :=
  (font.glyph ch).zipIdx.flatMap fun (bits, row) =>
    if bits = 0 then [] else rowQuads px font.width pen.x (pen.y + row * px) bits paint

/-- The loop over the characters; a newline puts the pen back to `left`. -/
def layChars (font : Font) (left : ℚ) (pen : Pos2) (paint : Color32) : List Char → List Quad
  | [] => []
  | ch :: chars =>
      if ch = '\n' then
        layChars font left { x := left, y := pen.y + font.lineAdvance * px } paint chars
      else
        glyphQuads px font pen paint ch ++
          layChars font left { x := pen.x + font.advance * px, y := pen.y } paint chars

/-- `lay`: the text, moved by `(dx, dy)`. -/
def lay (origin : Pos2) (t : TextCmd) (dx dy : ℚ) (paint : Color32) : List Quad :=
  layChars px t.font (origin.x + dx) { x := origin.x + dx, y := origin.y + dy } paint t.text.toList

/-- The backing rectangle; an empty text has none. -/
def backing (egui : Egui) (box : Rect) (t : TextCmd) : List Quad :=
  match t.bg with
  | some b => if 0 < widest t.text then [{ rect := box.grow px, color := egui.col b }] else []
  | none => []

/-- The 8 neighbours, in font-pixels. -/
def neighbours : List (ℚ × ℚ) :=
  [(-px, -px), (0, -px), (px, -px), (-px, 0), (px, 0), (-px, px), (0, px), (px, px)]

def outlineQuads (egui : Egui) (origin : Pos2) (t : TextCmd) : List Quad :=
  match t.outline with
  | some o => (neighbours px).flatMap fun (dx, dy) => lay px origin t dx dy (egui.col o)
  | none => []

/-- Everything painted for a text with font-pixels of size `px`. -/
def paintTextPx (egui : Egui) (anchor : Pos2) (t : TextCmd) : List Quad :=
  let box := textBox px anchor t
  backing px egui box t ++ outlineQuads px egui box.min t ++
    lay px box.min t 0 0 (egui.col t.color)

end Paint

/-- `paint_text`. -/
def paintText (egui : Egui) (vp : Viewport) (t : TextCmd) (sizing : TextSizing) : List Quad :=
  paintTextPx (fontPixel vp t sizing) egui (vp.pt t.x t.y) t

/-- The font-pixel is never smaller than a screen pixel. -/
theorem fontPixel_pos (vp : Viewport) (t : TextCmd) (sizing : TextSizing) :
    0 < fontPixel vp t sizing :=
  lt_of_lt_of_le one_pos (le_max_right _ _)

-- ============================================================================
-- The pen and the lines
-- ============================================================================

/-- The pen at a row and a column. -/
def penAt (px : ℚ) (font : Font) (left top : ℚ) (i j : Nat) : Pos2 :=
  { x := left + j * (font.advance * px), y := top + i * (font.lineAdvance * px) }

/-- The walk of the painter is the walk over the grid. -/
theorem layChars_eq_walk (px : ℚ) (font : Font) (left top : ℚ) (paint : Color32)
    (chars : List Char) (i j : Nat) :
    layChars px font left (penAt px font left top i j) paint chars =
      (TextGrid.walk '\n' i j chars).flatMap fun c =>
        glyphQuads px font (penAt px font left top c.2.1 c.2.2) paint c.1 := by
  induction chars generalizing i j with
  | nil => rfl
  | cons ch chars ih =>
      rw [layChars, TextGrid.walk]
      by_cases hch : ch = '\n'
      · have hpen : ({ x := left, y := (penAt px font left top i j).y + font.lineAdvance * px } :
            Pos2) = penAt px font left top (i + 1) 0 := by
          simp only [penAt, Nat.cast_add, Nat.cast_one, Nat.cast_zero, Pos2.mk.injEq]
          constructor <;> ring
        rw [if_pos hch, if_pos hch, hpen, ih]
      · have hpen : ({ x := (penAt px font left top i j).x + font.advance * px
                       y := (penAt px font left top i j).y } : Pos2) =
            penAt px font left top i (j + 1) := by
          simp only [penAt, Nat.cast_add, Nat.cast_one, Pos2.mk.injEq, and_true]
          ring
        rw [if_neg hch, if_neg hch, hpen, ih, List.flatMap_cons]

/-- Line by line: the `j`-th character of the `i`-th line is drawn with its cell at
    column `j` of row `i`. -/
theorem lay_eq_lines (px : ℚ) (origin : Pos2) (t : TextCmd) (dx dy : ℚ) (paint : Color32) :
    lay px origin t dx dy paint =
      (t.text.toList.splitOn '\n').zipIdx.flatMap fun line =>
        line.1.zipIdx.flatMap fun c =>
          glyphQuads px t.font (penAt px t.font (origin.x + dx) (origin.y + dy) line.2 c.2) paint
            c.1 := by
  have hpen : ({ x := origin.x + dx, y := origin.y + dy } : Pos2) =
      penAt px t.font (origin.x + dx) (origin.y + dy) 0 0 := by
    simp [penAt]
  rw [lay, hpen, layChars_eq_walk, TextGrid.walk_eq_cells, TextGrid.cells_eq_flatMap,
    List.flatMap_assoc]
  refine List.flatMap_congr fun line _ => ?_
  rw [List.flatMap_map]

-- ============================================================================
-- The pixels of a character
-- ============================================================================

/-- The character has a pixel in this row and column: the bit of the row is set, bit
    0 being the leftmost. -/
def Font.HasPixel (font : Font) (ch : Char) (row bit : Nat) : Prop :=
  bit < font.width ∧ ∃ bits, (font.glyph ch)[row]? = some bits ∧ bits.toNat.testBit bit = true

/-- The square of a row and a column of a cell. -/
def pixelQuad (px : ℚ) (pen : Pos2) (paint : Color32) (row bit : Nat) : Quad :=
  { rect := { min := { x := pen.x + bit * px, y := pen.y + row * px }, w := px, h := px }
    color := paint }

theorem Font.width_le (font : Font) : font.width ≤ 8 := by
  cases font <;> decide

/-- The mask of the painter picks one bit. -/
theorem and_mask_ne_zero_iff (bits : UInt8) {bit : Nat} (hbit : bit < 8) :
    bits &&& (1 <<< UInt8.ofNat bit) ≠ 0 ↔ bits.toNat.testBit bit = true := by
  have hmask : (1 <<< UInt8.ofNat bit : UInt8).toNat = 2 ^ bit := by
    have hlt : 2 ^ bit < 2 ^ 8 := Nat.pow_lt_pow_right (by decide) hbit
    have hmod : bit % 256 % 8 = bit := by omega
    simpa [Nat.shiftLeft_eq, hmod] using hlt
  rw [Ne, ← UInt8.toNat_inj, UInt8.toNat_and, hmask, Nat.and_two_pow]
  cases bits.toNat.testBit bit <;> simp

theorem mem_rowQuads_iff {px : ℚ} {width : Nat} (hwidth : width ≤ 8) {penX ry : ℚ} {bits : UInt8}
    {paint : Color32} {q : Quad} :
    q ∈ rowQuads px width penX ry bits paint ↔
      ∃ bit < width, bits.toNat.testBit bit = true ∧
        q = { rect := { min := { x := penX + bit * px, y := ry }, w := px, h := px }
              color := paint } := by
  rw [rowQuads, List.mem_filterMap]
  constructor
  · rintro ⟨bit, hbit, hq⟩
    have hlt := List.mem_range.mp hbit
    split at hq
    · rename_i hset
      exact ⟨bit, hlt, (and_mask_ne_zero_iff bits (hlt.trans_le hwidth)).mp hset,
        (Option.some.inj hq).symm⟩
    · exact absurd hq (by simp)
  · rintro ⟨bit, hlt, hset, rfl⟩
    refine ⟨bit, List.mem_range.mpr hlt, ?_⟩
    rw [if_pos ((and_mask_ne_zero_iff bits (hlt.trans_le hwidth)).mpr hset)]

/-- The quads of a character are the squares of its pixels. -/
theorem mem_glyphQuads_iff {px : ℚ} {font : Font} {pen : Pos2} {paint : Color32} {ch : Char}
    {q : Quad} :
    q ∈ glyphQuads px font pen paint ch ↔
      ∃ row bit, font.HasPixel ch row bit ∧ q = pixelQuad px pen paint row bit := by
  rw [glyphQuads, List.mem_flatMap]
  constructor
  · rintro ⟨⟨bits, row⟩, hrow, hq⟩
    have hget : (font.glyph ch)[row]? = some bits := List.mk_mem_zipIdx_iff_getElem?.mp hrow
    simp only at hq
    split at hq
    · exact absurd hq (by simp)
    · obtain ⟨bit, hbit, hset, rfl⟩ := (mem_rowQuads_iff font.width_le).mp hq
      exact ⟨row, bit, ⟨hbit, bits, hget, hset⟩, rfl⟩
  · rintro ⟨row, bit, ⟨hbit, bits, hget, hset⟩, rfl⟩
    refine ⟨(bits, row), List.mk_mem_zipIdx_iff_getElem?.mpr hget, ?_⟩
    -- a row without pixels is skipped
    have hne : bits ≠ 0 := by
      rintro rfl
      simp at hset
    simp only [if_neg hne]
    exact (mem_rowQuads_iff font.width_le).mpr ⟨bit, hbit, hset, rfl⟩

theorem nodup_rowQuads {px : ℚ} (hpx : 0 < px) (width : Nat) (penX ry : ℚ) (bits : UInt8)
    (paint : Color32) : (rowQuads px width penX ry bits paint).Nodup := by
  refine List.Nodup.filterMap ?_ List.nodup_range
  intro bit bit' q hq hq'
  split at hq
  · split at hq'
    · have hsame := (Option.some.inj hq).trans (Option.some.inj hq').symm
      have hx : penX + bit * px = penX + bit' * px := congrArg (fun q => q.rect.min.x) hsame
      have hcast : (bit : ℚ) = bit' := mul_right_cancel₀ hpx.ne' (add_left_cancel hx)
      exact_mod_cast hcast
    · exact absurd hq' (by simp)
  · exact absurd hq (by simp)

/-- Every pixel has one quad. -/
theorem nodup_glyphQuads {px : ℚ} (hpx : 0 < px) (font : Font) (pen : Pos2) (paint : Color32)
    (ch : Char) : (glyphQuads px font pen paint ch).Nodup := by
  rw [glyphQuads, List.nodup_flatMap]
  constructor
  · rintro ⟨bits, row⟩ -
    dsimp only
    split
    · exact List.nodup_nil
    · exact nodup_rowQuads hpx ..
  · -- the quads of two rows differ in their height
    have hrows : ((font.glyph ch).zipIdx.map (·.2)).Nodup := by
      rw [List.zipIdx_map_snd]
      exact List.nodup_range' _
    refine (List.pairwise_map.mp hrows).imp ?_
    rintro ⟨bits, row⟩ ⟨bits', row'⟩ hne
    have hy : ∀ {q : Quad} {bits : UInt8} {row : Nat},
        q ∈ (if bits = 0 then [] else
          rowQuads px font.width pen.x (pen.y + row * px) bits paint) →
        q.rect.min.y = pen.y + row * px := by
      intro q bits row hq
      split at hq
      · exact absurd hq (by simp)
      · obtain ⟨bit, -, -, rfl⟩ := (mem_rowQuads_iff font.width_le).mp hq
        rfl
    intro q hq hq'
    have hcast : (row : ℚ) = row' :=
      mul_right_cancel₀ hpx.ne' (add_left_cancel ((hy hq).symm.trans (hy hq')))
    exact hne (by exact_mod_cast hcast)

theorem Font.HasPixel.row_lt {font : Font} {ch : Char} {row bit : Nat}
    (h : font.HasPixel ch row bit) : row < font.height := by
  obtain ⟨-, bits, hget, -⟩ := h
  rw [← font.length_glyph ch]
  exact (List.getElem?_eq_some_iff.mp hget).1

/-- The squares of a cell lie inside it. -/
theorem pixelQuad_inside {px : ℚ} (hpx : 0 < px) {font : Font} (pen : Pos2) (paint : Color32)
    {row bit : Nat} (hrow : row < font.height) (hbit : bit < font.width) :
    (pixelQuad px pen paint row bit).rect.Inside
      { min := pen, w := font.width * px, h := font.height * px } := by
  have hright : (bit + 1 : ℚ) * px ≤ font.width * px :=
    mul_le_mul_of_nonneg_right (by exact_mod_cast hbit) hpx.le
  have hbottom : (row + 1 : ℚ) * px ≤ font.height * px :=
    mul_le_mul_of_nonneg_right (by exact_mod_cast hrow) hpx.le
  have hx : (0 : ℚ) ≤ bit * px := by positivity
  have hy : (0 : ℚ) ≤ row * px := by positivity
  simp only [pixelQuad, Rect.Inside]
  refine ⟨?_, ?_, ?_, ?_⟩ <;> linarith

-- ============================================================================
-- Inside the box
-- ============================================================================

/-- Measuring and painting agree on the size. -/
theorem paintedSize_eq {px : ℚ} (hpx : 0 < px) (t : TextCmd) :
    paintedSize px t = (textWidth t.font t.text * px, textHeight t.font (some t.text) * px) := by
  have hone : (1 : ℚ) ≤ (max (lineCount t.text) 1 : Nat) := by
    exact_mod_cast Nat.le_max_right (lineCount t.text) 1
  have hadvance : (0 : ℚ) ≤ t.font.lineAdvance * px :=
    mul_nonneg (Nat.cast_nonneg _) hpx.le
  have hmax : (t.font.lineAdvance * px : ℚ) ≤
      (max (lineCount t.text) 1 : Nat) * (t.font.lineAdvance * px) :=
    le_mul_of_one_le_left hadvance hone
  rw [paintedSize, textWidth, textHeight]
  simp only [Option.map_some, Option.getD_some, max_eq_left hmax, mul_assoc]

/-- The pixels of a cell lie inside the measured size. -/
theorem pixel_inside {px : ℚ} (hpx : 0 < px) {cells cell gap k bit : Nat} (hk : k < cells)
    (hbit : bit < cell) (hgap : cell + 1 = gap) :
    (0 : ℚ) ≤ k * (gap * px) + bit * px ∧
      k * (gap * px) + bit * px + px ≤ cells * (gap * px) := by
  have hnat : k * gap + bit + 1 ≤ cells * gap := by
    have hrow : (k + 1) * gap ≤ cells * gap := Nat.mul_le_mul_right gap hk
    rw [Nat.add_mul] at hrow
    omega
  have hcast : ((k * gap + bit + 1 : Nat) : ℚ) ≤ (cells * gap : Nat) := by exact_mod_cast hnat
  have hscaled := mul_le_mul_of_nonneg_right hcast hpx.le
  push_cast at hscaled
  constructor
  · positivity
  · linarith

/-- A moved text stays inside its box moved by the same. -/
theorem lay_inside {px : ℚ} (hpx : 0 < px) (anchor : Pos2) (t : TextCmd) (dx dy : ℚ)
    (paint : Color32) {q : Quad} (hq : q ∈ lay px (textBox px anchor t).min t dx dy paint) :
    let box := textBox px anchor t
    q.rect.Inside { box with min := { x := box.min.x + dx, y := box.min.y + dy } } := by
  have hsize := paintedSize_eq hpx t
  have hlay : lay px (textBox px anchor t).min t dx dy paint =
      (TextGrid.walk '\n' 0 0 t.text.toList).flatMap fun c =>
        glyphQuads px t.font (penAt px t.font ((textBox px anchor t).min.x + dx)
          ((textBox px anchor t).min.y + dy) c.2.1 c.2.2) paint c.1 := by
    rw [← layChars_eq_walk]
    simp [lay, penAt]
  rw [hlay] at hq
  obtain ⟨⟨ch, i, j⟩, hcell, hq⟩ := List.mem_flatMap.mp hq
  obtain ⟨hi, hj⟩ := TextGrid.mem_walk hcell
  obtain ⟨row, bit, hpixel, rfl⟩ := mem_glyphQuads_iff.mp hq
  have hbit := hpixel.1
  have hrow := hpixel.row_lt
  have hx : (0 : ℚ) ≤ j * (t.font.advance * px) + bit * px ∧
      j * (t.font.advance * px) + bit * px + px ≤ widest t.text * (t.font.advance * px) :=
    pixel_inside hpx hj hbit rfl
  have hy : (0 : ℚ) ≤ i * (t.font.lineAdvance * px) + row * px ∧
      i * (t.font.lineAdvance * px) + row * px + px ≤
        lineCount t.text * (t.font.lineAdvance * px) :=
    pixel_inside hpx hi hrow rfl
  have hw : (textBox px anchor t).w = widest t.text * (t.font.advance * px) := by
    simp only [textBox, hsize, textWidth, mul_assoc]
  have hh : (textBox px anchor t).h = lineCount t.text * (t.font.lineAdvance * px) := by
    have hlines : max (lineCount t.text) 1 = lineCount t.text :=
      max_eq_left (TextGrid.height_pos _ _)
    simp only [textBox, hsize, textHeight, Option.map_some, Option.getD_some, hlines, mul_assoc]
  simp only [pixelQuad, Rect.Inside, hw, hh, penAt]
  refine ⟨?_, ?_, ?_, ?_⟩ <;> linarith

theorem inside_grow {r box : Rect} {px dx dy : ℚ} (hdx : -px ≤ dx ∧ dx ≤ px)
    (hdy : -px ≤ dy ∧ dy ≤ px)
    (h : r.Inside { box with min := { x := box.min.x + dx, y := box.min.y + dy } }) :
    r.Inside (box.grow px) := by
  obtain ⟨h₁, h₂, h₃, h₄⟩ := h
  simp only [Rect.Inside, Rect.grow] at h₁ h₂ h₃ h₄ ⊢
  obtain ⟨hdx₁, hdx₂⟩ := hdx
  obtain ⟨hdy₁, hdy₂⟩ := hdy
  refine ⟨?_, ?_, ?_, ?_⟩ <;> linarith

/-- The neighbours are at most one font-pixel away. -/
theorem neighbours_le {px : ℚ} (hpx : 0 < px) {d : ℚ × ℚ} (hd : d ∈ neighbours px) :
    (-px ≤ d.1 ∧ d.1 ≤ px) ∧ (-px ≤ d.2 ∧ d.2 ≤ px) := by
  simp only [neighbours, List.mem_cons, List.not_mem_nil, or_false] at hd
  rcases hd with rfl | rfl | rfl | rfl | rfl | rfl | rfl | rfl <;>
    exact ⟨⟨by linarith, by linarith⟩, by linarith, by linarith⟩

theorem outlineQuads_inside {px : ℚ} (hpx : 0 < px) (egui : Egui) (anchor : Pos2) (t : TextCmd)
    {q : Quad} (hq : q ∈ outlineQuads px egui (textBox px anchor t).min t) :
    q.rect.Inside ((textBox px anchor t).grow px) := by
  rw [outlineQuads] at hq
  split at hq
  · obtain ⟨⟨dx, dy⟩, hd, hq⟩ := List.mem_flatMap.mp hq
    obtain ⟨hdx, hdy⟩ := neighbours_le hpx hd
    exact inside_grow hdx hdy (lay_inside hpx anchor t dx dy _ hq)
  · exact absurd hq (by simp)

theorem rect_of_mem_backing {px : ℚ} {egui : Egui} {box : Rect} {t : TextCmd} {q : Quad}
    (hq : q ∈ backing px egui box t) : q.rect = box.grow px := by
  rw [backing] at hq
  split at hq
  · split at hq
    · rw [List.mem_singleton.mp hq]
    · exact absurd hq (by simp)
  · exact absurd hq (by simp)

/-- All that `paint_text` paints stays inside the box grown by one font-pixel. -/
theorem paintText_inside (egui : Egui) (vp : Viewport) (t : TextCmd) (sizing : TextSizing)
    {q : Quad} (hq : q ∈ paintText egui vp t sizing) :
    let px := fontPixel vp t sizing
    q.rect.Inside ((textBox px (vp.pt t.x t.y) t).grow px) := by
  have hpx := fontPixel_pos vp t sizing
  rw [paintText, paintTextPx] at hq
  dsimp only at hq ⊢
  rcases List.mem_append.mp hq with hq | hq
  · rcases List.mem_append.mp hq with hq | hq
    · rw [rect_of_mem_backing hq]
      exact ⟨le_refl _, le_refl _, le_refl _, le_refl _⟩
    · exact outlineQuads_inside hpx egui _ t hq
  · refine inside_grow ?_ ?_ (lay_inside hpx _ t 0 0 _ hq)
    · constructor <;> linarith
    · constructor <;> linarith

/-- Two lines with an outline, anchored at their middle. -/
def twoLines : TextCmd :=
  { x := 10, y := 20, text := "HP\n99%", color := ⟨255, 255, 255, 255⟩, scale := 1, font := .small
    bg := some ⟨0, 0, 0, 255⟩, outline := some ⟨0, 0, 0, 255⟩, align := .center, valign := .middle }

end Render
end SniLua
