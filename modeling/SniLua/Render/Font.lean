/-
  SniLua.Render.Font

  Embedded bitmap fonts (ASCII 0x20 to 0x7E).  A glyph is a list of rows; bit 0 of a
  row is its leftmost pixel.
-/

import Mathlib.Data.List.Basic

namespace SniLua
namespace Render

-- ============================================================================
-- Glyph data
-- ============================================================================

/-- `FONT_8X8`: 95 glyphs of 8 rows. -/
def font8x8 : List (List UInt8) :=
  [[0x00,0x00,0x00,0x00,0x00,0x00,0x00,0x00], [0x18,0x3C,0x3C,0x18,0x18,0x00,0x18,0x00],
   [0x36,0x36,0x00,0x00,0x00,0x00,0x00,0x00], [0x36,0x36,0x7F,0x36,0x7F,0x36,0x36,0x00],
   [0x0C,0x3E,0x03,0x1E,0x30,0x1F,0x0C,0x00], [0x00,0x63,0x33,0x18,0x0C,0x66,0x63,0x00],
   [0x1C,0x36,0x1C,0x6E,0x3B,0x33,0x6E,0x00], [0x06,0x06,0x03,0x00,0x00,0x00,0x00,0x00],
   [0x18,0x0C,0x06,0x06,0x06,0x0C,0x18,0x00], [0x06,0x0C,0x18,0x18,0x18,0x0C,0x06,0x00],
   [0x00,0x66,0x3C,0xFF,0x3C,0x66,0x00,0x00], [0x00,0x0C,0x0C,0x3F,0x0C,0x0C,0x00,0x00],
   [0x00,0x00,0x00,0x00,0x00,0x0C,0x0C,0x06], [0x00,0x00,0x00,0x3F,0x00,0x00,0x00,0x00],
   [0x00,0x00,0x00,0x00,0x00,0x0C,0x0C,0x00], [0x60,0x30,0x18,0x0C,0x06,0x03,0x01,0x00],
   [0x3E,0x63,0x73,0x7B,0x6F,0x67,0x3E,0x00], [0x0C,0x0E,0x0C,0x0C,0x0C,0x0C,0x3F,0x00],
   [0x1E,0x33,0x30,0x1C,0x06,0x33,0x3F,0x00], [0x1E,0x33,0x30,0x1C,0x30,0x33,0x1E,0x00],
   [0x38,0x3C,0x36,0x33,0x7F,0x30,0x78,0x00], [0x3F,0x03,0x1F,0x30,0x30,0x33,0x1E,0x00],
   [0x1C,0x06,0x03,0x1F,0x33,0x33,0x1E,0x00], [0x3F,0x33,0x30,0x18,0x0C,0x0C,0x0C,0x00],
   [0x1E,0x33,0x33,0x1E,0x33,0x33,0x1E,0x00], [0x1E,0x33,0x33,0x3E,0x30,0x18,0x0E,0x00],
   [0x00,0x0C,0x0C,0x00,0x00,0x0C,0x0C,0x00], [0x00,0x0C,0x0C,0x00,0x00,0x0C,0x0C,0x06],
   [0x18,0x0C,0x06,0x03,0x06,0x0C,0x18,0x00], [0x00,0x00,0x3F,0x00,0x00,0x3F,0x00,0x00],
   [0x06,0x0C,0x18,0x30,0x18,0x0C,0x06,0x00], [0x1E,0x33,0x30,0x18,0x0C,0x00,0x0C,0x00],
   [0x3E,0x63,0x7B,0x7B,0x7B,0x03,0x1E,0x00], [0x0C,0x1E,0x33,0x33,0x3F,0x33,0x33,0x00],
   [0x3F,0x66,0x66,0x3E,0x66,0x66,0x3F,0x00], [0x3C,0x66,0x03,0x03,0x03,0x66,0x3C,0x00],
   [0x1F,0x36,0x66,0x66,0x66,0x36,0x1F,0x00], [0x7F,0x46,0x16,0x1E,0x16,0x46,0x7F,0x00],
   [0x7F,0x46,0x16,0x1E,0x16,0x06,0x0F,0x00], [0x3C,0x66,0x03,0x03,0x73,0x66,0x7C,0x00],
   [0x33,0x33,0x33,0x3F,0x33,0x33,0x33,0x00], [0x1E,0x0C,0x0C,0x0C,0x0C,0x0C,0x1E,0x00],
   [0x78,0x30,0x30,0x30,0x33,0x33,0x1E,0x00], [0x67,0x66,0x36,0x1E,0x36,0x66,0x67,0x00],
   [0x0F,0x06,0x06,0x06,0x46,0x66,0x7F,0x00], [0x63,0x77,0x7F,0x7F,0x6B,0x63,0x63,0x00],
   [0x63,0x67,0x6F,0x7B,0x73,0x63,0x63,0x00], [0x1C,0x36,0x63,0x63,0x63,0x36,0x1C,0x00],
   [0x3F,0x66,0x66,0x3E,0x06,0x06,0x0F,0x00], [0x1E,0x33,0x33,0x33,0x3B,0x1E,0x38,0x00],
   [0x3F,0x66,0x66,0x3E,0x36,0x66,0x67,0x00], [0x1E,0x33,0x07,0x0E,0x38,0x33,0x1E,0x00],
   [0x3F,0x2D,0x0C,0x0C,0x0C,0x0C,0x1E,0x00], [0x33,0x33,0x33,0x33,0x33,0x33,0x3F,0x00],
   [0x33,0x33,0x33,0x33,0x33,0x1E,0x0C,0x00], [0x63,0x63,0x63,0x6B,0x7F,0x77,0x63,0x00],
   [0x63,0x63,0x36,0x1C,0x1C,0x36,0x63,0x00], [0x33,0x33,0x33,0x1E,0x0C,0x0C,0x1E,0x00],
   [0x7F,0x63,0x31,0x18,0x4C,0x66,0x7F,0x00], [0x1E,0x06,0x06,0x06,0x06,0x06,0x1E,0x00],
   [0x03,0x06,0x0C,0x18,0x30,0x60,0x40,0x00], [0x1E,0x18,0x18,0x18,0x18,0x18,0x1E,0x00],
   [0x08,0x1C,0x36,0x63,0x00,0x00,0x00,0x00], [0x00,0x00,0x00,0x00,0x00,0x00,0x00,0xFF],
   [0x0C,0x0C,0x18,0x00,0x00,0x00,0x00,0x00], [0x00,0x00,0x1E,0x30,0x3E,0x33,0x6E,0x00],
   [0x07,0x06,0x06,0x3E,0x66,0x66,0x3B,0x00], [0x00,0x00,0x1E,0x33,0x03,0x33,0x1E,0x00],
   [0x38,0x30,0x30,0x3e, 0x33,0x33,0x6E,0x00], [0x00,0x00,0x1E,0x33,0x3f, 0x03,0x1E,0x00],
   [0x1C,0x36,0x06,0x0f, 0x06,0x06,0x0F,0x00], [0x00,0x00,0x6E,0x33,0x33,0x3E,0x30,0x1F],
   [0x07,0x06,0x36,0x6E,0x66,0x66,0x67,0x00], [0x0C,0x00,0x0E,0x0C,0x0C,0x0C,0x1E,0x00],
   [0x30,0x00,0x30,0x30,0x30,0x33,0x33,0x1E], [0x07,0x06,0x66,0x36,0x1E,0x36,0x67,0x00],
   [0x0E,0x0C,0x0C,0x0C,0x0C,0x0C,0x1E,0x00], [0x00,0x00,0x33,0x7F,0x7F,0x6B,0x63,0x00],
   [0x00,0x00,0x1F,0x33,0x33,0x33,0x33,0x00], [0x00,0x00,0x1E,0x33,0x33,0x33,0x1E,0x00],
   [0x00,0x00,0x3B,0x66,0x66,0x3E,0x06,0x0F], [0x00,0x00,0x6E,0x33,0x33,0x3E,0x30,0x78],
   [0x00,0x00,0x3B,0x6E,0x66,0x06,0x0F,0x00], [0x00,0x00,0x3E,0x03,0x1E,0x30,0x1F,0x00],
   [0x08,0x0C,0x3E,0x0C,0x0C,0x2C,0x18,0x00], [0x00,0x00,0x33,0x33,0x33,0x33,0x6E,0x00],
   [0x00,0x00,0x33,0x33,0x33,0x1E,0x0C,0x00], [0x00,0x00,0x63,0x6B,0x7F,0x7F,0x36,0x00],
   [0x00,0x00,0x63,0x36,0x1C,0x36,0x63,0x00], [0x00,0x00,0x33,0x33,0x33,0x3E,0x30,0x1F],
   [0x00,0x00,0x3F,0x19,0x0C,0x26,0x3F,0x00], [0x38,0x0C,0x0C,0x07,0x0C,0x0C,0x38,0x00],
   [0x18,0x18,0x18,0x00,0x18,0x18,0x18,0x00], [0x07,0x0C,0x0C,0x38,0x0C,0x0C,0x07,0x00],
   [0x6E,0x3B,0x00,0x00,0x00,0x00,0x00,0x00]]

/-- `FONT_5X7`: 95 glyphs of 7 rows. -/
def font5x7 : List (List UInt8) :=
  [[0x00,0x00,0x00,0x00,0x00,0x00,0x00], [0x04,0x04,0x04,0x04,0x00,0x00,0x04],
   [0x0A,0x0A,0x0A,0x00,0x00,0x00,0x00], [0x0A,0x0A,0x1F,0x0A,0x1F,0x0A,0x0A],
   [0x04,0x1E,0x05,0x0E,0x14,0x0F,0x04], [0x03,0x13,0x08,0x04,0x02,0x19,0x18],
   [0x06,0x09,0x05,0x02,0x15,0x09,0x16], [0x04,0x04,0x02,0x00,0x00,0x00,0x00],
   [0x08,0x04,0x02,0x02,0x02,0x04,0x08], [0x02,0x04,0x08,0x08,0x08,0x04,0x02],
   [0x00,0x04,0x15,0x0E,0x15,0x04,0x00], [0x00,0x04,0x04,0x1F,0x04,0x04,0x00],
   [0x00,0x00,0x00,0x00,0x00,0x04,0x02], [0x00,0x00,0x00,0x1F,0x00,0x00,0x00],
   [0x00,0x00,0x00,0x00,0x00,0x06,0x06], [0x10,0x10,0x08,0x04,0x02,0x01,0x01],
   [0x0E,0x11,0x19,0x15,0x13,0x11,0x0E], [0x04,0x06,0x04,0x04,0x04,0x04,0x0E],
   [0x0E,0x11,0x10,0x08,0x04,0x02,0x1F], [0x1F,0x08,0x04,0x08,0x10,0x11,0x0E],
   [0x08,0x0C,0x0A,0x09,0x1F,0x08,0x08], [0x1F,0x01,0x0F,0x10,0x10,0x11,0x0E],
   [0x0C,0x02,0x01,0x0F,0x11,0x11,0x0E], [0x1F,0x10,0x08,0x04,0x02,0x02,0x02],
   [0x0E,0x11,0x11,0x0E,0x11,0x11,0x0E], [0x0E,0x11,0x11,0x1E,0x10,0x08,0x06],
   [0x00,0x06,0x06,0x00,0x06,0x06,0x00], [0x00,0x06,0x06,0x00,0x06,0x04,0x02],
   [0x08,0x04,0x02,0x01,0x02,0x04,0x08], [0x00,0x00,0x1F,0x00,0x1F,0x00,0x00],
   [0x02,0x04,0x08,0x10,0x08,0x04,0x02], [0x0E,0x11,0x10,0x08,0x04,0x00,0x04],
   [0x0E,0x11,0x10,0x16,0x15,0x15,0x0E], [0x0E,0x11,0x11,0x1F,0x11,0x11,0x11],
   [0x0F,0x11,0x11,0x0F,0x11,0x11,0x0F], [0x0E,0x11,0x01,0x01,0x01,0x11,0x0E],
   [0x0F,0x11,0x11,0x11,0x11,0x11,0x0F], [0x1F,0x01,0x01,0x0F,0x01,0x01,0x1F],
   [0x1F,0x01,0x01,0x0F,0x01,0x01,0x01], [0x0E,0x11,0x01,0x1D,0x11,0x11,0x1E],
   [0x11,0x11,0x11,0x1F,0x11,0x11,0x11], [0x0E,0x04,0x04,0x04,0x04,0x04,0x0E],
   [0x1C,0x08,0x08,0x08,0x08,0x09,0x06], [0x11,0x09,0x05,0x03,0x05,0x09,0x11],
   [0x01,0x01,0x01,0x01,0x01,0x01,0x1F], [0x11,0x1B,0x15,0x15,0x11,0x11,0x11],
   [0x11,0x11,0x13,0x15,0x19,0x11,0x11], [0x0E,0x11,0x11,0x11,0x11,0x11,0x0E],
   [0x0F,0x11,0x11,0x0F,0x01,0x01,0x01], [0x0E,0x11,0x11,0x11,0x15,0x09,0x16],
   [0x0F,0x11,0x11,0x0F,0x05,0x09,0x11], [0x1E,0x01,0x01,0x0E,0x10,0x10,0x0F],
   [0x1F,0x04,0x04,0x04,0x04,0x04,0x04], [0x11,0x11,0x11,0x11,0x11,0x11,0x0E],
   [0x11,0x11,0x11,0x11,0x11,0x0A,0x04], [0x11,0x11,0x11,0x15,0x15,0x1B,0x11],
   [0x11,0x11,0x0A,0x04,0x0A,0x11,0x11], [0x11,0x11,0x0A,0x04,0x04,0x04,0x04],
   [0x1F,0x10,0x08,0x04,0x02,0x01,0x1F], [0x0E,0x02,0x02,0x02,0x02,0x02,0x0E],
   [0x01,0x01,0x02,0x04,0x08,0x10,0x10], [0x0E,0x08,0x08,0x08,0x08,0x08,0x0E],
   [0x04,0x0A,0x11,0x00,0x00,0x00,0x00], [0x00,0x00,0x00,0x00,0x00,0x00,0x1F],
   [0x02,0x04,0x08,0x00,0x00,0x00,0x00], [0x00,0x00,0x0E,0x10,0x1E,0x11,0x1E],
   [0x01,0x01,0x0D,0x13,0x11,0x11,0x0F], [0x00,0x00,0x0E,0x01,0x01,0x11,0x0E],
   [0x10,0x10,0x16,0x19,0x11,0x11,0x1E], [0x00,0x00,0x0E,0x11,0x1F,0x01,0x0E],
   [0x0C,0x12,0x02,0x07,0x02,0x02,0x02], [0x00,0x1E,0x11,0x11,0x1E,0x10,0x0E],
   [0x01,0x01,0x0D,0x13,0x11,0x11,0x11], [0x04,0x00,0x06,0x04,0x04,0x04,0x0E],
   [0x08,0x00,0x0C,0x08,0x08,0x09,0x06], [0x01,0x01,0x09,0x05,0x03,0x05,0x09],
   [0x06,0x04,0x04,0x04,0x04,0x04,0x0E], [0x00,0x00,0x0B,0x15,0x15,0x11,0x11],
   [0x00,0x00,0x0D,0x13,0x11,0x11,0x11], [0x00,0x00,0x0E,0x11,0x11,0x11,0x0E],
   [0x00,0x00,0x0F,0x11,0x0F,0x01,0x01], [0x00,0x00,0x16,0x19,0x1E,0x10,0x10],
   [0x00,0x00,0x0D,0x13,0x01,0x01,0x01], [0x00,0x00,0x1E,0x01,0x0E,0x10,0x0F],
   [0x02,0x02,0x07,0x02,0x02,0x12,0x0C], [0x00,0x00,0x11,0x11,0x11,0x19,0x16],
   [0x00,0x00,0x11,0x11,0x11,0x0A,0x04], [0x00,0x00,0x11,0x11,0x15,0x15,0x0A],
   [0x00,0x00,0x11,0x0A,0x04,0x0A,0x11], [0x00,0x00,0x11,0x11,0x1E,0x10,0x0E],
   [0x00,0x00,0x1F,0x08,0x04,0x02,0x1F], [0x08,0x04,0x04,0x02,0x04,0x04,0x08],
   [0x04,0x04,0x04,0x04,0x04,0x04,0x04], [0x02,0x04,0x04,0x08,0x04,0x04,0x02],
   [0x00,0x00,0x02,0x15,0x08,0x00,0x00]]

-- ============================================================================
-- Fonts
-- ============================================================================

/-- Selectable typeface. -/
inductive Font where
  /-- 5x7 compact (default). -/
  | small
  /-- 8x8 classic. -/
  | normal
deriving DecidableEq, Repr

namespace Font

/-- `Font::parse`: anything else is the small one. -/
def parse (s : String) : Font :=
  match s.map Char.toLower with
  | "normal" | "big" | "large" | "8x8" => normal
  | _ => small

/-- Glyph cell width in font-pixels. -/
def width : Font → Nat
  | small => 5
  | normal => 8

/-- Glyph cell height in font-pixels. -/
def height : Font → Nat
  | small => 7
  | normal => 8

/-- Cell width and 1 pixel of spacing. -/
def advance (f : Font) : Nat := f.width + 1

/-- Cell height and 1 pixel of line gap. -/
def lineAdvance (f : Font) : Nat := f.height + 1

def table : Font → List (List UInt8)
  | small => font5x7
  | normal => font8x8

/-- The place of a character in the tables; `?` for anything that is not printable
    ASCII. -/
def glyphIndex (ch : Char) : Nat :=
  if 0x20 ≤ ch.toNat ∧ ch.toNat ≤ 0x7E then ch.toNat - 0x20 else '?'.toNat - 0x20

/-- Row bytes of a character. -/
def glyph (f : Font) (ch : Char) : List UInt8 := (f.table)[glyphIndex ch]?.getD []

/-- The tables have a glyph for every place. -/
theorem glyphIndex_lt (f : Font) (ch : Char) : glyphIndex ch < f.table.length := by
  have hlen : f.table.length = 95 := by cases f <;> rfl
  have hq : '?'.toNat = 0x3F := rfl
  rw [hlen, glyphIndex, hq]
  split <;> omega

/-- Every glyph has one row for each pixel of the cell height. -/
theorem length_glyph (f : Font) (ch : Char) : (f.glyph ch).length = f.height := by
  have hrows : ∀ g ∈ f.table, g.length = f.height := by cases f <;> decide
  rw [glyph, List.getElem?_eq_getElem (glyphIndex_lt f ch)]
  exact hrows _ (List.getElem_mem _)

end Font

end Render
end SniLua
