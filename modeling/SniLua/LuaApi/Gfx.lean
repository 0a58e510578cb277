/-
  SniLua.LuaApi.Gfx

  The `gfx.*` bindings that draw: what each call does to the frame's draw list, to
  the font, to the stack of origins and to the path being built.

  A call gets its arguments as mlua hands them over.  Of a table it gets the fields
  the binding reads, `none` for one that could not be read as its type.  `F` stands
  for `f32`.
-/

import SniLua.Render.DrawList

namespace SniLua
namespace LuaApi

open Render

variable {F : Type}

-- ============================================================================
-- Options
-- ============================================================================

section Options

variable [Zero F] [One F] [OfNat F 8] [LT F] [DecidableLT F]

/-- `x.max(0.0)`; a NaN gives zero. -/
def max0 (x : F) : F := if 0 < x then x else 0

/-- Resolve an optional packed colour. -/
def argb (c : Option UInt32) (default : UInt32) : Color := Color.fromArgb (c.getD default)

/-- The last argument of `gfx.text`. -/
inductive TextOptsArg (F : Type) where
  | number (n : F)
  | table (scale : Option F) (bg outline : Option UInt32) (align valign : Option String)
  | other

structure TextOpts (F : Type) where
  scale : F
  bg : Option Color
  outline : Option Color
  align : TextAlign
  valign : TextVAlign

/-- `TextOpts::default`. -/
def TextOpts.default : TextOpts F where
  scale := 1
  bg := none
  outline := none
  align := .left
  valign := .top

def parseTextAlign : String → Except String TextAlign
  | "left" => .ok .left
  | "center" | "centre" => .ok .center
  | "right" => .ok .right
  | _ => .error "gfx.text align must be \"left\", \"center\", or \"right\""

def parseTextValign : String → Except String TextVAlign
  | "top" => .ok .top
  | "middle" | "center" | "centre" => .ok .middle
  | "bottom" => .ok .bottom
  | _ => .error "gfx.text valign must be \"top\", \"middle\", or \"bottom\""

def parseTextOpts : TextOptsArg F → Except String (TextOpts F)
  | .number n => .ok { (TextOpts.default : TextOpts F) with scale := n }
  | .table scale bg outline align valign => do
      let align ← match align with
        | some name => parseTextAlign name
        | none => .ok .left
      let valign ← match valign with
        | some name => parseTextValign name
        | none => .ok .top
      return {
        scale := match scale with
          | some s => if 0 < s then s else 1
          | none => 1
        bg := bg.map Color.fromArgb
        outline := outline.map Color.fromArgb
        align
        valign }
  | .other => .ok .default

/-- The `shadow` field of an options table. -/
inductive ShadowArg (F : Type) where
  | nil
  | boolean (b : Bool)
  | table (dx dy blur spread : Option F) (color : Option UInt32)
  | other

structure LuaShadow (F : Type) where
  dx : F
  dy : F
  blur : F
  spread : F
  color : Option UInt32

/-- `LuaShadow::default`. -/
def LuaShadow.default : LuaShadow F where
  dx := 0
  dy := 0
  blur := 0
  spread := 0
  color := none

def parseShadowValue : ShadowArg F → Except String (Option (LuaShadow F))
  | .nil | .boolean false => .ok none
  | .boolean true => .ok (some { (LuaShadow.default : LuaShadow F) with blur := 8 })
  | .table dx dy blur spread color =>
      .ok (some {
        dx := dx.getD 0
        dy := dy.getD 0
        blur := (blur.map max0).getD 0
        spread := spread.getD 0
        color })
  | .other => .error "shadow must be nil, false, true, or a table"

/-- The options of a shape: its `shadow`, where there is a table and it has one. -/
abbrev ShapeOpts (F : Type) := Option (ShadowArg F)

def parseShapeShadow : ShapeOpts F → Except String (Option (LuaShadow F))
  | some v => parseShadowValue v
  | none => .ok none

def resolveShadow (spec : Option (LuaShadow F)) (fallbackColor : Color) :
    Option (ShadowSpec F) :=
  spec.map fun shadow =>
    { dx := shadow.dx, dy := shadow.dy, blur := max0 shadow.blur, spread := shadow.spread
      color := (shadow.color.map Color.fromArgb).getD fallbackColor }

/-- The options table of `gfx.gradient_rect`. -/
structure GradientRectArg (F : Type) where
  vertical : Option Bool
  dir : Option String
  radius : Option F
  shadow : ShapeOpts F

structure GradientRectOpts (F : Type) where
  vertical : Bool
  radius : F
  shadow : Option (LuaShadow F)

def parseDir : String → Except String Bool
  | "vertical" | "v" | "y" => .ok true
  | "horizontal" | "h" | "x" => .ok false
  | _ => .error "gfx.gradient_rect dir must be \"horizontal\" or \"vertical\""

/-- `dir` goes before `vertical`. -/
def parseGradientRectOpts : Option (GradientRectArg F) → Except String (GradientRectOpts F)
  | none => .ok { vertical := false, radius := 0, shadow := none }
  | some opts => do
      let vertical ← match opts.dir with
        | some dir => parseDir dir
        | none => .ok (opts.vertical.getD false)
      let shadow ← parseShapeShadow opts.shadow
      return { vertical, radius := (opts.radius.map max0).getD 0, shadow }

end Options

-- ============================================================================
-- Draw state
-- ============================================================================

/-- What a call draws with. -/
structure Pen (F : Type) where
  currentFont : Font
  /-- The current origin is the last entry. -/
  originStack : List (F × F)
  pathBuilder : List (PathPrimitive F)

/-- The pen of a new frame. -/
def Pen.default : Pen F := { currentFont := .small, originStack := [], pathBuilder := [] }

/-- The current translate, `(0, 0)` if there is none. -/
def Pen.offset [Zero F] (pen : Pen F) : F × F := pen.originStack.getLast?.getD (0, 0)

/-- The state behind `gfx.*`. -/
structure GfxState (F : Type) where
  draw : DrawList F
  pen : Pen F

/-- Nothing drawn yet. -/
def GfxState.fresh : GfxState F := { draw := [], pen := .default }

def GfxState.push (s : GfxState F) (cmd : DrawCmd F) : GfxState F :=
  { s with draw := s.draw ++ [cmd] }

/-- The command of a binding that checks its options; an error draws nothing. -/
def GfxState.tryPush (s : GfxState F) (cmd : Except String (DrawCmd F)) : GfxState F :=
  match cmd with
  | .ok cmd => s.push cmd
  | .error _ => s

@[simp] theorem GfxState.push_eq (s : GfxState F) (cmd : DrawCmd F) :
    s.push cmd = { draw := s.draw ++ [cmd], pen := s.pen } := rfl

@[simp] theorem GfxState.tryPush_eq (s : GfxState F) (cmd : Except String (DrawCmd F)) :
    s.tryPush cmd = { draw := s.draw ++ cmd.toOption.toList, pen := s.pen } := by
  cases cmd with
  | error e => simp [tryPush, Except.toOption]
  | ok cmd => simp [tryPush, Except.toOption]

def GfxState.pushShape (s : GfxState F) (shape : PathPrimitive F) : GfxState F :=
  { s with pen := { s.pen with pathBuilder := s.pen.pathBuilder ++ [shape] } }

-- ============================================================================
-- Calls
-- ============================================================================

inductive GfxCall (F : Type) where
  | text (x y : F) (str : String) (color : Option UInt32) (opts : TextOptsArg F)
  | pushOrigin (x y : F)
  | popOrigin
  | font (name : String)
  | box (x y w h : F) (color fill : Option UInt32) (thickness : Option F) (opts : ShapeOpts F)
  | roundRect (x y w h radius : F) (color fill : Option UInt32) (thickness : Option F)
      (opts : ShapeOpts F)
  | gradientRect (x y w h : F) (start stop : UInt32) (opts : Option (GradientRectArg F))
  | line (x1 y1 x2 y2 : F) (color : Option UInt32) (thickness : Option F)
  | gradientLine (x1 y1 x2 y2 : F) (start stop : UInt32) (thickness : Option F)
  | pixel (x y : F) (color : Option UInt32)
  | circle (x y radius : F) (color fill : Option UInt32) (thickness : Option F)
  | triangle (x1 y1 x2 y2 x3 y3 : F) (color fill : Option UInt32) (thickness : Option F)
  /-- `none` stands for a point that could not be read. -/
  | poly (points : List (Option (F × F))) (color fill : Option UInt32) (thickness : Option F)
      (closed : Option Bool)
  | beginPath
  | pathRect (x y w h : F)
  | pathRoundRect (x y w h radius : F)
  | pathCircle (x y radius : F)
  | fillPath (fill : UInt32) (color : Option UInt32) (thickness : Option F)
  | strokePath (color : Option UInt32) (thickness : Option F)
  | arc (x y radius startDeg endDeg : F) (color fill : Option UInt32) (thickness : Option F)

section Run

variable [Add F] [Zero F] [One F] [OfNat F 8] [LT F] [DecidableLT F]

/-- What a call does. -/
def GfxCall.run (s : GfxState F) : GfxCall F → GfxState F
  | .text x y str color opts =>
      let (ox, oy) := s.pen.offset
      s.tryPush (do
        let opts ← parseTextOpts opts
        return .text (x + ox) (y + oy) str (argb color 0xFFFFFFFF) opts.scale s.pen.currentFont
          opts.bg opts.outline opts.align opts.valign)
  | .pushOrigin x y =>
      let (px, py) := s.pen.offset
      { s with pen := { s.pen with originStack := s.pen.originStack ++ [(px + x, py + y)] } }
  | .popOrigin => { s with pen := { s.pen with originStack := s.pen.originStack.dropLast } }
  | .font name => { s with pen := { s.pen with currentFont := Font.parse name } }
  | .box x y w h color fill thickness opts =>
      let (ox, oy) := s.pen.offset
      let color := argb color 0xFF00FF00
      let fill := fill.map Color.fromArgb
      s.tryPush (do
        let shadow ← parseShapeShadow opts
        return .rect (x + ox) (y + oy) w h color fill (thickness.getD 1)
          (resolveShadow shadow (fill.getD color)))
  | .roundRect x y w h radius color fill thickness opts =>
      let (ox, oy) := s.pen.offset
      let color := argb color 0xFF00FF00
      let fill := fill.map Color.fromArgb
      s.tryPush (do
        let shadow ← parseShapeShadow opts
        return .roundRect (x + ox) (y + oy) w h (max0 radius) color fill (thickness.getD 1)
          (resolveShadow shadow (fill.getD color)))
  | .gradientRect x y w h start stop opts =>
      let (ox, oy) := s.pen.offset
      let start := Color.fromArgb start
      s.tryPush (do
        let opts ← parseGradientRectOpts opts
        return .gradientRect (x + ox) (y + oy) w h opts.radius start (Color.fromArgb stop)
          opts.vertical (resolveShadow opts.shadow start))
  | .line x1 y1 x2 y2 color thickness =>
      let (ox, oy) := s.pen.offset
      s.push (.line (x1 + ox) (y1 + oy) (x2 + ox) (y2 + oy) (argb color 0xFFFFFFFF)
        (thickness.getD 1))
  | .gradientLine x1 y1 x2 y2 start stop thickness =>
      let (ox, oy) := s.pen.offset
      s.push (.gradientLine (x1 + ox) (y1 + oy) (x2 + ox) (y2 + oy) (Color.fromArgb start)
        (Color.fromArgb stop) (thickness.getD 1))
  | .pixel x y color =>
      let (ox, oy) := s.pen.offset
      s.push (.pixel (x + ox) (y + oy) (argb color 0xFFFFFFFF))
  | .circle x y radius color fill thickness =>
      let (ox, oy) := s.pen.offset
      s.push (.circle (x + ox) (y + oy) radius (argb color 0xFF00FF00)
        (fill.map Color.fromArgb) (thickness.getD 1))
  | .triangle x1 y1 x2 y2 x3 y3 color fill thickness =>
      let (ox, oy) := s.pen.offset
      s.push (.triangle (x1 + ox) (y1 + oy) (x2 + ox) (y2 + oy) (x3 + ox) (y3 + oy)
        (argb color 0xFF00FF00) (fill.map Color.fromArgb) (thickness.getD 1))
  | .poly points color fill thickness closed =>
      let (ox, oy) := s.pen.offset
      match points.mapM id with
      | some points =>
          s.push (.poly (points.map fun (px, py) => (px + ox, py + oy)) (closed.getD true)
            (argb color 0xFF00FF00) (fill.map Color.fromArgb) (thickness.getD 1))
      | none => s
  | .beginPath => { s with pen := { s.pen with pathBuilder := [] } }
  | .pathRect x y w h =>
      let (ox, oy) := s.pen.offset
      s.pushShape (.rect (x + ox) (y + oy) w h)
  | .pathRoundRect x y w h radius =>
      let (ox, oy) := s.pen.offset
      s.pushShape (.roundRect (x + ox) (y + oy) w h (max0 radius))
  | .pathCircle x y radius =>
      let (ox, oy) := s.pen.offset
      s.pushShape (.circle (x + ox) (y + oy) radius)
  | .fillPath fill color thickness =>
      if s.pen.pathBuilder.isEmpty then s
      else s.push (.path s.pen.pathBuilder (color.map Color.fromArgb) (some (Color.fromArgb fill))
        (thickness.getD 1))
  | .strokePath color thickness =>
      if s.pen.pathBuilder.isEmpty then s
      else s.push (.path s.pen.pathBuilder (some (argb color 0xFF00FF00)) none (thickness.getD 1))
  | .arc x y radius startDeg endDeg color fill thickness =>
      let (ox, oy) := s.pen.offset
      s.push (.arc (x + ox) (y + oy) radius startDeg endDeg (argb color 0xFF00FF00)
        (fill.map Color.fromArgb) (thickness.getD 1))

-- ============================================================================
-- What a call emits
-- ============================================================================

/-- The pen after a call. -/
def GfxCall.moves (pen : Pen F) (c : GfxCall F) : Pen F := (c.run { draw := [], pen }).pen

/-- The commands a call emits. -/
def GfxCall.emits (pen : Pen F) (c : GfxCall F) : DrawList F := (c.run { draw := [], pen }).draw

/-- The commands a list of calls emits, each with the pen the calls before it left. -/
def emitted (pen : Pen F) : List (GfxCall F) → DrawList F
  | [] => []
  | c :: calls => c.emits pen ++ emitted (c.moves pen) calls

/-- A call adds what it emits to whatever is drawn already. -/
theorem GfxCall.run_eq (s : GfxState F) (c : GfxCall F) :
    c.run s = { draw := s.draw ++ c.emits s.pen, pen := c.moves s.pen } := by
  cases c with
  | poly points color fill thickness closed =>
      simp only [GfxCall.run, GfxCall.emits, GfxCall.moves]
      split <;> simp
  | fillPath fill color thickness =>
      simp only [GfxCall.run, GfxCall.emits, GfxCall.moves]
      split <;> simp
  | strokePath color thickness =>
      simp only [GfxCall.run, GfxCall.emits, GfxCall.moves]
      split <;> simp
  | _ => simp [GfxCall.run, GfxCall.emits, GfxCall.moves, GfxState.pushShape]

/-- The pen after a list of calls. -/
def moved (pen : Pen F) (calls : List (GfxCall F)) : Pen F := calls.foldl (fun p c => c.moves p) pen

theorem moved_append (pen : Pen F) (a b : List (GfxCall F)) :
    moved pen (a ++ b) = moved (moved pen a) b := List.foldl_append

theorem emitted_append (pen : Pen F) (a b : List (GfxCall F)) :
    emitted pen (a ++ b) = emitted pen a ++ emitted (moved pen a) b := by
  induction a generalizing pen with
  | nil => rfl
  | cons c a ih =>
      rw [List.cons_append, emitted, emitted, ih, List.append_assoc]
      rfl

end Run

end LuaApi
end SniLua
