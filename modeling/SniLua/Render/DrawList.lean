/-
  SniLua.Render.DrawList

  The commands scripts emit and the painter consumes.  `F` stands for `f32`: a
  command only carries its numbers.
-/

import SniLua.Render.Color
import SniLua.Render.Text

namespace SniLua
namespace Render

structure ShadowSpec (F : Type) where
  dx : F
  dy : F
  blur : F
  spread : F
  color : Color
deriving DecidableEq

inductive PathPrimitive (F : Type) where
  | rect (x y w h : F)
  | roundRect (x y w h radius : F)
  | circle (x y radius : F)
deriving DecidableEq

inductive DrawCmd (F : Type) where
  | text (x y : F) (text : String) (color : Color) (scale : F) (font : Font)
      (bg outline : Option Color) (align : TextAlign) (valign : TextVAlign)
  /-- Without a `fill` only the outline is drawn. -/
  | rect (x y w h : F) (color : Color) (fill : Option Color) (thickness : F)
      (shadow : Option (ShadowSpec F))
  | roundRect (x y w h radius : F) (color : Color) (fill : Option Color) (thickness : F)
      (shadow : Option (ShadowSpec F))
  | line (x1 y1 x2 y2 : F) (color : Color) (thickness : F)
  | pixel (x y : F) (color : Color)
  | circle (x y radius : F) (color : Color) (fill : Option Color) (thickness : F)
  | triangle (x1 y1 x2 y2 x3 y3 : F) (color : Color) (fill : Option Color) (thickness : F)
  | poly (points : List (F × F)) (closed : Bool) (color : Color) (fill : Option Color)
      (thickness : F)
  | gradientLine (x1 y1 x2 y2 : F) (start stop : Color) (thickness : F)
  | gradientRect (x y w h radius : F) (start stop : Color) (vertical : Bool)
      (shadow : Option (ShadowSpec F))
  /-- One shape, the union of `shapes`. -/
  | path (shapes : List (PathPrimitive F)) (color fill : Option Color) (thickness : F)
  | arc (x y radius startDeg endDeg : F) (color : Color) (fill : Option Color) (thickness : F)
deriving DecidableEq

/-- One frame's worth of draw commands. -/
abbrev DrawList (F : Type) := List (DrawCmd F)

section Translate

variable {F : Type} [Add F]

/-- A shape, moved. -/
def PathPrimitive.translate (d : F × F) : PathPrimitive F → PathPrimitive F
  | .rect x y w h => .rect (x + d.1) (y + d.2) w h
  | .roundRect x y w h radius => .roundRect (x + d.1) (y + d.2) w h radius
  | .circle x y radius => .circle (x + d.1) (y + d.2) radius

/-- A command, moved. -/
def DrawCmd.translate (d : F × F) : DrawCmd F → DrawCmd F
  | .text x y str color scale font bg outline align valign =>
      .text (x + d.1) (y + d.2) str color scale font bg outline align valign
  | .rect x y w h color fill thickness shadow =>
      .rect (x + d.1) (y + d.2) w h color fill thickness shadow
  | .roundRect x y w h radius color fill thickness shadow =>
      .roundRect (x + d.1) (y + d.2) w h radius color fill thickness shadow
  | .line x1 y1 x2 y2 color thickness =>
      .line (x1 + d.1) (y1 + d.2) (x2 + d.1) (y2 + d.2) color thickness
  | .pixel x y color => .pixel (x + d.1) (y + d.2) color
  | .circle x y radius color fill thickness =>
      .circle (x + d.1) (y + d.2) radius color fill thickness
  | .triangle x1 y1 x2 y2 x3 y3 color fill thickness =>
      .triangle (x1 + d.1) (y1 + d.2) (x2 + d.1) (y2 + d.2) (x3 + d.1) (y3 + d.2) color fill
        thickness
  | .poly points closed color fill thickness =>
      .poly (points.map (· + d)) closed color fill thickness
  | .gradientLine x1 y1 x2 y2 start stop thickness =>
      .gradientLine (x1 + d.1) (y1 + d.2) (x2 + d.1) (y2 + d.2) start stop thickness
  | .gradientRect x y w h radius start stop vertical shadow =>
      .gradientRect (x + d.1) (y + d.2) w h radius start stop vertical shadow
  | .path shapes color fill thickness =>
      .path (shapes.map (·.translate d)) color fill thickness
  | .arc x y radius startDeg endDeg color fill thickness =>
      .arc (x + d.1) (y + d.2) radius startDeg endDeg color fill thickness

end Translate

end Render
end SniLua
