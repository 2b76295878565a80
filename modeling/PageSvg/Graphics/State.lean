import PageSvg.Resource.Basic

/-!
# Graphics state

What determines how the next mark is made: the current matrix, the paints, the line style, the
effects, the clip region, and the state of text.
-/

namespace PageSvg

/-- How a surface or a line is coloured. -/
structure Paint (α : Type) where
  rgb : Rgb α
  space : ColorSpace α
  /-- The components of the colour in its space. -/
  components : List α
  /-- The name of the pattern in place of a plain colour. -/
  pattern : Option String
  alpha : α
  deriving BEq

/-- Opaque black. -/
def Paint.standard {α : Type} [Scalar α] : Paint α := ⟨.black, .deviceGray, [0], none, 1⟩

/-- The ends of lines. -/
inductive LineCap
  | butt
  | round
  | square
  deriving DecidableEq, Repr

namespace LineCap

/-- The cap of a code. -/
def ofCode? (code : Int64) : Option LineCap :=
  if code = 0 then some butt else if code = 1 then some round else if code = 2 then some square
  else none

/-- The name in style sheets. -/
def css : LineCap → String
  | butt => "butt"
  | round => "round"
  | square => "square"

end LineCap

/-- The corners of lines. -/
inductive LineJoin
  | miter
  | round
  | bevel
  deriving DecidableEq, Repr

namespace LineJoin

/-- The join of a code. -/
def ofCode? (code : Int64) : Option LineJoin :=
  if code = 0 then some miter else if code = 1 then some round else if code = 2 then some bevel
  else none

/-- The name in style sheets. -/
def css : LineJoin → String
  | miter => "miter"
  | round => "round"
  | bevel => "bevel"

end LineJoin

/-- Lengths of dashes and gaps, and where in them a line begins. -/
structure Dash (α : Type) where
  array : List α
  phase : α
  deriving BEq

/-- Is the line not interrupted? -/
def Dash.isSolid {α : Type} [Scalar α] (d : Dash α) : Bool := d.array.all (· == 0)

/-- What showing text does with the outlines of its glyphs. -/
inductive RenderMode
  | fill
  | stroke
  | fillStroke
  | invisible
  | fillClip
  | strokeClip
  | fillStrokeClip
  | clip
  deriving DecidableEq, Repr

namespace RenderMode

/-- The mode of a code. -/
def ofCode? (code : Int64) : Option RenderMode :=
  if code < 0 then none
  else
    [fill, stroke, fillStroke, invisible, fillClip, strokeClip, fillStrokeClip,
      RenderMode.clip][code.toInt.toNat]?

/-- Are the outlines filled? -/
def fills : RenderMode → Bool
  | fill | fillStroke | fillClip | fillStrokeClip => true
  | _ => false

/-- Are the outlines stroked? -/
def strokes : RenderMode → Bool
  | stroke | fillStroke | strokeClip | fillStrokeClip => true
  | _ => false

/-- Do the outlines become part of the clip region? -/
def clips : RenderMode → Bool
  | fillClip | strokeClip | fillStrokeClip | clip => true
  | _ => false

/-- Neither filled nor stroked. -/
def isInvisible (m : RenderMode) : Bool := !m.fills && !m.strokes

end RenderMode

/-- The state of text. -/
structure TextState (α : Type) where
  matrix : Matrix α
  /-- The start of the current line. -/
  lineMatrix : Matrix α
  leading : α
  font : Option (Font α)
  fontName : Option String
  fontSize : α
  charSpacing : α
  wordSpacing : α
  /-- Horizontal scaling in per cent. -/
  scaling : α
  rise : α
  mode : RenderMode
  deriving BEq

/-- Text as it is at the start of a page. -/
def TextState.standard {α : Type} [Scalar α] : TextState α where
  matrix := .identity
  lineMatrix := .identity
  leading := 0
  font := none
  fontName := none
  fontSize := 0
  charSpacing := 0
  wordSpacing := 0
  scaling := 100
  rise := 0
  mode := .fill

/-- The state in which content is drawn. -/
structure GraphicsState (α : Type) where
  ctm : Matrix α
  fill : Paint α
  stroke : Paint α
  /-- In user space. -/
  lineWidth : α
  lineCap : LineCap
  lineJoin : LineJoin
  miterLimit : α
  dash : Dash α
  /-- The blend mode in style sheets; `none` is the normal mode. -/
  blendMode : Option String
  /-- The definition of the mask in force. -/
  softMask : Option String
  /-- The clip region in force. -/
  clip : Option Nat
  renderingIntent : Option String
  flatness : α
  text : TextState α
  deriving BEq

/-- The state in which content under a matrix begins. -/
def GraphicsState.initial {α : Type} [Scalar α] (ctm : Matrix α) : GraphicsState α where
  ctm := ctm
  fill := .standard
  stroke := .standard
  lineWidth := 1
  lineCap := .butt
  lineJoin := .miter
  miterLimit := 10
  dash := ⟨[], 0⟩
  blendMode := none
  softMask := none
  clip := none
  renderingIntent := none
  flatness := 1
  text := .standard

end PageSvg
