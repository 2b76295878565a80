import PageSvg.Canvas.Color
import PageSvg.Canvas.Form
import PageSvg.Canvas.Text

/-!
# Performing operators

What each operator does to the canvas, given the arguments of the shape it was called with. A name
that no resource has makes the operator that uses it do nothing.
-/

namespace PageSvg

variable {α : Type} [Scalar α]

namespace Arguments

/-- The point whose coordinates begin at a place. -/
def point (args : Arguments α) (i : Nat) : α × α := (args.number i, args.number (i + 1))

/-- The matrix of the first six numbers. -/
def matrix (args : Arguments α) : Matrix α :=
  ⟨args.number 0, args.number 1, args.number 2, args.number 3, args.number 4, args.number 5⟩

end Arguments

/-- Paints the path and begins a new one. The path then cuts the clip region, if that was asked
for. -/
def paintPath (env : Environment α) (mode : PaintMode) : Draw α Unit := do
  if mode.closes then modify Canvas.closePath
  let k := (← get).context
  modify (·.mapContext fun k => { k with path := [], pendingClip := none })
  if (mode.strokes || mode.fills) && !k.path.isEmpty then
    modify (·.flushText env.options)
    drawPath env k.path mode
  match k.pendingClip with
  | none => return
  | some evenOdd => modify fun c => c.clipTo (Path.transform c.graphics.ctm k.path) evenOdd

namespace Canvas

/-- Moves to the next line and makes the distance downwards the leading. -/
def moveLineSettingLeading (c : Canvas α) (x y : α) : Canvas α :=
  (c.mapText fun t => { t with leading := -y }).moveLine x y

/-- Begins a marked sequence. -/
def beginMarked : Canvas α → Canvas α :=
  mapContext fun k => { k with markedDepth := k.markedDepth + 1 }

/-- Ends a marked sequence; without one it does nothing. -/
def endMarked : Canvas α → Canvas α :=
  mapContext fun k => { k with markedDepth := k.markedDepth - 1 }

end Canvas

/-- Applies the graphics parameters of a name. -/
def applyParameters (env : Environment α) (name : String) : Draw α Unit := do
  match (env.resources (← get)).parameters.get? name with
  | some p => p.apply env
  | none => return

/-- Draws the external object of a name. -/
def drawXObject (env : Environment α) (name : String) : Draw α Unit := do
  match (env.resources (← get)).xobjects.get? name with
  | some x => x.draw env
  | none => return

/-- Paints the shading of a name. -/
def drawShading (env : Environment α) (name : String) : Draw α Unit := do
  match (env.resources (← get)).shadings.get? name with
  | some s => modify fun c => c.paintShading env.toSetting s
  | none => return

namespace Operator

/-- Performs an operator. -/
def perform (env : Environment α) (args : Arguments α) : Operator → Draw α Unit
  | save => modify (·.save)
  | restore => modify (·.restore)
  | transform => modify (·.transform args.matrix)
  | lineWidth => modify (·.setLineWidth (args.number 0))
  | lineCap => modify (·.setLineCap (args.integer 0))
  | lineJoin => modify (·.setLineJoin (args.integer 0))
  | miterLimit => modify (·.setMiterLimit (args.number 0))
  | dash => modify (·.setDash (args.numbers 0) (args.number 1))
  | renderingIntent =>
    modify (·.mapGraphics fun g => { g with renderingIntent := some (args.name 0) })
  | flatness => modify (·.mapGraphics fun g => { g with flatness := args.number 0 })
  | parameters => applyParameters env (args.name 0)
  | moveTo => modify (·.moveTo (args.point 0))
  | lineTo => modify (·.lineTo (args.point 0))
  | curveTo => modify (·.curveTo (args.point 0) (args.point 2) (args.point 4))
  | curveFromCurrent => modify (·.curveFromCurrent (args.point 0) (args.point 2))
  | curveIntoEnd => modify (·.curveTo (args.point 0) (args.point 2) (args.point 2))
  | closePath => modify (·.closePath)
  | rectangle =>
    modify (·.addRectangle (args.number 0) (args.number 1) (args.number 2) (args.number 3))
  | paint mode => paintPath env mode
  | clip evenOdd => modify (·.setPendingClip evenOdd)
  | colorSpace target => modify fun c => c.setColorSpace env target (args.name 0)
  | color target => modify (·.setComponents target (args.numbers 0))
  | pattern target => modify (·.setPattern target (args.name 0) [])
  | colorOrPattern target => modify (·.setColorOrPattern target (args.items 0))
  | gray target => modify (·.setDeviceColor target .deviceGray [args.number 0])
  | rgb target =>
    modify (·.setDeviceColor target .deviceRgb [args.number 0, args.number 1, args.number 2])
  | cmyk target =>
    modify (·.setDeviceColor target .deviceCmyk
      [args.number 0, args.number 1, args.number 2, args.number 3])
  | beginText => modify (·.beginText)
  | endText => modify (·.endText env.options)
  | charSpacing => modify (·.setCharSpacing (args.number 0))
  | wordSpacing => modify (·.setWordSpacing (args.number 0))
  | textScaling => modify (·.setScaling (args.number 0))
  | leading => modify (·.mapText fun t => { t with leading := args.number 0 })
  | font => modify fun c => c.selectFont env (args.name 0) (args.number 1)
  | renderMode => modify (·.setRenderMode (args.integer 0))
  | rise => modify (·.mapText fun t => { t with rise := args.number 0 })
  | moveLine => modify (·.moveLine (args.number 0) (args.number 1))
  | moveLineSettingLeading => modify (·.moveLineSettingLeading (args.number 0) (args.number 1))
  | textMatrix => modify (·.setTextMatrix args.matrix)
  | nextLine => modify (·.nextLine)
  | showText => PageSvg.showText env (args.bytes 0)
  | showAdjusted => PageSvg.showAdjusted env (args.items 0)
  | showOnNextLine => do
    modify (·.nextLine)
    PageSvg.showText env (args.bytes 0)
  | showSpacedOnNextLine => do
    modify fun c => ((c.setWordSpacing (args.number 0)).setCharSpacing (args.number 1)).nextLine
    PageSvg.showText env (args.bytes 2)
  | glyphWidth => return
  | glyphBox => modify (·.mapContext fun k => { k with colorLocked := true })
  | xobject => drawXObject env (args.name 0)
  | shading => drawShading env (args.name 0)
  | inlineImage =>
    match (args.operand? 0).bind Operand.entries? with
    | some entries => drawInlineImage env entries (args.bytes 1)
    | none => return
  | beginMarked => modify (·.beginMarked)
  | endMarked => modify (·.endMarked)
  | markPoint => return
  | compatibility => return

end Operator

end PageSvg
