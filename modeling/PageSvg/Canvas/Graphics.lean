import PageSvg.Canvas.Basic
import PageSvg.Operator.Basic

/-!
# Operators on the graphics state

What the operators without output do to the canvas. The last style of text is forgotten where
something it depends on changes.
-/

namespace PageSvg.Canvas

variable {α : Type} [Scalar α]

/-- Saves the graphics state. -/
def save : Canvas α → Canvas α := mapContext fun k => { k with saved := k.graphics :: k.saved }

/-- Goes back to the last saved state, if there is one. -/
def restore (c : Canvas α) : Canvas α :=
  match c.context.saved with
  | [] => c
  | g :: rest =>
    let c := if g == c.graphics then c else c.dropStyle
    c.mapContext fun k => { k with graphics := g, saved := rest }

/-- Applies a matrix before the current one. -/
def transform (c : Canvas α) (m : Matrix α) : Canvas α :=
  if m.isIdentity then c
  else (c.mapGraphics fun g => { g with ctm := m.multiply g.ctm }).dropStyle

/-- Changes the graphics state and forgets the style of text, unless the value in question is the
same as before. -/
def mapUnless (c : Canvas α) (same : Bool) (f : GraphicsState α → GraphicsState α) : Canvas α :=
  if same then c else (c.mapGraphics f).dropStyle

/-- As `mapUnless`, for the text state. -/
def mapTextUnless (c : Canvas α) (same : Bool) (f : TextState α → TextState α) : Canvas α :=
  if same then c else (c.mapText f).dropStyle

/-- Sets the line width; a negative one counts as its absolute value. -/
def setLineWidth (c : Canvas α) (width : α) : Canvas α :=
  let width := Scalar.abs width
  c.mapUnless (c.graphics.lineWidth == width) fun g => { g with lineWidth := width }

/-- Sets the ends of lines; an unknown code changes nothing. -/
def setLineCap (c : Canvas α) (code : Int64) : Canvas α :=
  match LineCap.ofCode? code with
  | some cap => c.mapGraphics fun g => { g with lineCap := cap }
  | none => c

/-- Sets the corners of lines; an unknown code changes nothing. -/
def setLineJoin (c : Canvas α) (code : Int64) : Canvas α :=
  match LineJoin.ofCode? code with
  | some join => c.mapGraphics fun g => { g with lineJoin := join }
  | none => c

/-- Sets the miter limit. -/
def setMiterLimit (c : Canvas α) (limit : α) : Canvas α :=
  c.mapGraphics fun g => { g with miterLimit := limit }

/-- Sets the dashes. -/
def setDash (c : Canvas α) (array : List α) (phase : α) : Canvas α :=
  c.mapGraphics fun g => { g with dash := ⟨array, phase⟩ }

/-- Sets the opacity of fills. -/
def setFillAlpha (c : Canvas α) (alpha : α) : Canvas α :=
  c.mapUnless (c.graphics.fill.alpha == alpha) fun g =>
    { g with fill := { g.fill with alpha := Scalar.clamp 0 1 alpha } }

/-- Sets the opacity of strokes. -/
def setStrokeAlpha (c : Canvas α) (alpha : α) : Canvas α :=
  c.mapUnless (c.graphics.stroke.alpha == alpha) fun g =>
    { g with stroke := { g.stroke with alpha := Scalar.clamp 0 1 alpha } }

/-- Sets the blend mode by its name. -/
def setBlendMode (c : Canvas α) (name : String) : Canvas α :=
  c.mapGraphics fun g => { g with blendMode := blendModeCss? name }

/-- Sets the mask. -/
def setSoftMask (c : Canvas α) (mask : Option String) : Canvas α :=
  c.mapGraphics fun g => { g with softMask := mask }

/-- Sets the font and its size. A font of the same identity is the same font. -/
def setFont (c : Canvas α) (font : Font α) (size : α) : Canvas α :=
  let same := c.graphics.text.font == some font && c.graphics.text.fontSize == size
  c.mapTextUnless same fun t => { t with font := some font, fontSize := size }

/-- Sets the spacing between characters. -/
def setCharSpacing (c : Canvas α) (spacing : α) : Canvas α :=
  c.mapTextUnless (c.graphics.text.charSpacing == spacing) fun t => { t with charSpacing := spacing }

/-- Sets the spacing between words. -/
def setWordSpacing (c : Canvas α) (spacing : α) : Canvas α :=
  c.mapText fun t => { t with wordSpacing := spacing }

/-- Sets the horizontal scaling. -/
def setScaling (c : Canvas α) (scaling : α) : Canvas α :=
  c.mapTextUnless (c.graphics.text.scaling == scaling) fun t => { t with scaling := scaling }

/-- Sets the render mode; an unknown code changes nothing. -/
def setRenderMode (c : Canvas α) (code : Int64) : Canvas α :=
  match RenderMode.ofCode? code with
  | some mode => c.mapTextUnless (c.graphics.text.mode == mode) fun t => { t with mode := mode }
  | none => c

/-- Moves to the next line, from the start of the current one. -/
def moveLine (c : Canvas α) (x y : α) : Canvas α :=
  c.mapText fun t =>
    let m := (Matrix.shift x y).multiply t.lineMatrix
    { t with lineMatrix := m, matrix := m }

/-- Moves to the next line by the leading. -/
def nextLine (c : Canvas α) : Canvas α := c.moveLine 0 (-c.graphics.text.leading)

/-- Sets the matrix of the text and of the line. -/
def setTextMatrix (c : Canvas α) (m : Matrix α) : Canvas α :=
  c.mapText fun t => { t with matrix := m, lineMatrix := m }

/-- Moves along the line. -/
def advance (c : Canvas α) (x : α) : Canvas α :=
  c.mapText fun t => { t with matrix := (Matrix.shift x 0).multiply t.matrix }

/-- Begins a text object at the origin. -/
def beginText (c : Canvas α) : Canvas α :=
  (c.mapContext fun k => { k with inText := true }).setTextMatrix .identity

/-- Changes the path. -/
def mapPath (f : Path α → Path α) : Canvas α → Canvas α :=
  mapContext fun k => { k with path := f k.path }

/-- Begins a subpath. -/
def moveTo (p : α × α) : Canvas α → Canvas α := mapPath (· ++ [.move p])

/-- Adds a line; without a current point it only moves there. -/
def lineTo (p : α × α) : Canvas α → Canvas α :=
  mapPath fun path => path ++ if path.isEmpty then [.move p] else [.line p]

/-- Adds a curve; without a current point it begins at its first control point. -/
def curveTo (p q r : α × α) : Canvas α → Canvas α :=
  mapPath fun path => path ++ if path.isEmpty then [.move p, .curve p q r] else [.curve p q r]

/-- Adds a curve whose first control point is the current point, if there is one. -/
def curveFromCurrent (q r : α × α) : Canvas α → Canvas α :=
  mapPath fun path =>
    match Path.currentPoint? path with
    | some p => path ++ [.curve p q r]
    | none => path

/-- Closes the subpath, if there is one. -/
def closePath : Canvas α → Canvas α :=
  mapPath fun path => if path.isEmpty then path else path ++ [.close]

/-- Adds a rectangle. -/
def addRectangle (x y width height : α) : Canvas α → Canvas α :=
  mapPath (· ++ Path.rectangle x y width height)

/-- Clips to the path once it is painted. -/
def setPendingClip (evenOdd : Bool) : Canvas α → Canvas α :=
  mapContext fun k => { k with pendingClip := some evenOdd }

/-- Cuts the clip region by a path in device space. -/
def clipTo (c : Canvas α) (device : Path α) (evenOdd : Bool) : Canvas α :=
  let (region, clips) := c.clips.insertPath c.graphics.clip device evenOdd
  { c with clips }.mapGraphics fun g => { g with clip := some region }

/-- Cuts the clip region by the outlines of text. -/
def clipToText (c : Canvas α) (nodes : List Node) : Canvas α :=
  let (region, clips) := c.clips.insertText c.graphics.clip nodes
  { c with clips }.mapGraphics fun g => { g with clip := some region }

end PageSvg.Canvas
