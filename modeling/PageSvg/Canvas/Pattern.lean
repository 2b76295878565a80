import PageSvg.Canvas.Emission

/-!
# Patterns

Shadings become gradients, and the cell of a tiling is drawn once into a pattern element. Patterns
are anchored to the page, not to the matrix in force. A pattern that has no such form is painted
in one colour.
-/

namespace PageSvg

variable {α : Type} [Scalar α]

/-- What a pattern paints with. -/
inductive PatternPaint (α : Type)
  /-- A gradient or pattern element. -/
  | definition (id : String)
  /-- One colour in its place. -/
  | solid (rgb : Rgb α)

/-- The value of a paint attribute. -/
def PatternPaint.css : PatternPaint α → String
  | definition id => Node.reference id
  | solid rgb => rgb.css

namespace Shading

/-- The stops of a gradient. -/
def stopNodes (o : Options α) (s : Shading α) : List Node :=
  s.stops.map fun stop =>
    { tag := "stop"
      attrs := [("offset", o.text (Scalar.clamp 0 1 stop.offset)), ("stop-color", stop.color.css)] }

/-- The element and the coordinates of a gradient; nothing for other shadings. -/
def geometry? (o : Options α) : ShadingKind α → Option (String × List (String × String))
  | .axial start stop _ =>
    some ("linearGradient",
      [("x1", o.text start.1), ("y1", o.text start.2), ("x2", o.text stop.1),
        ("y2", o.text stop.2)])
  | .radial start startRadius stop stopRadius _ =>
    some ("radialGradient",
      [("fx", o.text start.1), ("fy", o.text start.2), ("fr", o.text startRadius),
        ("cx", o.text stop.1), ("cy", o.text stop.2), ("r", o.text stopRadius)])
  | .other => none

/-- The gradient of a shading whose space a matrix maps; nothing where no gradient expresses it. -/
def gradient? (o : Options α) (s : Shading α) (m : Matrix α) : Option Node := do
  let (tag, attrs) ← geometry? o s.kind
  if s.stops.isEmpty then none
  return {
    tag := tag
    attrs := attrs ++ [("gradientUnits", "userSpaceOnUse")] ++
      if m.isIdentity then [] else [("gradientTransform", m.text o)]
    children := s.stopNodes o }

end Shading

/-- Adds the gradient of a shading to the definitions. -/
def Canvas.gradient (o : Options α) (c : Canvas α) (s : Shading α) (m : Matrix α) :
    Option String × Canvas α :=
  match s.gradient? o m with
  | none => (none, c)
  | some node =>
    let id := stableId "grad" (s.id ++ "|" ++ node.describe)
    (some id, { c with definitions := c.definitions.insertNew id node })

namespace Tiling

/-- The colour that is part of what a cell is: none if the cell has its own colours. -/
def color (t : Tiling α) (paint : Paint α) : String := if t.uncolored then paint.rgb.css else ""

/-- The state in which a cell is drawn. -/
def cellState (t : Tiling α) (paint : Paint α) : GraphicsState α :=
  let g : GraphicsState α := .initial .identity
  if t.uncolored then
    { g with fill := { g.fill with rgb := paint.rgb }, stroke := { g.stroke with rgb := paint.rgb } }
  else g

/-- The pattern element around a cell. -/
def patternNode (o : Options α) (t : Tiling α) (transform : String) (cell : List Node) : Node where
  tag := "pattern"
  attrs :=
    [("patternUnits", "userSpaceOnUse"), ("x", o.text t.bbox.x1), ("y", o.text t.bbox.y1),
      ("width", o.text (Scalar.abs t.xStep)), ("height", o.text (Scalar.abs t.yStep)),
      ("patternTransform", transform)]
  children := cell

/-- Adds a pattern to the definitions, unless it is there. Nothing comes of a cell without extent,
or of one that cannot be drawn. -/
def define (env : Environment α) (t : Tiling α) (placement : Matrix α) (paint : Paint α) :
    Draw α (Option String) := do
  if t.xStep == 0 || t.yStep == 0 then return none
  let o := env.options
  let transform := placement.text o
  let id := stableId "pat" (t.id ++ "|" ++ transform ++ "|" ++ t.color paint)
  let c ← get
  if c.definitions.contains id then return some id
  let resources := t.resources.getD c.context.resources
  let cell? ← Draw.orNothing
    (Draw.orSkip (env.nested (t.cellState paint) resources t.content t.uncolored))
  match cell? with
  | none => return none
  | some cell =>
    modify fun c =>
      { c with definitions := c.definitions.insertNew id (t.patternNode o transform cell) }
    return some id

end Tiling

namespace Pattern

/-- From pattern space to the user space of the page. -/
def matrix : Pattern α → Matrix α
  | tiling t => t.matrix
  | shading _ m => m

/-- The colour in place of a pattern. -/
def substitute (paint : Paint α) : Pattern α → Rgb α
  | tiling _ => paint.rgb
  | shading s _ => s.average

/-- The definition of a pattern at a place. -/
def define (env : Environment α) (placement : Matrix α) (paint : Paint α) :
    Pattern α → Draw α (Option String)
  | tiling t => t.define env placement paint
  | shading s _ => modifyGet fun c => c.gradient env.options s placement

end Pattern

/-- Where pattern space lies, seen from an element with a transform of its own. -/
def placement? (env : Environment α) (m : Matrix α) : Option (Matrix α) → Option (Matrix α)
  | none => some (m.multiply env.base)
  | some node =>
    match node.invert with
    | .ok inverse => some ((m.multiply env.base).multiply inverse)
    | .error _ => none

/-- What the pattern of a name paints with, on an element that may have a transform. -/
def patternPaint (env : Environment α) (name : String) (paint : Paint α)
    (transform : Option (Matrix α)) : Draw α (PatternPaint α) := do
  match (env.resources (← get)).patterns.get? name with
  | none => return .solid paint.rgb
  | some pattern =>
    let substitute := .solid (pattern.substitute paint)
    match placement? env pattern.matrix transform with
    | none => return substitute
    | some placement =>
      match ← pattern.define env placement paint with
      | some id => return .definition id
      | none => return substitute

/-- The value of a paint attribute on an element that may have a transform. -/
def paintValue (env : Environment α) (paint : Paint α) (transform : Option (Matrix α)) :
    Draw α String := do
  match paint.pattern with
  | none => return paint.rgb.css
  | some name => return (← patternPaint env name paint transform).css

end PageSvg
