import PageSvg.Canvas.Basic
import PageSvg.Operator.Basic

/-!
# Operators on colours

While the colour lock is on, colours stay as they are. Components whose number does not fit the
colour space change nothing.
-/

namespace PageSvg

variable {α : Type} [Scalar α]

namespace GraphicsState

/-- The paint for strokes or fills. -/
def paint (g : GraphicsState α) : PaintTarget → Paint α
  | .stroke => g.stroke
  | .fill => g.fill

/-- Replaces the paint for strokes or fills. -/
def setPaint (g : GraphicsState α) (target : PaintTarget) (p : Paint α) : GraphicsState α :=
  match target with
  | .stroke => { g with stroke := p }
  | .fill => { g with fill := p }

end GraphicsState

namespace Canvas

/-- The paint for strokes or fills. -/
def paint (c : Canvas α) (target : PaintTarget) : Paint α := c.graphics.paint target

/-- Replaces the paint for strokes or fills. -/
def setPaint (c : Canvas α) (target : PaintTarget) (p : Paint α) : Canvas α :=
  c.mapGraphics fun g => g.setPaint target p

/-- The colour space of a name: a predefined one, or one of the resources. Pages that share
resources take the one found first. -/
def findColorSpace (env : Environment α) (c : Canvas α) (name : String) :
    Option (ColorSpace α) × Canvas α :=
  match ColorSpace.predefined? name with
  | some space => (some space, c)
  | none =>
    let resources := env.resources c
    let own := resources.colorSpaces.get? name
    match c.cache, resources.key? .colorSpace name with
    | some cache, some key =>
      let (space, cache) := cache.colorSpace key own
      (space, { c with cache := some cache })
    | _, _ => (own, c)

/-- Selects a colour space with its initial colour; an unknown name means grey. -/
def setColorSpace (env : Environment α) (c : Canvas α) (target : PaintTarget) (name : String) :
    Canvas α :=
  if c.context.colorLocked then c
  else
    let (space, c) := c.findColorSpace env name
    let space := space.getD .deviceGray
    let paint : Paint α :=
      { c.paint target with
        rgb := space.initialRgb
        components := List.replicate space.components 0
        space := space
        pattern := none }
    (c.setPaint target paint).dropStyle

/-- Sets a colour by its components in the space in force. -/
def setComponents (c : Canvas α) (target : PaintTarget) (components : List α) : Canvas α :=
  if c.context.colorLocked then c
  else
    let p := c.paint target
    match p.space.toRgb? components with
    | none => c
    | some rgb =>
      if p.rgb == rgb && p.pattern.isNone && p.components == components then c
      else (c.setPaint target { p with rgb, components, pattern := none }).dropStyle

/-- Sets a colour of a device space. -/
def setDeviceColor (c : Canvas α) (target : PaintTarget) (space : ColorSpace α)
    (components : List α) : Canvas α :=
  if c.context.colorLocked then c
  else (c.setPaint target { c.paint target with space }).setComponents target components

/-- The colour that components give a pattern in a space; none without components. -/
def patternRgb (p : Paint α) (space : ColorSpace α) (components : List α) : Rgb α :=
  if components.isEmpty then p.rgb else (space.toRgb? components).getD p.rgb

/-- Selects a pattern, with the components of a colour for one that has none of its own. -/
def setPattern (c : Canvas α) (target : PaintTarget) (name : String) (components : List α) :
    Canvas α :=
  if c.context.colorLocked then c
  else
    let p := c.paint target
    let space := if p.space.isPattern then p.space else .pattern
    let paint : Paint α :=
      { p with space, components, pattern := some name, rgb := patternRgb p space components }
    (c.setPaint target paint).dropStyle

/-- Selects a pattern if the last operand is a name, and a colour if all are numbers. -/
def setColorOrPattern (c : Canvas α) (target : PaintTarget) (operands : List (Operand α)) :
    Canvas α :=
  let components := operands.filterMap Operand.number?
  match operands.getLast?.bind Operand.name? with
  | some name => c.setPattern target name components
  | none =>
    if components.length = operands.length then c.setComponents target components else c

end Canvas

end PageSvg
