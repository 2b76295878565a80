import PageSvg.Canvas.Execution

/-!
# Overlays

Annotations are drawn over the content of a page. The appearance of one is a form, whose box, under
the matrix of the form, is stretched to the rectangle of the annotation.
-/

namespace PageSvg

variable {α : Type} [Scalar α]

/-- An annotation with its appearance. -/
structure Overlay (α : Type) where
  /-- In the user space of the page. -/
  rectangle : Rectangle α
  appearance : Form α
  hidden : Bool

namespace Overlay

/-- The map that stretches a box with extent to a rectangle. -/
def fit (box target : Rectangle α) : Matrix α :=
  ((Matrix.shift (-box.x1) (-box.y1)).multiply
    (.scaling (target.width / box.width) (target.height / box.height))).multiply
    (.shift target.x1 target.y1)

/-- From the space of an appearance with a box to the output. Nothing is drawn where the box has
no extent. -/
def placement? (base : Matrix α) (a : Overlay α) (box : Rectangle α) : Option (Matrix α) := do
  let outer ← Rectangle.bounds? (Path.transform a.appearance.matrix box.toPath)
  if outer.width == 0 || outer.height == 0 then none
  return (a.appearance.matrix.multiply (fit outer a.rectangle)).multiply base

/-- Draws an annotation, unless it is hidden or its appearance has no box. -/
def draw (env : Environment α) (a : Overlay α) : Draw α Unit := do
  if a.hidden then return
  match a.appearance.bbox with
  | none => return
  | some box =>
    match a.placement? env.base box with
    | none => return
    | some ctm =>
      modify (·.flushText env.options)
      let region ← modifyGet fun c => c.formRegion env.viewport c.graphics.clip (some box) ctm
      let state := { GraphicsState.initial ctm with clip := region }
      let resources := a.appearance.resources.getD (← get).context.resources
      let nodes? ← Draw.orSkip (env.nested state resources a.appearance.content false)
      modify (·.pushAll (nodes?.getD []))

end Overlay

end PageSvg
