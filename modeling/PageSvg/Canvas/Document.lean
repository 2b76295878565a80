import PageSvg.Canvas.Emission
import PageSvg.Scene.Optimize

/-!
# The document of a canvas

A finished canvas becomes a document: the clip regions in use and the shared definitions first, and
the content, in which shared attributes may have been moved up, after them.
-/

namespace PageSvg

variable {α : Type} [Scalar α]

/-- The root element around definitions and content. -/
def Setting.rootNode (s : Setting α) (definitions content : Node) : Node :=
  let width := Scalar.placesText s.options.precision s.viewport.width
  let height := Scalar.placesText s.options.precision s.viewport.height
  { tag := "svg"
    attrs := [("xmlns", "http://www.w3.org/2000/svg"), ("width", width), ("height", height),
      ("viewBox", "0 0 " ++ width ++ " " ++ height)]
    children := [definitions, content] }

/-- The document of a canvas. -/
def Canvas.finish (s : Setting α) (c : Canvas α) : Document α :=
  let c := c.flushText s.options
  let content : Node := { tag := "g", attrs := [("id", "content")], children := c.content }
  let content :=
    if s.options.optimizeAttributes then Scene.optimize s.options.minGroupRun content else content
  { width := s.viewport.width
    height := s.viewport.height
    root := s.rootNode (c.definitions.toNode c.clips.toNodes) content }

end PageSvg
