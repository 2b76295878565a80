import PageSvg.Options
import PageSvg.Geometry.Matrix

/-!
# Transform attributes

A matrix as the value of a transform attribute.
-/

namespace PageSvg

/-- The six numbers of a matrix at the precision of the options. -/
def Matrix.text {α : Type} [Scalar α] (o : Options α) (m : Matrix α) : String :=
  "matrix(" ++ String.intercalate " " ([m.a, m.b, m.c, m.d, m.e, m.f].map o.text) ++ ")"

end PageSvg
