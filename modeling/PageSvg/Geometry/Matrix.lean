import PageSvg.Fault

/-!
# Affine maps of the plane

A matrix `[a b c d e f]` maps the point `(x, y)` to `(a x + c y + e, b x + d y + f)`. Products
apply the left factor first. `splitScale` and `splitPlacement` take a uniform scale, and a shift
inside it, off the front of a matrix.
-/

namespace PageSvg

/-- An affine map of the plane. -/
structure Matrix (α : Type) where
  a : α
  b : α
  c : α
  d : α
  e : α
  f : α
  deriving BEq, Inhabited

namespace Matrix

variable {α : Type} [Scalar α]

/-- The map that moves nothing. -/
def identity : Matrix α := ⟨1, 0, 0, 1, 0, 0⟩

/-- The map that adds a vector. -/
def shift (x y : α) : Matrix α := ⟨1, 0, 0, 1, x, y⟩

/-- The map that scales both axes. -/
def scaling (x y : α) : Matrix α := ⟨x, 0, 0, y, 0, 0⟩

/-- The matrix of exactly six numbers. -/
def ofList? : List α → Option (Matrix α)
  | [a, b, c, d, e, f] => some ⟨a, b, c, d, e, f⟩
  | _ => none

/-- The map that applies `m` first and `n` second. -/
def multiply (m n : Matrix α) : Matrix α where
  a := m.a * n.a + m.b * n.c
  b := m.a * n.b + m.b * n.d
  c := m.c * n.a + m.d * n.c
  d := m.c * n.b + m.d * n.d
  e := m.e * n.a + m.f * n.c + n.e
  f := m.e * n.b + m.f * n.d + n.f

/-- The factor by which areas grow, with the sign of the orientation. -/
def determinant (m : Matrix α) : α := m.a * m.d - m.b * m.c

/-- Numbers below this count as zero in a division. -/
def singularBound : α := 1e-12

/-- The inverse map; a determinant near zero, or one that is not finite, is refused. -/
def invert (m : Matrix α) : Except (Fault α) (Matrix α) :=
  let det := m.determinant
  if Scalar.abs det < singularBound ∨ !Scalar.isFinite det then .error (.notInvertible det)
  else
    let a := m.d / det
    let b := -m.b / det
    let c := -m.c / det
    let d := m.a / det
    .ok ⟨a, b, c, d, -(m.e * a + m.f * c), -(m.e * b + m.f * d)⟩

/-- The image of a point. -/
def apply (m : Matrix α) (p : α × α) : α × α :=
  (m.a * p.1 + m.c * p.2 + m.e, m.b * p.1 + m.d * p.2 + m.f)

/-- The image of a vector, which shifts do not move. -/
def applyVector (m : Matrix α) (v : α × α) : α × α :=
  (m.a * v.1 + m.c * v.2, m.b * v.1 + m.d * v.2)

/-- Does the matrix equal the identity? -/
def isIdentity (m : Matrix α) : Bool := m == identity

/-- Is the linear part the identity? -/
def isShift (m : Matrix α) : Bool := m.a == 1 && m.b == 0 && m.c == 0 && m.d == 1

/-- The linear part alone. -/
def linear (m : Matrix α) : Matrix α := { m with e := 0, f := 0 }

/-- Do two matrices agree within a tolerance relative to their entries? -/
def approxEq (m n : Matrix α) (epsilon : α) : Bool :=
  let close (x y : α) : Bool :=
    Scalar.abs (x - y) ≤ epsilon * (1 + Scalar.max (Scalar.abs x) (Scalar.abs y))
  close m.a n.a && close m.b n.b && close m.c n.c && close m.d n.d && close m.e n.e &&
    close m.f n.f

/-- The square root of the absolute determinant: how much a uniform map stretches lengths. -/
def meanScale (m : Matrix α) : α := Scalar.sqrt (Scalar.abs m.determinant)

/-- The square root of `x² + y²` for `0 ≤ y ≤ x`, with one step of correction for the rounding of
the root. -/
def hypotenuse (x y : α) : α :=
  let h := Scalar.sqrt (x * x + y * y)
  let excess :=
    if h ≤ 2 * y then
      let delta := h - y
      x * (2 * delta - x) + (delta - 2 * (x - y)) * delta
    else
      let delta := h - x
      2 * delta * (x - 2 * y) + ((4 * delta - y) * y + delta * delta)
  h - excess / (2 * h)

/-- The length of a vector, scaled on the way where squares would leave the range of doubles. -/
def length (v : α × α) : α :=
  let x := Scalar.max (Scalar.abs v.1) (Scalar.abs v.2)
  let y := Scalar.min (Scalar.abs v.1) (Scalar.abs v.2)
  let unit : α := Scalar.power 2 600
  if !Scalar.isFinite x then x
  else if Scalar.isNaN v.1 || Scalar.isNaN v.2 then v.1 + v.2
  else if x == 0 then x
  else if 1e150 < x then hypotenuse (x / unit) (y / unit) * unit
  else if x < 1e-150 then hypotenuse (x * unit) (y * unit) / unit
  else hypotenuse x y

/-- Is the linear part a rotation or reflection times a uniform scale? -/
def isUniform (m : Matrix α) : Bool :=
  let sx := length (m.a, m.b)
  let sy := length (m.c, m.d)
  let dot := m.a * m.c + m.b * m.d
  let tolerance := 1e-9 * (1 + Scalar.max sx sy)
  Scalar.abs (sx - sy) ≤ tolerance ∧ Scalar.abs dot ≤ tolerance * (1 + Scalar.max sx sy)

/-- Does the map take upright rectangles to upright rectangles? -/
def isAxisAligned (m : Matrix α) : Bool :=
  (m.b == 0 && m.c == 0) || (m.a == 0 && m.d == 0)

/-- A uniform scale and the rest: the scaling followed by the rest is the matrix. A degenerate
matrix keeps the scale one. -/
def splitScale (m : Matrix α) : α × Matrix α :=
  let scale := m.meanScale
  if !(decide (singularBound < scale)) ∨ !Scalar.isFinite scale then (1, m)
  else (scale, ⟨m.a / scale, m.b / scale, m.c / scale, m.d / scale, m.e, m.f⟩)

/-- A uniform scale, a shift and a linear rest, whose product in this order is the matrix. -/
structure Placement (α : Type) where
  scale : α
  x : α
  y : α
  rest : Matrix α
  deriving Inhabited

/-- Splits a matrix into scale, shift and rest. A matrix that cannot be split is its own
rest. -/
def splitPlacement (m : Matrix α) : Placement α :=
  let (scale, rest) := m.splitScale
  match rest.linear.invert with
  | .ok inverse =>
    let (x, y) := inverse.applyVector (m.e, m.f)
    ⟨scale, x, y, rest.linear⟩
  | .error _ => ⟨1, 0, 0, m⟩

end Matrix

end PageSvg
