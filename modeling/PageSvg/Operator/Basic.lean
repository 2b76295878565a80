import PageSvg.Operator.Table

/-!
# Operators

The operators of content streams, and the table of their names and shapes.
-/

namespace PageSvg

/-- The paint that a colour operator sets. -/
inductive PaintTarget
  | stroke
  | fill
  deriving DecidableEq, Repr

/-- What a painting operator does with the path. -/
structure PaintMode where
  /-- The last subpath is closed first. -/
  closes : Bool := false
  strokes : Bool := false
  fills : Bool := false
  evenOdd : Bool := false
  deriving DecidableEq, Repr

/-- What an operator does. -/
inductive Operator
  | save
  | restore
  | transform
  | lineWidth
  | lineCap
  | lineJoin
  | miterLimit
  | dash
  | renderingIntent
  | flatness
  /-- Applies a set of graphics parameters. -/
  | parameters
  | moveTo
  | lineTo
  | curveTo
  /-- The first control point is the current point. -/
  | curveFromCurrent
  /-- The second control point is the end point. -/
  | curveIntoEnd
  | closePath
  | rectangle
  | paint (mode : PaintMode)
  | clip (evenOdd : Bool)
  | colorSpace (target : PaintTarget)
  | color (target : PaintTarget)
  | pattern (target : PaintTarget)
  /-- Components, perhaps with the name of a pattern after them. -/
  | colorOrPattern (target : PaintTarget)
  | gray (target : PaintTarget)
  | rgb (target : PaintTarget)
  | cmyk (target : PaintTarget)
  | beginText
  | endText
  | charSpacing
  | wordSpacing
  | textScaling
  | leading
  | font
  | renderMode
  | rise
  | moveLine
  /-- Moves to the next line and makes the distance the leading. -/
  | moveLineSettingLeading
  | textMatrix
  | nextLine
  | showText
  /-- Shows strings with adjustments between them. -/
  | showAdjusted
  | showOnNextLine
  /-- Sets the spacings and shows a string on the next line. -/
  | showSpacedOnNextLine
  /-- The width of a glyph that brings its own colours. -/
  | glyphWidth
  /-- The width and box of a glyph that takes the colour in force. -/
  | glyphBox
  | xobject
  | shading
  | inlineImage
  | beginMarked
  | endMarked
  | markPoint
  | compatibility
  deriving DecidableEq, Repr

namespace Operator

/-- So many numbers. -/
def numbers (count : Nat) : Shape := List.replicate count .number

/-- Names and shapes of the operators on the graphics state. -/
def stateDefinitions : List (String × Shape × Operator) :=
  [("q", [], save), ("Q", [], restore), ("cm", numbers 6, transform), ("w", [.number], lineWidth),
   ("J", [.integer], lineCap), ("j", [.integer], lineJoin), ("M", [.number], miterLimit),
   ("d", [.array, .number], dash), ("ri", [.name], renderingIntent), ("i", [.number], flatness),
   ("gs", [.name], parameters)]

/-- Names and shapes of the operators on paths. -/
def pathDefinitions : List (String × Shape × Operator) :=
  [("m", numbers 2, moveTo), ("l", numbers 2, lineTo), ("c", numbers 6, curveTo),
   ("v", numbers 4, curveFromCurrent), ("y", numbers 4, curveIntoEnd), ("h", [], closePath),
   ("re", numbers 4, rectangle), ("S", [], paint { strokes := true }),
   ("s", [], paint { closes := true, strokes := true }), ("f", [], paint { fills := true }),
   ("F", [], paint { fills := true }), ("f*", [], paint { fills := true, evenOdd := true }),
   ("B", [], paint { strokes := true, fills := true }),
   ("B*", [], paint { strokes := true, fills := true, evenOdd := true }),
   ("b", [], paint { closes := true, strokes := true, fills := true }),
   ("b*", [], paint { closes := true, strokes := true, fills := true, evenOdd := true }),
   ("n", [], paint {}), ("W", [], clip false), ("W*", [], clip true)]

/-- Names and shapes of the operators on colours. -/
def colorDefinitions : List (String × Shape × Operator) :=
  [("CS", [.name], colorSpace .stroke), ("cs", [.name], colorSpace .fill),
   ("SC", [.restNumbers], color .stroke), ("sc", [.restNumbers], color .fill),
   ("SCN", [.name], pattern .stroke), ("SCN", [.restNumbers], color .stroke),
   ("SCN", [.rest], colorOrPattern .stroke), ("scn", [.name], pattern .fill),
   ("scn", [.restNumbers], color .fill), ("scn", [.rest], colorOrPattern .fill),
   ("G", [.number], gray .stroke), ("g", [.number], gray .fill),
   ("RG", numbers 3, rgb .stroke), ("rg", numbers 3, rgb .fill),
   ("K", numbers 4, cmyk .stroke), ("k", numbers 4, cmyk .fill)]

/-- Names and shapes of the operators on text. -/
def textDefinitions : List (String × Shape × Operator) :=
  [("BT", [], beginText), ("ET", [], endText), ("Tc", [.number], charSpacing),
   ("Tw", [.number], wordSpacing), ("Tz", [.number], textScaling), ("TL", [.number], leading),
   ("Tf", [.name, .number], font), ("Tr", [.integer], renderMode), ("Ts", [.number], rise),
   ("Td", numbers 2, moveLine), ("TD", numbers 2, moveLineSettingLeading),
   ("Tm", numbers 6, textMatrix), ("T*", [], nextLine), ("Tj", [.string], showText),
   ("TJ", [.array], showAdjusted), ("'", [.string], showOnNextLine),
   ("\"", [.number, .number, .string], showSpacedOnNextLine), ("d0", numbers 2, glyphWidth),
   ("d1", numbers 6, glyphBox)]

/-- Names and shapes of the operators on objects and marks. -/
def objectDefinitions : List (String × Shape × Operator) :=
  [("Do", [.name], xobject), ("sh", [.name], shading), ("EI", [.dictionary, .string], inlineImage),
   ("BMC", [.name], beginMarked), ("BDC", [.name, .any], beginMarked), ("EMC", [], endMarked),
   ("MP", [.name], markPoint), ("DP", [.name, .any], markPoint), ("BX", [], compatibility),
   ("EX", [], compatibility)]

/-- The table of all operators. -/
def table : OperatorTable Operator :=
  .ofDefinitions
    (stateDefinitions ++ pathDefinitions ++ colorDefinitions ++ textDefinitions ++
      objectDefinitions)

end Operator

end PageSvg
