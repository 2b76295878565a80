import PageSvg.Clip
import PageSvg.Layout.Element
import PageSvg.Resource.Cache

/-!
# The canvas

Content is drawn on a canvas. The context of a content stream is its graphics state with the saved
ones, its path, its text and what it has drawn; nested content has a context of its own. Clip
regions, definitions and shared resources belong to the page as a whole.
-/

namespace PageSvg

/-- What drawing does not change. -/
structure Setting (α : Type) where
  options : Options α
  library : Library α
  /-- From the user space of the page to the output. -/
  base : Matrix α
  viewport : Rectangle α

/-- The context of a content stream. -/
structure Context (α : Type) where
  graphics : GraphicsState α
  /-- The saved states, the last one first. -/
  saved : List (GraphicsState α) := []
  /-- The path under construction, in user space. -/
  path : Path α := []
  /-- The next painting operator clips to the path, by the even-odd rule if so. -/
  pendingClip : Option Bool := none
  resources : SetId
  /-- The elements drawn, the last first. -/
  content : List Node := []
  /-- The clip region whose group is the last element, while others may still go into it. -/
  openClip : Option Nat := none
  layout : TextLayout α
  /-- The outlines of clipping text in the text object. -/
  outlines : List Node := []
  inText : Bool := false
  /-- The last style of text, with the scale it was made for, while nothing it depends on has
  changed. -/
  textStyle : Option (α × TextStyle α) := none
  /-- Colour operators are ignored. -/
  colorLocked : Bool := false
  markedDepth : Nat := 0

/-- The context in which a content stream begins. -/
def Context.start {α : Type} [Scalar α] (graphics : GraphicsState α) (resources : SetId) :
    Context α :=
  { graphics, resources, layout := .empty }

/-- When the request to stop is seen: it is looked for again and again while content is drawn. -/
structure Cancellation where
  /-- How many times it has been looked for. -/
  looks : Nat := 0
  /-- The first look that sees it. -/
  onset : Option Nat := none

namespace Cancellation

/-- Does the next look see the request? -/
def isSeen (c : Cancellation) : Bool := c.onset.any fun n => n ≤ c.looks

/-- The request is there from now on. -/
def request (c : Cancellation) : Cancellation :=
  { c with onset := some (Nat.min c.looks (c.onset.getD c.looks)) }

end Cancellation

/-- The state of drawing. -/
structure Canvas (α : Type) where
  context : Context α
  clips : ClipForest α
  definitions : Definitions := {}
  /-- Resources that pages share, if they do. -/
  cache : Option (ResourceCache α) := none
  /-- How deep the content is nested. -/
  depth : Nat := 0
  /-- The forms being drawn, the innermost first. -/
  activeForms : List String := []
  cancellation : Cancellation := {}

/-- Drawing changes the canvas and may fail; what was changed before a failure stays. -/
abbrev Draw (α : Type) := EStateM (Fault α) (Canvas α)

/-- What drawing needs to know: the setting, and how nested content is drawn. -/
structure Environment (α : Type) extends Setting α where
  /-- Draws content in a context of its own that begins in a graphics state, with or without the
  colour lock, and gives the elements it has drawn. -/
  nested : GraphicsState α → SetId → ContentStream α → Bool → Draw α (List Node)

namespace Canvas

variable {α : Type} [Scalar α]

/-- The graphics state in force. -/
def graphics (c : Canvas α) : GraphicsState α := c.context.graphics

/-- Changes the context. -/
def mapContext (f : Context α → Context α) (c : Canvas α) : Canvas α :=
  { c with context := f c.context }

/-- Changes the graphics state. -/
def mapGraphics (f : GraphicsState α → GraphicsState α) : Canvas α → Canvas α :=
  mapContext fun k => { k with graphics := f k.graphics }

/-- Changes the text state. -/
def mapText (f : TextState α → TextState α) : Canvas α → Canvas α :=
  mapGraphics fun g => { g with text := f g.text }

/-- Forgets the last style of text. -/
def dropStyle : Canvas α → Canvas α := mapContext fun k => { k with textStyle := none }

/-- A blank canvas for a page. -/
def blank (s : Setting α) (resources : SetId) : Canvas α where
  context := .start (.initial s.base) resources
  clips := { precision := s.options.precision }

/-- The rectangle of the clip region in force, if that is nothing but one rectangle. -/
def clipRectangle? (c : Canvas α) : Option (Rectangle α) :=
  c.graphics.clip.bind c.clips.plainRectangle?

end Canvas

/-- The elements drawn in the context, in order. -/
def Canvas.content {α : Type} (c : Canvas α) : List Node := c.context.content.reverse

namespace Draw

variable {α β : Type}

/-- Fails when the request to stop is seen. -/
def checkCancelled : Draw α Unit := do
  let seen := (← get).cancellation.isSeen
  modify fun c => { c with cancellation.looks := c.cancellation.looks + 1 }
  if seen then throw .cancelled

/-- Draws nothing where content is nested too deep; other failures remain. -/
def orSkip (x : Draw α β) : Draw α (Option β) :=
  tryCatch (some <$> x) fun
    | .nestingTooDeep _ => pure none
    | fault => throw fault

/-- Draws nothing where drawing fails. -/
def orNothing (x : Draw α (Option β)) : Draw α (Option β) := tryCatch x fun _ => pure none

end Draw

namespace Environment

variable {α : Type}

/-- The resources in force. -/
def resources (env : Environment α) (c : Canvas α) : ResourceSet α :=
  env.library.set c.context.resources

end Environment

end PageSvg
