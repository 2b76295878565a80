import PageSvg.Canvas.Perform

/-!
# Executing content

Content is executed operation by operation; each one looks for the request to stop first. Nested
content runs in a context of its own, and the context around it comes back whatever becomes of it.
Each level of nesting leaves one level less, so content that contains itself comes to an end.
-/

namespace PageSvg

variable {α : Type} [Scalar α]

/-- Executes an operation. The answer is `false` when no shape of the operator accepts the operands,
or the operator is unknown; nothing is done then. -/
def execute (env : Environment α) (op : Operation α) : Draw α Bool :=
  Operator.table.dispatch (fun operator args => operator.perform env args) op.operator op.operands

/-- Executes operations in order, up to the first that fails. -/
def executeAll (env : Environment α) : ContentStream α → Draw α Unit
  | [] => return
  | op :: rest => do
    Draw.checkCancelled
    let _ ← execute env op
    executeAll env rest

/-- Executes all of some content. Text that is still open at its end is drawn. -/
def drawContent (env : Environment α) (content : ContentStream α) : Draw α Unit := do
  executeAll env content
  modify (·.flushText env.options)

/-- Draws in a context of its own, one level deeper. -/
def Draw.inside {β : Type} (inner : Context α) (x : Draw α β) : Draw α β := fun c =>
  let outside (d : Canvas α) : Canvas α := { d with context := c.context, depth := c.depth }
  match x { c with context := inner, depth := c.depth + 1 } with
  | .ok b d => .ok b (outside d)
  | .error fault d => .error fault (outside d)

namespace Setting

/-- Draws nested content where so many levels are left, and gives its elements. -/
def nested (s : Setting α) :
    Nat → GraphicsState α → SetId → ContentStream α → Bool → Draw α (List Node)
  | 0, _, _, _, _ => do
    Draw.checkCancelled
    throw (.nestingTooDeep s.options.maxNestingDepth)
  | level + 1, graphics, resources, content, locked => do
    Draw.checkCancelled
    Draw.inside { Context.start graphics resources with colorLocked := locked } do
      drawContent { toSetting := s, nested := nested s level } content
      return (← get).content

/-- What the content of a page needs to know. -/
def environment (s : Setting α) : Environment α where
  toSetting := s
  nested := s.nested s.options.maxNestingDepth

end Setting

end PageSvg
