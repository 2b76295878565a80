import PageSvg.CommandLine.Help
import PageSvg.CommandLine.Path
import PageSvg.Content.Operations
import PageSvg.Converter
import PageSvg.Scene.Markup

/-!
# The command

Each file is the content of one page, without resources. All files are read before the first
document is written. One document goes to the standard output or to a given file, several go to
files of their own with another extension.

The command acts through a `Shell`, so that it runs on a disk as well as on a tree of files in
memory.
-/

namespace PageSvg.CommandLine

/-- Why the command fails. -/
inductive Failure (α : Type)
  /-- One output for several files. -/
  | oneOutput
  | unreadableBox (box : String)
  | boxLength (box : String)
  | emptyBox (box : String)
  | conversion (fault : Fault α)
  | cannotOpen (path : String)
  | cannotRead (path : String)
  | cannotConvert (path : String)
  | cannotCreate (path : String)
  | cannotWrite (reason : String)

/-- The wording of a failure. -/
def Failure.message {α : Type} [Scalar α] : Failure α → String
  | oneOutput => "--outfile takes a single input; use --output-dir for several"
  | unreadableBox box => "invalid page box " ++ Quoted.text box
  | boxLength box => "page box needs four numbers, got " ++ Quoted.text box
  | emptyBox box => "page box " ++ Quoted.text box ++ " is empty"
  | conversion fault => fault.message
  | cannotOpen path => "cannot open " ++ path
  | cannotRead path => "cannot read " ++ path
  | cannotConvert path => "error converting " ++ path
  | cannotCreate path => "cannot create " ++ path
  | cannotWrite reason => reason

/-- What is found at a path. -/
inductive Found
  | content (bytes : List UInt8)
  | missing
  /-- Something that is not a file. -/
  | unreadable

/-- What becomes of a file that is to be written. -/
inductive Written
  | done
  /-- The file could not be created. -/
  | refused
  /-- The file was created but does not take the text. -/
  | broken (reason : String)

/-- What the command does to the world around it. -/
structure Shell (m : Type → Type) where
  read : String → m Found
  /-- Writes a file. -/
  create : String → String → m Written
  /-- Writes to the standard output. -/
  print : String → m Unit
  /-- Writes a line to the standard error output. -/
  report : String → m Unit

variable {α : Type} [Scalar α]

/-- The words of a page box, between blanks and commas. -/
def boxWords (box : List Char) : List (List Char) :=
  (box.splitBy fun c d => !isGap c && !isGap d).filter fun word => !word.any isGap
where
  /-- A blank or a comma. -/
  isGap (c : Char) : Bool := c == ' ' || c == ','

/-- The rectangle of a page box. -/
def readBox (box : String) : Except (Failure α) (Rectangle α) :=
  match (boxWords box.toList).mapM Reading.scalar? with
  | none => .error (.unreadableBox box)
  | some [x1, y1, x2, y2] =>
    let r := Rectangle.ofCorners x1 y1 x2 y2
    if r.isEmpty then .error (.emptyBox box) else .ok r
  | some _ => .error (.boxLength box)

/-- Where a document goes: to a file, or to the standard output. -/
abbrev Target := Option String

namespace Request

/-- Where the document of a file goes when there are several. -/
def ownPath (r : Request α) (path : String) : String :=
  let renamed := Path.withExtension "svg".toList path.toList
  String.ofList <|
    match r.outputDirectory, Path.leaf? renamed with
    | some directory, some (_, name) => Path.inDirectory directory.toList name
    | _, _ => renamed

/-- Where the document of a file goes. -/
def target (r : Request α) (path : String) : Target :=
  if r.files.length = 1 then if r.outfile = "-" then none else some r.outfile
  else some (r.ownPath path)

/-- The page of some content. -/
def page (r : Request α) (box : Rectangle α) (content : List UInt8) : Page α where
  cropBox := box
  rotation := r.rotation
  content := Content.operations content
  resources := 0
  overlays := []

end Request

/-- Numbers in a summary: positional from `1e-5` up to, but not including, `1e16`. -/
def summaryStyle : Numeral.Style := ⟨some (-5, 15), true, true⟩

/-- A number in a summary; numbers that are not finite have no form there. -/
def summaryNumber (x : α) : String :=
  if Scalar.isFinite x then (Scalar.shortest .even x).text summaryStyle else "null"

/-- A character in a text of a summary. -/
def summaryCharacter (c : Char) : String :=
  if c = '"' then "\\\""
  else if c = '\\' then "\\\\"
  else if c = '\n' then "\\n"
  else if c = '\r' then "\\r"
  else if c = '\t' then "\\t"
  else if c = '\x08' then "\\b"
  else if c = '\x0c' then "\\f"
  else if c.toNat < 0x20 then "\\u00" ++ String.ofList (Rgb.hexPair c.toNat)
  else c.toString

/-- The summary of a document whose markup has so many bytes. -/
def summary (path : String) (d : Document α) (size : Nat) : String :=
  let fields :=
    [("file", "\"" ++ String.join (path.toList.map summaryCharacter) ++ "\""),
     ("width", summaryNumber d.width), ("height", summaryNumber d.height),
     ("nodes", toString d.root.count),
     ("definitions", toString ((d.definitions?.map (·.children.length)).getD 0)),
     ("bytes", toString size)]
  "\x7b" ++ String.intercalate "," (fields.map fun (key, value) => "\"" ++ key ++ "\":" ++ value) ++
    "\x7d"

section

variable {m : Type → Type} [Monad m]

/-- Reads the page of a file. -/
def readPage (sh : Shell m) (r : Request α) (box : Rectangle α) (path : String) :
    ExceptT (Failure α) m (Page α) := do
  match ← sh.read path with
  | .content bytes => return r.page box bytes
  | .missing => throw (.cannotOpen path)
  | .unreadable => throw (.cannotRead path)

/-- Writes the document of a file, and its summary if that is asked for. -/
def writeDocument (sh : Shell m) (r : Request α) (path : String)
    (result : Except (Fault α) (Document α)) : ExceptT (Failure α) m Unit := do
  match result with
  | .error _ => throw (.cannotConvert path)
  | .ok d =>
    let text := Markup.document d.root r.pretty
    match r.target path with
    | none => sh.print text
    | some target =>
      match ← sh.create target text with
      | .done => pure ()
      | .refused => throw (.cannotCreate target)
      | .broken reason => throw (.cannotWrite reason)
    if r.stats then sh.report (summary path d text.utf8ByteSize)

/-- Converts the files of a request. -/
def convertFiles (sh : Shell m) (r : Request α) : ExceptT (Failure α) m Unit := do
  if 1 < r.files.length ∧ r.outfile ≠ "-" then throw .oneOutput
  let box ← (readBox r.box : Except (Failure α) (Rectangle α))
  let converter ← (Converter.ofOptions r.options #[]).mapError Failure.conversion
  let pages ← r.files.mapM (readPage sh r box)
  (r.files.zip (converter.convertEach pages)).forM fun (path, result) =>
    writeDocument sh r path result

/-- Does what was asked for and gives the exit code: 1 after a failure, 2 after a misuse. -/
def Invocation.run (sh : Shell m) : Invocation α → m UInt32
  | .help => do
    sh.print helpText
    return 0
  | .version => do
    sh.print versionText
    return 0
  | .misuse => do
    sh.report usageText
    return 2
  | .convert r => do
    match ← (convertFiles sh r).run with
    | .ok () => return 0
    | .error failure =>
      sh.report ("Error: " ++ failure.message)
      return 1

end

end PageSvg.CommandLine
