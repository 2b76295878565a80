import PageSvg.Number.Reading
import PageSvg.Options

/-!
# Arguments of the command line

Arguments are read from left to right. A flag stands alone, with its value behind an equals sign,
or with its value as the next argument; flags of one letter may share a dash. Behind a double dash
all arguments are files. The first thing that is wrong, or that asks for help or the version,
decides.
-/

namespace PageSvg.CommandLine

/-- What can be asked for. -/
inductive Flag
  | debug
  | outfile
  | outputDirectory
  | box
  | rotation
  | precision
  | minStrokeWidth
  | noHiddenText
  | noOptimize
  | pretty
  | stats
  | help
  | version
  deriving DecidableEq, Repr

namespace Flag

/-- All flags. -/
def all : List Flag :=
  [debug, outfile, outputDirectory, box, rotation, precision, minStrokeWidth, noHiddenText,
    noOptimize, pretty, stats, help, version]

/-- The name behind a double dash. -/
def long : Flag → String
  | debug => "debug"
  | outfile => "outfile"
  | outputDirectory => "output-dir"
  | box => "box"
  | rotation => "rotation"
  | precision => "precision"
  | minStrokeWidth => "min-stroke-width"
  | noHiddenText => "no-hidden-text"
  | noOptimize => "no-optimize"
  | pretty => "pretty"
  | stats => "stats"
  | help => "help"
  | version => "version"

/-- The letter behind a single dash. -/
def short? : Flag → Option Char
  | debug => some 'd'
  | outfile => some 'o'
  | outputDirectory => some 'O'
  | box => some 'b'
  | rotation => some 'R'
  | help => some 'h'
  | version => some 'V'
  | _ => none

/-- Does the flag come with a value? -/
def takesValue : Flag → Bool
  | outfile | outputDirectory | box | rotation | precision | minStrokeWidth => true
  | _ => false

/-- The flag of a name. -/
def ofLong? (name : List Char) : Option Flag := all.find? fun f => f.long.toList == name

/-- The flag of a letter. -/
def ofShort? (letter : Char) : Option Flag := all.find? fun f => f.short? == some letter

end Flag

/-- What an argument says. -/
inductive Event
  /-- A flag with its value; the value is empty for a flag that takes none. -/
  | flag (f : Flag) (value : String)
  | file (path : String)
  | misuse
  deriving DecidableEq, Repr

/-- What one argument says, and the flag that takes the next argument as its value. -/
abbrev Said := List Event × Option Flag

/-- What letters behind a single dash say. -/
def saidByLetters : List Char → Said
  | [] => ([], none)
  | c :: rest =>
    match Flag.ofShort? c with
    | none => ([.misuse], none)
    | some f =>
      if f.takesValue then
        match rest with
        | [] => ([], some f)
        | '=' :: value => ([.flag f (String.ofList value)], none)
        | value => ([.flag f (String.ofList value)], none)
      else
        let (events, open?) := saidByLetters rest
        (.flag f "" :: events, open?)

/-- What a name behind a double dash says, perhaps with a value behind an equals sign. -/
def saidByName (text : List Char) : Said :=
  match Flag.ofLong? (text.takeWhile (· != '=')), text.dropWhile (· != '=') with
  | none, _ => ([.misuse], none)
  | some f, [] => if f.takesValue then ([], some f) else ([.flag f ""], none)
  | some f, _ :: value =>
    if f.takesValue then ([.flag f (String.ofList value)], none) else ([.misuse], none)

/-- What an argument says that is not the double dash. A dash alone is a file. -/
def said (argument : String) : Said :=
  match argument.toList with
  | '-' :: '-' :: name => saidByName name
  | '-' :: c :: letters => saidByLetters (c :: letters)
  | _ => ([.file argument], none)

/-- May the argument be the value of the flag before it? -/
def isValue (argument : String) : Bool :=
  match argument.toList with
  | '-' :: _ :: _ => false
  | _ => true

/-- What the arguments say. -/
def events : List String → List Event
  | [] => []
  | "--" :: rest => rest.map .file
  | argument :: rest =>
    match said argument with
    | (es, none) => es ++ events rest
    | (es, some f) =>
      match rest with
      | [] => es ++ [.misuse]
      | value :: rest => es ++ if isValue value then .flag f value :: events rest else [.misuse]

/-- What to convert, and how. -/
structure Request (α : Type) where
  files : List String := []
  /-- The output of a single file; a dash is the standard output. -/
  outfile : String := "-"
  /-- The directory of the output of several files; their own directories if there is none. -/
  outputDirectory : Option String := none
  box : String := "0 0 612 792"
  rotation : Int := 0
  options : Options α
  pretty : Bool := false
  stats : Bool := false

namespace Request

variable {α : Type} [Scalar α]

/-- The request when nothing is asked for. -/
def standard : Request α := { options := .standard }

/-- The angles that can be asked for. -/
def isAngle (n : Int) : Bool := -Int.pow 2 31 ≤ n && n < Int.pow 2 31

/-- The request with a flag, unless its value cannot be read. -/
def set? (r : Request α) (f : Flag) (value : String) : Option (Request α) :=
  match f with
  | .debug | .help | .version => some r
  | .outfile => some { r with outfile := value }
  | .outputDirectory => if value = "" then none else some { r with outputDirectory := some value }
  | .box => some { r with box := value }
  | .rotation =>
    match Reading.integer? value.toList with
    | some n => if isAngle n then some { r with rotation := n } else none
    | none => none
  | .precision =>
    match Reading.natural? value.toList with
    | some n => if n < Nat.pow 2 64 then some { r with options.precision := n } else none
    | none => none
  | .minStrokeWidth =>
    (Reading.scalar? value.toList).map fun x => { r with options.minStrokeWidth := x }
  | .noHiddenText => some { r with options.includeHiddenText := false }
  | .noOptimize => some { r with options.optimizeAttributes := false }
  | .pretty => some { r with pretty := true }
  | .stats => some { r with stats := true }

end Request

/-- What the command is called for. -/
inductive Invocation (α : Type)
  | convert (r : Request α)
  | help
  | version
  | misuse

variable {α : Type} [Scalar α]

/-- Takes events in order. No flag may come twice, no path may be empty, and there must be a
file. -/
def settle (given : List Flag) (r : Request α) : List Event → Invocation α
  | [] => if r.files.isEmpty then .misuse else .convert r
  | .misuse :: _ => .misuse
  | .file path :: rest =>
    if path = "" then .misuse else settle given { r with files := r.files ++ [path] } rest
  | .flag .help _ :: _ => .help
  | .flag .version _ :: _ => .version
  | .flag f value :: rest =>
    if given.contains f then .misuse
    else
      match r.set? f value with
      | some r => settle (f :: given) r rest
      | none => .misuse

/-- What arguments call for. -/
def Invocation.ofArguments (arguments : List String) : Invocation α :=
  settle [] .standard (events arguments)

end PageSvg.CommandLine
