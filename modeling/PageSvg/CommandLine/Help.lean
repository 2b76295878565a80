import PageSvg.CommandLine.Arguments

/-!
# Help

What the command says about itself.
-/

namespace PageSvg.CommandLine

/-- The name of the command. -/
def commandName : String := "content2svg"

/-- The version of the command. -/
def versionText : String := commandName ++ " 0.3.0\n"

/-- How the command is called. -/
def usageText : String := "Usage: " ++ commandName ++ " [OPTIONS] <FILES>...\n"

namespace Flag

/-- The name of the value of a flag. -/
def valueName? : Flag → Option String
  | outfile => some "OUTFILE"
  | outputDirectory => some "OUTPUT_DIR"
  | box => some "PAGE_BOX"
  | rotation => some "ROTATION"
  | precision => some "PRECISION"
  | minStrokeWidth => some "MIN_STROKE_WIDTH"
  | _ => none

/-- What a flag does. -/
def purpose : Flag → String
  | debug => "Use debug logging level"
  | outfile => "Output file for a single input (\"-\" for stdout) [default: -]"
  | outputDirectory =>
    "Directory for the output of multiple inputs (defaults to each input's directory)"
  | box => "Page box as \"x1 y1 x2 y2\" in default user space [default: \"0 0 612 792\"]"
  | rotation => "Clockwise page rotation in degrees [default: 0]"
  | precision => "Decimal places kept in coordinates [default: 3]"
  | minStrokeWidth => "Minimum stroke width in output units [default: 0.5]"
  | noHiddenText => "Drop invisible (render mode 3) text"
  | noOptimize => "Skip the attribute optimizer"
  | pretty => "Indent the SVG output"
  | stats => "Print a JSON summary of each converted page to stderr"
  | help => "Print help"
  | version => "Print version"

/-- How a flag is written. -/
def spelling (f : Flag) : String :=
  (match f.short? with
    | some c => "-" ++ c.toString ++ ", --"
    | none => "    --") ++ f.long ++
    match f.valueName? with
    | some value => " <" ++ value ++ ">"
    | none => ""

end Flag

/-- A line of help: how something is written, in a column of some width, and what it does. -/
def helpLine (width : Nat) (spelling purpose : String) : String :=
  "  " ++ spelling ++ String.ofList (List.replicate (width - spelling.length) ' ') ++ "  " ++
    purpose ++ "\n"

/-- The help of the command. -/
def helpText : String :=
  let width := (Flag.all.map fun f => f.spelling.length).foldl Nat.max 0
  "Convert PDF page content streams to SVG\n\n" ++ usageText ++ "\nArguments:\n" ++
    helpLine 0 "<FILES>..." "One or more files holding decoded content streams" ++
    "\nOptions:\n" ++ String.join (Flag.all.map fun f => helpLine width f.spelling f.purpose)

end PageSvg.CommandLine
