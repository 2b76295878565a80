import PageSvg.CommandLine.Run

/-!
# The program
-/

open PageSvg.CommandLine

/-- Reads a file of the disk. -/
def readDisk (path : String) : IO Found := do
  let file? ← (some <$> IO.FS.Handle.mk path .read) <|> pure none
  match file? with
  | none => return .missing
  | some file =>
    (return .content (← file.readBinToEnd).toList) <|> return .unreadable

/-- Writes a file of the disk. -/
def createOnDisk (path text : String) : IO Written := do
  let file? ← (some <$> IO.FS.Handle.mk path .write) <|> pure none
  match file? with
  | none => return .refused
  | some file =>
    try
      file.putStr text
      file.flush
      return .done
    catch error => return .broken (toString error)

/-- The shell of the running program. -/
def diskShell : Shell IO where
  read := readDisk
  create := createOnDisk
  print := IO.print
  report := IO.eprintln

/-- Converts the content streams that the arguments name. -/
def main (arguments : List String) : IO UInt32 :=
  (Invocation.ofArguments arguments : Invocation Float).run diskShell
