/-!
# Paths of files

A path is a text with slashes between its parts. Empty parts and single dots at its end do not
count.
-/

namespace PageSvg.CommandLine.Path

/-- The parts of a path. -/
def split : List Char → List (List Char)
  | [] => [[]]
  | c :: rest =>
    if c = '/' then [] :: split rest
    else
      match split rest with
      | [] => [[c]]
      | part :: parts => (c :: part) :: parts

/-- The path of some parts. -/
def join (parts : List (List Char)) : List Char := List.intercalate ['/'] parts

/-- A part that stays where it is. -/
def isStill (part : List Char) : Bool := part == [] || part == ['.']

/-- A part that goes one level up. -/
def up : List Char := ['.', '.']

/-- The name of the file that a path leads to, and the parts before it. -/
def leaf? (path : List Char) : Option (List (List Char) × List Char) :=
  match (split path).reverse.dropWhile isStill with
  | [] => none
  | name :: before => if name = up then none else some (before.reverse, name)

/-- What stands before the last dot of a name and what stands behind it. There is no such dot in a
name that has none but at its beginning. -/
def splitName (name : List Char) : List Char × Option (List Char) :=
  match name.reverse.dropWhile (· != '.') with
  | [] | [_] => (name, none)
  | _ :: before => (before.reverse, some (name.drop (before.length + 1)))

/-- The path with an extension behind the stem of its name. A path that leads to no name of a file
stays as it is. -/
def setExtension (extension path : List Char) : List Char :=
  match leaf? path with
  | some (before, name) => join (before ++ [(splitName name).1 ++ '.' :: extension])
  | none => path

/-- The path without the extension of its name; the dot before the extension stays. -/
def dropExtension (path : List Char) : List Char :=
  match (leaf? path).bind fun (_, name) => (splitName name).2 with
  | some extension => path.take (path.length - extension.length)
  | none => path

/-- The path with another extension. The old one is dropped first, and if two dots remain, they
lead one level up and stay as they are. -/
def withExtension (extension path : List Char) : List Char :=
  setExtension extension (dropExtension path)

/-- The path of a name in a directory. -/
def inDirectory (directory name : List Char) : List Char :=
  if directory.getLast? = some '/' then directory ++ name else directory ++ '/' :: name

end PageSvg.CommandLine.Path
