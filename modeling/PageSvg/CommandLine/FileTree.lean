import PageSvg.CommandLine.Run

/-!
# Files in memory

A tree of files in which the command can run. It stands in the directory for temporary files of a
machine, under a name that nobody knows. The rest of the machine has the usual directories and
devices and no files.
-/

namespace PageSvg.CommandLine

/-- The place of a file or directory: the parts of its path from the root of the machine. -/
abbrev Place := List (List Char)

/-- A file that keeps nothing. -/
inductive Device
  /-- Takes every text, and cannot be read as a file. -/
  | sink
  /-- Takes every text, and is an empty file. -/
  | empty
  /-- Takes no text. -/
  | full
  /-- The standard output. -/
  | output
  /-- The standard error output. -/
  | errors
  deriving DecidableEq, Repr

namespace Place

/-- The place that a path from the root without upward parts names. -/
def ofPath (path : String) : Place := (Path.split path.toList).filter fun part => !Path.isStill part

/-- The devices of a machine. -/
def devices : List (Place × Device) :=
  [("dev/null", Device.sink), ("dev/random", .sink), ("dev/urandom", .sink), ("dev/zero", .empty),
    ("dev/full", .full), ("dev/stdin", .sink), ("dev/stdout", .output), ("dev/stderr", .errors),
    ("dev/fd/0", .sink), ("dev/fd/1", .output), ("dev/fd/2", .errors), ("proc/self/fd/0", .sink),
    ("proc/self/fd/1", .output), ("proc/self/fd/2", .errors)].map
    fun (path, device) => (ofPath path, device)

/-- The usual directories of a machine. -/
def directories : List Place :=
  ["bin", "dev", "dev/fd", "dev/pts", "dev/shm", "etc", "home", "lib", "media", "mnt", "opt",
    "proc", "proc/self", "proc/self/fd", "root", "run", "sbin", "srv", "sys", "tmp", "usr",
    "usr/bin", "usr/lib", "usr/local", "usr/local/bin", "usr/sbin", "usr/share", "var",
    "var/lib", "var/log", "var/tmp"].map ofPath

/-- No file can be created in the directories that show the system. -/
def isFixed (place : Place) : Bool :=
  place.head? == some "proc".toList || place.head? == some "sys".toList

/-- The directories on the way to a place. -/
def parents (place : Place) : List Place := ((List.range place.length).drop 1).map place.take

/-- The root of the tree. No path has a part with a slash, so none names it. -/
def work : Place := ["tmp".toList, ['/']]

end Place

/-- Files and directories under their places. -/
structure FileTree where
  files : List (Place × List UInt8) := []
  directories : List Place := [Place.work]

namespace FileTree

/-- Is there a directory at the place? -/
def isDirectory (t : FileTree) (place : Place) : Bool :=
  place.isEmpty || Place.directories.contains place || t.directories.contains place

/-- Replaces a file, or adds one. -/
def insert (t : FileTree) (place : Place) (bytes : List UInt8) : FileTree :=
  { t with files := t.files.filter (·.1 != place) ++ [(place, bytes)] }

/-- Adds a file with the directories on the way to it. -/
def insertWithParents (t : FileTree) (place : Place) (bytes : List UInt8) : FileTree :=
  { t.insert place bytes with directories := t.directories ++ place.parents }

/-- The tree of some files, and some empty directories. -/
def ofFiles (files : List (String × List UInt8)) (directories : List String) : FileTree :=
  files.foldl (fun t (path, bytes) => t.insertWithParents (Place.work ++ Place.ofPath path) bytes)
    { directories := Place.work :: directories.map fun path => Place.work ++ Place.ofPath path }

/-- What is found at the end of a path. -/
inductive PathEnd
  | directory
  | file (place : Place)
  | device (d : Device)
  /-- Nothing, in a directory where a file can be created. -/
  | vacant (place : Place)
  | nowhere

/-- What is found at a place that is not a directory. -/
def contentAt (t : FileTree) (place : Place) : PathEnd :=
  match Place.devices.lookup place with
  | some d => .device d
  | none =>
    if (t.files.lookup place).isSome then .file place
    else if place.isFixed then .nowhere
    else .vacant place

/-- May a file have the name? -/
def isName (part : List Char) : Bool := (String.ofList part).utf8ByteSize ≤ 255

/-- Follows the parts of a path from a directory. There is nothing above the root. -/
def follow (t : FileTree) (directory : Place) : List (List Char) → PathEnd
  | [] => .directory
  | part :: rest =>
    if Path.isStill part then t.follow directory rest
    else if part = Path.up then t.follow directory.dropLast rest
    else
      let place := directory ++ [part]
      if t.isDirectory place then t.follow place rest
      else if rest.isEmpty && isName part then t.contentAt place
      else .nowhere

/-- May a path be so long? -/
def isPath (path : String) : Bool := path.utf8ByteSize ≤ 4095

/-- What a path leads to. -/
def locate (t : FileTree) (path : String) : PathEnd :=
  if !isPath path then .nowhere
  else
    match path.toList with
    | [] => .nowhere
    | '/' :: rest => t.follow [] (Path.split rest)
    | cs => t.follow Place.work (Path.split cs)

/-- Reads a file. -/
def read (t : FileTree) (path : String) : Found :=
  match t.locate path with
  | .file place => .content ((t.files.lookup place).getD [])
  | .device .empty => .content []
  | .device _ | .directory => .unreadable
  | .vacant _ | .nowhere => .missing

/-- The files inside the tree that were not there before, under their paths. -/
def newFiles (t before : FileTree) : List (String × List UInt8) :=
  (t.files.filter fun (place, _) =>
    Place.work.isPrefixOf place && (before.files.lookup place).isNone).map
    fun (place, bytes) => (String.ofList (Path.join (place.drop Place.work.length)), bytes)

end FileTree

/-- A tree of files, with what has been written to the standard outputs. -/
structure Session where
  tree : FileTree
  output : String := ""
  errors : String := ""

namespace Session

/-- What is said of a device that takes no text. -/
def noSpace : String := "No space left on device (os error 28)"

/-- Writes a text to a device. -/
def writeDevice (s : Session) (text : String) : Device → Written × Session
  | .sink | .empty => (.done, s)
  | .full => (.broken noSpace, s)
  | .output => (.done, { s with output := s.output ++ text })
  | .errors => (.done, { s with errors := s.errors ++ text })

/-- Writes a file, where one can be. -/
def create (s : Session) (path text : String) : Written × Session :=
  match s.tree.locate path with
  | .file place | .vacant place =>
    (.done, { s with tree := s.tree.insert place (Utf8.encode text) })
  | .device d => s.writeDevice text d
  | .directory | .nowhere => (.refused, s)

/-- The shell of a session. -/
def shell : Shell (StateM Session) where
  read path := return (← get).tree.read path
  create path text := modifyGet fun s => s.create path text
  print text := modify fun s => { s with output := s.output ++ text }
  report line := modify fun s => { s with errors := s.errors ++ line ++ "\n" }

end Session

end PageSvg.CommandLine
