/-!
# Files

A working directory as a value: files and directories by the names on the way to them. A path is
followed name by name, so each name before a slash has to lead to a directory.

* `Disk.locate`: where a path leads, whether or not something stands there;
* `Disk.read`: the contents of a file;
* `Disk.makeDir`, `Disk.makeDirs`: one directory, or one with those above it;
* `Disk.write`: a file with its contents.
-/

namespace ArrayOffload

/-- Why the disk refuses. -/
inductive DiskError where
  | missing
  | alreadyThere
  | notDirectory
  | isDirectory
  | nameTooLong
  | nulInName
deriving DecidableEq, Repr

def DiskError.message : DiskError → String
  | missing => "No such file or directory (os error 2)"
  | alreadyThere => "File exists (os error 17)"
  | notDirectory => "Not a directory (os error 20)"
  | isDirectory => "Is a directory (os error 21)"
  | nameTooLong => "File name too long (os error 36)"
  | nulInName => "file name contained an unexpected NUL byte"

/-! ## Paths -/

/-- The names on the way from the working directory. -/
abbrev PathNames := List String

/-- The parts of a path between slashes. -/
def slashParts (path : String) : List String := (path.toList.splitOn '/').map String.ofList

namespace PathNames

/-- A directory on the way up: the root, the working directory, or one above it. -/
def isAbove (names : PathNames) : Bool := names = ["/"] || names.all (· = "..")

/-- One more name. Two dots lead one directory up; the root is above itself. -/
def step (names : PathNames) (name : String) : PathNames :=
  if name = "" || name = "." then names
  else if name ≠ ".." then names ++ [name]
  else if names = ["/"] then names
  else if names.isAbove then names ++ [name]
  else names.dropLast

/-- Where a path starts. An absolute path starts with a slash as its first name. -/
def start (path : String) : PathNames := if path.startsWith "/" then ["/"] else []

/-- The names of a path. -/
def ofText (path : String) : PathNames := (slashParts path).foldl step (start path)

def text (names : PathNames) : String := "/".intercalate names

/-- Whether the names lead to something in the working directory or below it. -/
def isWithin (names : PathNames) : Bool :=
  match names.head? with
  | some name => name ≠ "/" && name ≠ ".."
  | none => true

end PathNames

/-- A file's path in a directory. -/
def joinPath (dir name : String) : String :=
  if dir = "" || dir.endsWith "/" then dir ++ name else dir ++ "/" ++ name

/-- The parts of a path that count: a dot counts at the front only. -/
def pathParts (path : String) : List String :=
  match slashParts path with
  | [] => []
  | first :: rest =>
    let later := rest.filter fun part => part ≠ "" && part ≠ "."
    if first = "" then later else first :: later

/-- A path, the one above it, and so on, the shortest with one part. -/
def pathsUpward (path : String) : List String :=
  let parts := pathParts path
  let lead := if path.startsWith "/" then "/" else ""
  let above := (List.range parts.length).tail.reverse.map fun count =>
    lead ++ "/".intercalate (parts.take count)
  path :: above

/-- The most bytes of a name. -/
def nameLimit : Nat := 255

/-- The most bytes of a path. -/
def pathLimit : Nat := 4095

/-! ## The disk -/

structure Disk where
  files : List (PathNames × String) := []
  dirs : List PathNames := []
deriving DecidableEq, Repr

/-- Changes of a disk. What was done before an error stays done. -/
abbrev DiskM := ExceptT DiskError (StateM Disk)

namespace Disk

def file? (disk : Disk) (names : PathNames) : Option String := disk.files.lookup names

/-- A directory is known, or has something in it. -/
def hasDir (disk : Disk) (names : PathNames) : Bool :=
  names.isAbove || names ∈ disk.dirs ||
    disk.files.any fun file => file.1 ≠ names && names.isPrefixOf file.1

/-- Something stands at a place. -/
def has (disk : Disk) (names : PathNames) : Bool :=
  (disk.file? names).isSome || disk.hasDir names

/-- One more name on the way: it is looked up in a directory. -/
def enter (disk : Disk) (names : PathNames) (name : String) : Except DiskError PathNames :=
  if disk.hasDir names then
    if name.utf8ByteSize ≤ nameLimit then .ok (names.step name) else .error .nameTooLong
  else if (disk.file? names).isSome then .error .notDirectory
  else .error .missing

/-- A path that can be followed at all. -/
def checkPath (path : String) : Except DiskError Unit :=
  if path.toList.any fun c => c.toNat = 0 then .error .nulInName
  else if path = "" then .error .missing
  else if pathLimit < path.utf8ByteSize then .error .nameTooLong
  else .ok ()

/-- Where a path leads. What stands before a slash has to be a directory. -/
def locate (disk : Disk) (path : String) : Except DiskError PathNames := do
  checkPath path
  (slashParts path).foldlM disk.enter (PathNames.start path)

/-- Whether a path leads to something. -/
def pathExists (disk : Disk) (path : String) : Bool := (disk.locate path).toOption.any disk.has

/-- Whether a path leads to a directory. -/
def isDir (disk : Disk) (path : String) : Bool := (disk.locate path).toOption.any disk.hasDir

/-- The contents of a file. -/
def read (disk : Disk) (path : String) : Except DiskError String := do
  let names ← disk.locate path
  match disk.file? names with
  | some contents => .ok contents
  | none => .error (if disk.hasDir names then .isDirectory else .missing)

/-- Where a new directory would stand. Slashes after its name do not matter. -/
def newDir (disk : Disk) (path : String) : Except DiskError PathNames := do
  checkPath path
  let parts := ((slashParts path).reverse.dropWhile (· = "")).reverse
  let names ← parts.foldlM disk.enter (PathNames.start path)
  if disk.has names || parts.getLast? = some "." || parts.getLast? = some ".." then
    .error .alreadyThere
  else .ok names

/-- Make one directory. -/
def makeDir (path : String) : DiskM Unit := do
  let names ← MonadExcept.ofExcept ((← get).newDir path)
  modify fun disk => { disk with dirs := disk.dirs ++ [names] }

/-- Make one directory, unless it is there. -/
def ensureDir (path : String) : DiskM Unit := do
  try makeDir path
  catch cause => if (← get).isDir path then return () else throw cause

/-- Make the first directory, where those after it are the ones above it. They are made first, but
only if one is missing. -/
def makeUpward : List String → DiskM Unit
  | [] => return ()
  | path :: above => do
    try ensureDir path
    catch cause =>
      if cause = .missing then
        makeUpward above
        ensureDir path
      else throw cause

/-- Make a directory with all directories above it. The working directory itself, an empty path, is
there. -/
def makeDirs (path : String) : DiskM Unit :=
  if path = "" then return () else makeUpward (pathsUpward path)

/-- A file with these contents. What it held before is gone. -/
def put (disk : Disk) (names : PathNames) (contents : String) : Disk :=
  if (disk.file? names).isSome then
    { disk with
      files := disk.files.map fun file => if file.1 = names then (names, contents) else file }
  else { disk with files := disk.files ++ [(names, contents)] }

/-- Write a file, whether or not it was there. -/
def write (path contents : String) : DiskM Unit := do
  let disk ← get
  let names ← MonadExcept.ofExcept (disk.locate path)
  if disk.hasDir names then throw .isDirectory
  else set (disk.put names contents)

/-- The directories that stand at every root. -/
def rootDirs : List PathNames :=
  ["bin", "dev", "etc", "home", "proc", "tmp", "usr", "var"].map fun name => ["/", name]

/-- The device that is always empty. -/
def nullDevice : PathNames := ["/", "dev", "null"]

/-- A working directory that holds some files, on a system with nothing else of note. -/
def ofFiles (files : List (String × String)) : Disk where
  files := (files.map fun file => (PathNames.ofText file.1, file.2)) ++ [(nullDevice, "")]
  dirs := rootDirs

/-- The files of the working directory and below, by their paths. -/
def listing (disk : Disk) : List (String × String) :=
  (disk.files.filter fun file => file.1.isWithin).map fun file => (file.1.text, file.2)

end Disk

end ArrayOffload
