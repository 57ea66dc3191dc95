import Esoterica.CommandLine.Host

/-!
A host in memory: the files of a working directory, and what has been printed. Around the directory
are those that every system has, empty but for the null device. Chance is always the same, so that
under a clock that stands still every command has one answer.
-/

namespace Esoterica.CommandLine

/-- Why a path leads to no file. -/
inductive PathError where
  | missing
  | throughFile
  | isDirectory
  | nameTooLong
deriving DecidableEq, Repr

/-- The reason in the words of the system. -/
def PathError.text : PathError → String
  | missing => "No such file or directory (os error 2)"
  | throughFile => "Not a directory (os error 20)"
  | isDirectory => "Is a directory (os error 21)"
  | nameTooLong => "File name too long (os error 36)"

/-- The names on the way from the top of the system to a file. -/
abbrev Path := List String

/-- Files, with what has been written to the two outputs. -/
structure Directory where
  files : List (Path × List UInt8) := []
  printed : String := ""
  complaints : String := ""

namespace Directory

/-- The names between the slashes of a path. -/
def names (path : String) : List String :=
  path.splitToList (· == '/')

/-- The working directory. It has no name, so that no path leads into it from elsewhere. -/
def workingPlace : Path :=
  ["tmp", ""]

/-- The directories at the top of every system. -/
def topDirectories : List String :=
  ["bin", "boot", "dev", "etc", "home", "lib", "media", "mnt", "opt", "proc", "root", "run", "sbin",
    "srv", "sys", "tmp", "usr", "var"]

/-- The device that is always empty. -/
def nullDevice : Path :=
  ["dev", "null"]

/-- A working directory with these files. -/
def ofFiles (files : List (String × List UInt8)) : Directory where
  files := files.map fun (path, bytes) => (workingPlace ++ names path, bytes)

def contents? (directory : Directory) (place : Path) : Option (List UInt8) :=
  if place = nullDevice then some [] else directory.files.lookup place

/-- Whether there is a directory at a place: one that every system has, the working directory, or one
that holds files. -/
def isDirectory (directory : Directory) (place : Path) : Bool :=
  place.isPrefixOf workingPlace || topDirectories.any (place == [·]) ||
    directory.files.any fun (file, _) => place.isPrefixOf file && place != file

/-- The most bytes of a name. -/
def nameLimit : Nat := 255

/-- The most bytes of a path. -/
def pathLimit : Nat := 4095

/-- Follows names from a place. Every place that is left must be a directory. -/
def walk (directory : Directory) (place : Path) : List String → Except PathError Path
  | [] => .ok place
  | name :: rest =>
    if directory.isDirectory place then
      if name = "" ∨ name = "." then walk directory place rest
      else if name = ".." then walk directory place.dropLast rest
      else if nameLimit < name.utf8ByteSize then .error .nameTooLong
      else walk directory (place ++ [name]) rest
    else if (directory.contents? place).isSome then .error .throughFile
    else .error .missing

/-- The place to which the names of a path lead. A path that starts with a slash starts at the top. -/
def follow (directory : Directory) : List String → Except PathError Path
  | "" :: rest => directory.walk [] rest
  | names => directory.walk workingPlace names

/-- The place to which a path leads. -/
def locate (directory : Directory) (path : String) : Except PathError Path :=
  if pathLimit < path.utf8ByteSize then .error .nameTooLong
  else directory.follow (names path)

/-- Whether the slashes at the end of a path follow a name, which is then that of a directory. -/
def namesDirectory (path : String) : Bool :=
  path.endsWith "/" &&
    ((names path).reverse.find? (· != "")).any fun name => name != "." && name != ".."

/-- The names on the way to the directory in which a path ends. -/
def parentNames (path : String) : List String :=
  ((names path).reverse.dropWhile (· == "")).tail.reverse

def read (directory : Directory) (path : String) : Except PathError (List UInt8) := do
  let place ← directory.locate path
  if directory.isDirectory place then .error .isDirectory
  else match directory.contents? place with
    | some bytes => .ok bytes
    | none => .error .missing

/-- The place of a file that is to be written, which need not be there yet. The directory around it
must be, and a name that says directory is refused before it is looked up. -/
def locateNew (directory : Directory) (path : String) : Except PathError Path := do
  if pathLimit < path.utf8ByteSize then
    .error .nameTooLong
  if namesDirectory path then
    let _ ← directory.follow (parentNames path ++ ["."])
    .error .isDirectory
  let place ← directory.follow (names path)
  if directory.isDirectory place then
    .error .isDirectory
  return place

def write (directory : Directory) (path : String) (bytes : List UInt8) :
    Except PathError Directory := do
  let place ← directory.locateNew path
  if place = nullDevice then
    return directory
  return { directory with
    files := (place, bytes) :: directory.files.filter fun (file, _) => file != place }

section

variable {m : Type → Type} [Monad m]

/-- The directory as a host with some clock. -/
def host (now : m Nat) : Host (StateT Directory m) where
  readFile path := do
    let directory ← get
    return (directory.read path).mapError PathError.text
  writeFile path bytes := do
    let directory ← get
    match directory.write path bytes with
    | .ok changed =>
      set changed
      return .ok ()
    | .error error => return .error error.text
  print text := modify fun directory => { directory with printed := directory.printed ++ text }
  complain text :=
    modify fun directory => { directory with complaints := directory.complaints ++ text }
  now := now
  chance := pure 0

/-- Carries out a command line in a directory. -/
def perform (now : m Nat) (directory : Directory) (line : List String) :
    m (UInt32 × Directory) :=
  (CommandLine.perform (host now) line).run directory

end

end Directory

end Esoterica.CommandLine
