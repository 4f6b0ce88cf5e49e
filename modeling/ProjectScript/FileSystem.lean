import ProjectScript.Path

/-!
# File systems

A tree of directories and files. Each entry has a location, the names on the way to it from the
root; `at?` says what stands there. A path means a location only as long as every directory on
its way exists, `..` leads to the parent, and a slash at the end asks for a directory.

* `locate`: the location that a path means;
* `read`: the text of a file;
* `write`: a file with a new text;
* `makeDir`, `makeDirs`: a new directory, alone or with those on the way to it.
-/

namespace ProjectScript

/-- Why an operation on files or programs fails. -/
inductive Failure
  | notFound
  | permissionDenied
  | alreadyExists
  | notDirectory
  | isDirectory
  | nameTooLong
  | nulInPath
  | notText
  | notProgram
  | brokenPipe
  /-- Any other failure, with its wording. -/
  | other (wording : String)
  deriving DecidableEq, Repr

/-- The wording of a failure. -/
def Failure.text : Failure → String
  | notFound => "No such file or directory (os error 2)"
  | permissionDenied => "Permission denied (os error 13)"
  | alreadyExists => "File exists (os error 17)"
  | notDirectory => "Not a directory (os error 20)"
  | isDirectory => "Is a directory (os error 21)"
  | nameTooLong => "File name too long (os error 36)"
  | nulInPath => "file name contained an unexpected NUL byte"
  | notText => "stream did not contain valid UTF-8"
  | notProgram => "Exec format error (os error 8)"
  | brokenPipe => "Broken pipe (os error 32)"
  | other wording => wording

/-- The bytes of a file: a text, or bytes that are no text. -/
inductive Content
  | text (s : String)
  | binary
  deriving DecidableEq, Repr

/-- What stands at a location. -/
inductive Entry
  | directory
  | file (content : Content) (executable : Bool)
  deriving DecidableEq, Repr

/-- The names on the way from the root to an entry. -/
abbrev Location := List (List Char)

/-- A file system: what stands at each location. -/
structure FileSystem where
  at? : Location → Option Entry

namespace FileSystem

/-- The file system that holds nothing but its root. -/
def empty : FileSystem := ⟨fun l => if l = [] then some .directory else none⟩

instance : Inhabited FileSystem := ⟨empty⟩

/-- Puts an entry at a location, or takes it away. -/
def set (fs : FileSystem) (l : Location) (e : Option Entry) : FileSystem :=
  ⟨fun m => if m = l then e else fs.at? m⟩

@[simp] theorem at?_set (fs : FileSystem) (l m : Location) (e : Option Entry) :
    (fs.set l e).at? m = if m = l then e else fs.at? m := rfl

/-- The entry at a location, if it is a directory. -/
def directory? (fs : FileSystem) (l : Location) : Except Failure Unit :=
  match fs.at? l with
  | none => .error .notFound
  | some (.file ..) => .error .notDirectory
  | some .directory => .ok ()

/-- The longest name that an entry may have, in bytes. -/
def nameLimit : Nat := 255

/-- The location that one name leads to from a directory. -/
def step (here : Location) (name : List Char) : Location :=
  if name = ['.'] then here
  else if name = ['.', '.'] then here.dropLast
  else here ++ [name]

/-- The location that names lead to. The last name need not be there. -/
def walk (fs : FileSystem) (here : Location) : List (List Char) → Except Failure Location
  | [] => .ok here
  | name :: names => do
    fs.directory? here
    if nameLimit < (String.ofList name).utf8ByteSize then .error .nameTooLong
    else walk fs (step here name) names

/-- The names of a path with those of `.` and `..` among them. -/
def steps (p : String) : List (List Char) := (Text.cut '/' p.toList).filter (!·.isEmpty)

/-- The location of a directory given by an absolute path in plain form. -/
def locationOf (dir : String) : Location := steps dir

/-- Where the names of a path count from. -/
def origin (cwd : Location) (p : String) : Location := if Path.isAbsolute p then [] else cwd

/-- The names that a path is followed along; a slash at the end asks for a directory. -/
def route (p : String) : List (List Char) :=
  if p.toList.getLast? = some '/' then steps p ++ [['.']] else steps p

/-- Whether a text can be a path at all. -/
def check (p : String) : Except Failure Unit :=
  if p.toList.contains '\x00' then .error .nulInPath
  else if p.isEmpty then .error .notFound
  else .ok ()

/-- The location that a path means. -/
def locate (fs : FileSystem) (cwd : Location) (p : String) : Except Failure Location := do
  check p
  fs.walk (origin cwd p) (route p)

/-- What stands at the end of a path. -/
def entry (fs : FileSystem) (cwd : Location) (p : String) : Except Failure Entry := do
  match fs.at? (← fs.locate cwd p) with
  | some e => return e
  | none => .error .notFound

/-- Whether a path leads to anything. -/
def pathExists (fs : FileSystem) (cwd : Location) (p : String) : Bool :=
  (fs.entry cwd p).toBool

/-- Whether a path leads to a file. -/
def isFile (fs : FileSystem) (cwd : Location) (p : String) : Bool :=
  match fs.entry cwd p with
  | .ok (.file ..) => true
  | _ => false

/-- Whether a path leads to a directory. -/
def isDirectory (fs : FileSystem) (cwd : Location) (p : String) : Bool :=
  match fs.entry cwd p with
  | .ok .directory => true
  | _ => false

/-- The text of a file. -/
def read (fs : FileSystem) (cwd : Location) (p : String) : Except Failure String := do
  match ← fs.entry cwd p with
  | .directory => .error .isDirectory
  | .file .binary _ => .error .notText
  | .file (.text s) _ => return s

/-- The file system in which a file has a new text. A new file is not executable. -/
def write (fs : FileSystem) (cwd : Location) (p : String) (s : String) :
    Except Failure FileSystem := do
  let l ← fs.locate cwd p
  match fs.at? l with
  | some .directory => .error .isDirectory
  | some (.file _ x) => return fs.set l (some (.file (.text s) x))
  | none => return fs.set l (some (.file (.text s) false))

/-! ## Directories -/

/-- The file system with a new directory. -/
def makeDir (fs : FileSystem) (cwd : Location) (p : String) : Except Failure FileSystem := do
  check p
  let names := steps p
  let here ← fs.walk (origin cwd p) names.dropLast
  match names.getLast? with
  | none => .error .alreadyExists
  | some name =>
    let l ← fs.walk here [name]
    if name = ['.'] ∨ name = ['.', '.'] then .error .alreadyExists
    else
      match fs.at? l with
      | some _ => .error .alreadyExists
      | none => return fs.set l (some .directory)

/-- A path and the paths of its ancestors, innermost first, up to the empty path. -/
def ancestors : (fuel : Nat) → String → List String
  | 0, _ => []
  | fuel + 1, p =>
    if p.isEmpty then []
    else p :: (Path.parent? p).elim [] (ancestors fuel)

/-- Makes the first of some directories, each below the next one; one that is there already is
left alone. Directories made before a failure stay. -/
def makeChain (cwd : Location) : List String → FileSystem → Except Failure Unit × FileSystem
  | [], fs => (.ok (), fs)
  | p :: ps, fs =>
    match fs.makeDir cwd p with
    | .ok fs => (.ok (), fs)
    | .error .notFound =>
      match makeChain cwd ps fs with
      | (.error e, fs) => (.error e, fs)
      | (.ok (), fs) =>
        match fs.makeDir cwd p with
        | .ok fs => (.ok (), fs)
        | .error e => (if fs.isDirectory cwd p then .ok () else .error e, fs)
    | .error e => (if fs.isDirectory cwd p then .ok () else .error e, fs)

/-- Makes a directory and those on the way to it. -/
def makeDirs (fs : FileSystem) (cwd : Location) (p : String) : Except Failure Unit × FileSystem :=
  makeChain cwd (ancestors (p.length + 1) p) fs

end FileSystem

end ProjectScript
