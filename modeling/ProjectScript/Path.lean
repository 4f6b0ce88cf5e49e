import ProjectScript.Text.Cut

/-!
# Paths

Paths as texts, with `/` between the names. Nothing here looks at a file system: two slashes in a
row count as one, a name `.` that does not open the path counts as nothing, and `..` is kept.

* `join`: a path below a directory, unless it is absolute;
* `parent?`, `fileName?`, `extension?`: the parts of a path;
* `absolute?`: the absolute path that a path means in a directory; only the empty path means none.
-/

namespace ProjectScript.Path

/-- Whether a path starts at the root. -/
def isAbsolute (p : String) : Bool := p.toList.head? == some '/'

/-- The path of `p` seen from the directory `base`. -/
def join (base p : String) : String :=
  if isAbsolute p ∨ base.isEmpty then p
  else if base.toList.getLast? = some '/' then base ++ p
  else base ++ "/" ++ p

/-- A part between slashes that counts as nothing. -/
def isVoid (part : List Char) : Bool := part == [] || part == ['.']

/-- Drops the void parts at the end. -/
def dropVoid (parts : List (List Char)) : List (List Char) :=
  (parts.reverse.dropWhile isVoid).reverse

/-- The first part of a path, which is empty for an absolute one, and the parts that follow, up to
the last one that counts. -/
def split (p : String) : List Char × List (List Char) :=
  let parts := Text.cut '/' p.toList
  (parts.headD [], dropVoid parts.tail)

/-- The path without its last name; none for the root and for the empty path. -/
def parent? (p : String) : Option String :=
  match split p with
  | ([], []) => none
  | (_, []) => some ""
  | (first, rest) =>
    match dropVoid rest.dropLast with
    | [] => some (if first.isEmpty then "/" else String.ofList first)
    | rest => some (String.ofList (Text.join '/' (first :: rest)))

/-- The last name of a path, unless that is `.` or `..`. -/
def fileName? (p : String) : Option (List Char) :=
  let (first, rest) := split p
  let name := rest.getLast?.getD first
  if isVoid name ∨ name = ['.', '.'] then none else some name

/-- What follows the last dot of a file's name, if something stands before that dot. -/
def extension? (p : String) : Option (List Char) :=
  (fileName? p).bind fun name =>
    match name.reverse.dropWhile (· ≠ '.') with
    | _ :: _ :: _ => some (name.reverse.takeWhile (· ≠ '.')).reverse
    | _ => none

/-- Whether the extension of a path is one of the given ones, in either case. -/
def hasExtension (p : String) (exts : List String) : Bool :=
  (extension? p).any fun e => exts.contains (String.ofList (e.map Char.toLower))

/-- Whether a path has the extension of a project file. -/
def isProjectFile (p : String) : Bool := hasExtension p ["yml", "yaml", "toml"]

/-- Whether a path has the extension of TOML. -/
def isToml (p : String) : Bool := hasExtension p ["toml"]

/-! ## Absolute paths -/

/-- The names of a path. -/
def names (p : String) : List (List Char) := (Text.cut '/' p.toList).filter (!isVoid ·)

/-- What an absolute path starts with: exactly two slashes are kept. -/
def rootOf (p : String) : List Char :=
  match p.toList with
  | '/' :: '/' :: '/' :: _ => ['/']
  | '/' :: '/' :: _ => ['/', '/']
  | _ => ['/']

/-- A directory with a slash at the end. -/
def closed (dir : List Char) : List Char :=
  if dir.isEmpty ∨ dir.getLast? = some '/' then dir else dir ++ ['/']

/-- Names below a directory, with a slash at the end if `dir` says so. -/
def below (start : List Char) (names : List (List Char)) (dir : Bool) : String :=
  let path := if names.isEmpty then start else closed start ++ Text.join '/' names
  String.ofList (if dir then closed path else path)

/-- The absolute path that `p` means in the directory `here`; none for the empty path. -/
def absolute? (here p : String) : Option String :=
  if p.isEmpty then none
  else
    let start := if isAbsolute p then rootOf p else here.toList
    some (below start (names p) (p.toList.getLast? == some '/'))

/-- The absolute path that `p` means in the directory `base`, or without one in `here`. -/
def absolutize? (here : String) (base : Option String) (p : String) : Option String :=
  absolute? here (match base with
    | some base => join base p
    | none => p)

end ProjectScript.Path
