import CodeAudit.Text.Basic

/-!
# Files

The files within reach, by path. A path is cut at its slashes; empty steps and `.` do not count and
`..` takes a step back.

* `Files.read`, `Files.write`: the content of a file, and the files with new content.
-/
namespace CodeAudit

/-- The steps of a path; those of an absolute path start with a slash. -/
abbrev Path := List Text

/-- The files and the known folders. -/
structure Files where
  contents : List (Path × Text) := []
  folders : List Path := []
  deriving DecidableEq, Repr

/-- What stands at a path. -/
inductive Place where
  | file (content : Text)
  | folder
  /-- Nothing, in a folder. -/
  | vacant
  /-- Nothing, and no folder to put it in. -/
  | nowhere
  /-- A file stands where the path needs a folder. -/
  | blocked
  deriving DecidableEq, Repr

/-- What failed. -/
inductive FileAction where
  | opening
  | reading
  deriving DecidableEq, Repr

/-- Why it failed. -/
inductive FileFault where
  | missing
  | isFolder
  | notFolder
  deriving DecidableEq, Repr

/-- A failure at a path. -/
structure FileError where
  action : FileAction
  path : Text
  fault : FileFault
  deriving DecidableEq, Repr

def FileFault.message : FileFault → Text
  | .missing => "no such file or directory"
  | .isFolder => "is a directory"
  | .notFolder => "not a directory"

def FileError.message (e : FileError) : Text :=
  (match e.action with
    | .opening => utf8 "open "
    | .reading => utf8 "read ") ++ e.path ++ ": " ++ e.fault.message

namespace Path

def step (p : Path) (s : Text) : Path :=
  if s.isEmpty || s == utf8 "." then p
  else if s == utf8 ".." then
    match p.getLast? with
    | none => [s]
    | some l => if l == s then p ++ [s] else if l == utf8 "/" then p else p.dropLast
  else p ++ [s]

def ofText (t : Text) : Path :=
  (Text.splitOn 47 t).foldl step (if t.head? == some 47 then ["/"] else [])

/-- Whether a path leads only outwards or to the root, where there are folders. -/
def isOuter (p : Path) : Bool := p == [utf8 "/"] || p.all (· == utf8 "..")

end Path

namespace Files

def ofList (l : List (Text × Text)) : Files := ⟨l.map fun (n, t) => (.ofText n, t), []⟩

def content? (f : Files) (p : Path) : Option Text := f.contents.lookup p

/-- Whether there is a folder at a path: it is known, or something is in it. -/
def isFolder (f : Files) (p : Path) : Bool :=
  Path.isOuter p || f.folders.contains p || (f.contents.any fun (q, _) => p.isPrefixOf q && p != q)

def place (f : Files) (name : Text) : Place :=
  let p : Path := .ofText name
  if name.isEmpty then .nowhere
  else match f.content? p with
    | some t => if Text.endsWith name "/" then .blocked else .file t
    | none =>
      if f.isFolder p then .folder
      else if f.isFolder p.dropLast then .vacant
      else if f.contents.any fun (q, _) => q.isPrefixOf p then .blocked
      else .nowhere

def read (f : Files) (name : Text) : Except FileError Text :=
  match f.place name with
  | .file t => .ok t
  | .folder => .error ⟨.reading, name, .isFolder⟩
  | .vacant | .nowhere => .error ⟨.opening, name, .missing⟩
  | .blocked => .error ⟨.opening, name, .notFolder⟩

def put (f : Files) (p : Path) (t : Text) : Files :=
  { f with contents := (p, t) :: f.contents.filter fun c => c.1 != p }

/-- The files with a new content at a path. -/
def write (f : Files) (name : Text) (t : Text) : Except FileError Files :=
  match f.place name with
  | .file _ => .ok (f.put (.ofText name) t)
  | .vacant =>
    if Text.endsWith name "/" then .error ⟨.opening, name, .isFolder⟩ else .ok (f.put (.ofText name) t)
  | .folder => .error ⟨.opening, name, .isFolder⟩
  | .nowhere => .error ⟨.opening, name, .missing⟩
  | .blocked => .error ⟨.opening, name, .notFolder⟩

end Files
end CodeAudit
