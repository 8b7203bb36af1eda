/-!
Files in a working directory, as a value: a list of paths and contents.  A folder is there as
soon as it holds a file.

* `locate` follows a name step by step; each step but the last has to end in a folder;
* `read` and `write` take a name to the text of a file and back.
-/

namespace AndInverter

/-- Why a file could not be read or written. -/
inductive FileError where
  | notFound
  | isDirectory
  | notDirectory
  | nameTooLong
  | zeroInName
  | notText
  /-- Anything else, in the words of the system. -/
  | other (text : String)
deriving DecidableEq

def FileError.message : FileError → String
  | .notFound => "No such file or directory (os error 2)"
  | .isDirectory => "Is a directory (os error 21)"
  | .notDirectory => "Not a directory (os error 20)"
  | .nameTooLong => "File name too long (os error 36)"
  | .zeroInName => "file name contained an unexpected NUL byte"
  | .notText => "stream did not contain valid UTF-8"
  | .other text => text

/-- The text in the bytes of a file. -/
def decodeText (content : ByteArray) : Except FileError String :=
  match String.fromUTF8? content with
  | some text => .ok text
  | none => .error .notText

/-- A path: the names from the outside in.  It starts in the working directory, unless its first
steps lead out of it. -/
abbrev Path := List String

/-- A step that leads out of the working directory. -/
def leadsOut (step : String) : Bool := step == ".." || step == "/"

/-- The greatest number of bytes in a step, and in a whole name. -/
def stepLimit : Nat := 255

def nameLimit : Nat := 4095

/-- Files by their paths. -/
structure Directory where
  files : List (Path × ByteArray) := []

/-- What stands at a path. -/
inductive Entry where
  | file (content : ByteArray)
  | folder
  | nothing

namespace Directory

/-- Is there a folder?  The folders around the working directory are there. -/
def isFolder (d : Directory) (path : Path) : Bool :=
  path.all leadsOut || d.files.any fun (other, _) => path.isPrefixOf other && path != other

/-- What stands at a path. -/
def entry (d : Directory) (path : Path) : Entry :=
  match d.files.find? (·.1 == path) with
  | some (_, content) => .file content
  | none => if d.isFolder path then .folder else .nothing

/-- One step on from a path, which has to be a folder. -/
def step (d : Directory) (path : Path) (name : String) : Except FileError Path :=
  match d.entry path with
  | .nothing => .error .notFound
  | .file _ => .error .notDirectory
  | .folder =>
    if name = "" ∨ name = "." then .ok path
    else if name = ".." then .ok (if path.all leadsOut then path ++ [".."] else path.dropLast)
    else if stepLimit < name.utf8ByteSize then .error .nameTooLong
    else .ok (path ++ [name])

/-- The path to which the steps of a name lead. -/
def locate (d : Directory) (name : String) (steps : List String) : Except FileError Path :=
  if name = "" then .error .notFound
  else if name.any (· = '\x00') then .error .zeroInName
  else if nameLimit < name.utf8ByteSize then .error .nameTooLong
  else steps.foldlM d.step (if steps.head? = some "" then ["/"] else [])

/-- What a name leads to. -/
def lookUp (d : Directory) (name : String) : Except FileError Entry :=
  return d.entry (← d.locate name (name.splitOn "/"))

/-- Is there anything of this name? -/
def has (d : Directory) (name : String) : Bool :=
  match d.lookUp name with
  | .ok (.file _) | .ok .folder => true
  | .ok .nothing | .error _ => false

/-- The text of a file. -/
def read (d : Directory) (name : String) : Except FileError String := do
  match ← d.lookUp name with
  | .file content => decodeText content
  | .folder => .error .isDirectory
  | .nothing => .error .notFound

/-- Puts a file at a path, in place of one that stands there. -/
def put (d : Directory) (path : Path) (content : ByteArray) : Directory :=
  ⟨d.files.filter (·.1 != path) ++ [(path, content)]⟩

/-- Writes a file.  A slash at the end of the name asks for a folder, which is refused. -/
def write (d : Directory) (name text : String) : Except FileError Directory := do
  let steps := name.splitOn "/"
  let path ← d.locate name (steps.reverse.dropWhile (· = "")).reverse
  if steps.getLast? = some "" then .error .isDirectory
  else
    match d.entry path with
    | .folder => .error .isDirectory
    | .file _ | .nothing => .ok (d.put path text.toUTF8)

/-- A directory that holds the given files. -/
def ofFiles (files : List (String × ByteArray)) : Directory :=
  files.foldl
    (fun d (name, content) =>
      d.put ((name.splitOn "/").filter fun s => s ≠ "" ∧ s ≠ ".") content)
    {}

end Directory

end AndInverter
