import AndInverter.Aiger.Load
import AndInverter.Directory

/-!
Circuit files on disk.
-/

namespace AndInverter.Aiger

/-- Why no network could be read from a file. -/
inductive FileLoadError where
  | unreadable (name : String) (cause : FileError)
  | refused (cause : LoadError)
deriving DecidableEq

def FileLoadError.message : FileLoadError → String
  | .unreadable name cause => s!"failed to read {name}: {cause.message}"
  | .refused cause => cause.message

/-- Reads a network from what reading a file gave. -/
def loadFile (name : String) (content : Except FileError String) :
    Except FileLoadError Network :=
  match content with
  | .error cause => .error (.unreadable name cause)
  | .ok text =>
    match load text with
    | .error cause => .error (.refused cause)
    | .ok n => .ok n

end AndInverter.Aiger
