import AndInverter.CommandLine.Run

/-!
The program on a real machine.
-/

namespace AndInverter.CommandLine

/-- The number of a system error, which some calls give with a negative sign. -/
def errorNumber (code : UInt32) : UInt32 := if code < 0x80000000 then code else 0 - code

/-- A file error for what the system says. -/
def fileError : IO.Error → FileError
  | .noFileOrDirectory .. => .notFound
  | .inappropriateType _ code _ =>
    if errorNumber code = 20 then .notDirectory else .isDirectory
  | .permissionDenied _ code _ => .other s!"Permission denied (os error {errorNumber code})"
  | e => .other (toString e)

/-- The machine as a host. -/
def machine : Host IO where
  hasFile name := do
    try
      let _ ← IO.FS.Handle.mk name .read
      return true
    catch _ => return false
  readText name := do
    try
      return decodeText (← IO.FS.readBinFile name)
    catch e => return .error (fileError e)
  writeText name text := do
    try
      IO.FS.writeFile name text
      return .ok ()
    catch e => return .error (fileError e)
  print := IO.print
  complain := IO.eprint

end AndInverter.CommandLine

def main (args : List String) : IO UInt32 :=
  AndInverter.CommandLine.run AndInverter.CommandLine.machine args
