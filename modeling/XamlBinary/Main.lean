import XamlBinary.Dump.Run

/-!
The dump tool as a program, on the file system of the machine.
-/

namespace XamlBinary.Dump.Machine

/-- An error of the operating system.  Its number may come with either sign. -/
def deviceError : IO.Error → DeviceError
  | .noFileOrDirectory .. => .notFound
  | .alreadyExists .. => .alreadyExists
  | .inappropriateType _ code _ =>
      if code.toInt32.toInt.natAbs = 21 then .isADirectory else .notADirectory
  | .permissionDenied _ code details =>
      let number := code.toInt32.toInt.natAbs
      .other s!"{details} (os error {number})"
  | error => .other (toString error)

def attempt {α : Type} (action : IO α) : IO (Except DeviceError α) := do
  try
    pure (.ok (← action))
  catch error =>
    pure (.error (deviceError error))

/-- What a path names: a directory can be opened but not read. -/
def kind? (path : String) : IO (Option EntryKind) := do
  match ← attempt (IO.FS.Handle.mk path .read) with
  | .error _ => pure none
  | .ok handle =>
      match ← attempt (handle.read 1) with
      | .error .isADirectory => pure (some .directory)
      | _ => pure (some .file)

def read (path : String) : IO (Except DeviceError Content) := do
  match ← kind? path with
  | some .directory => pure (.ok .directory)
  | _ =>
      match ← attempt (IO.FS.readBinFile path) with
      | .ok bytes => pure (.ok (.bytes bytes.toList))
      | .error cause => pure (.error cause)

def create (path : String) : IO (Except DeviceError Unit) :=
  attempt do
    let _ ← IO.FS.Handle.mk path .write
    pure ()

def fileSystem : FileSystem IO where
  kind? := kind?
  makeDirectory path := attempt (IO.FS.createDir path)
  create := create
  write path text := attempt (IO.FS.writeFile path text)
  read := read

end XamlBinary.Dump.Machine

def main (arguments : List String) : IO UInt32 := do
  let invocation := XamlBinary.Dump.Invocation.ofArguments arguments
  let report ← XamlBinary.Dump.perform XamlBinary.Dump.Machine.fileSystem invocation
  IO.print report.stdout
  IO.eprint report.stderr
  pure report.exitCode
