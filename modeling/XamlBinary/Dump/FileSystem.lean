import XamlBinary.Fault

/-!
What the dump tool needs of a file system, as operations in any monad.
-/

namespace XamlBinary.Dump

inductive EntryKind where
  | file
  | directory
deriving DecidableEq, Repr

/-- What there is to read behind a name that could be opened. -/
inductive Content where
  | bytes (bytes : List UInt8)
  | directory
deriving DecidableEq, Repr

structure FileSystem (m : Type → Type) where
  /-- What a path names, if it names anything. -/
  kind? : String → m (Option EntryKind)
  /-- Makes a directory in one that exists. -/
  makeDirectory : String → m (Except DeviceError Unit)
  /-- Makes an empty file, or empties an existing one. -/
  create : String → m (Except DeviceError Unit)
  /-- Sets the text of a file that was created. -/
  write : String → String → m (Except DeviceError Unit)
  read : String → m (Except DeviceError Content)

end XamlBinary.Dump
