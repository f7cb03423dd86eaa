import XamlBinary.Header.Basic
import XamlBinary.Text.Hex

/-!
Everything that can go wrong while a file is read.  A `Fault` is a cause with
the place where it was found; `Fault.message` is its only wording.  Offsets
count from the start of whatever was being read: a fault found in a slice is
moved to its place in the file by `Fault.rebase`.
-/

namespace XamlBinary

/-- Tables that an index can point into. -/
inductive Table where
  | strings
  | assemblies
  | typeNamespaces
  | types
  | properties
  | xmlNamespaces
  | knownTypes
  | knownProperties
  | knownXmlNamespaces
  | visualStateGroups
deriving DecidableEq, Repr

def Table.name : Table → String
  | strings => "strings"
  | assemblies => "assemblies"
  | typeNamespaces => "type namespaces"
  | types => "types"
  | properties => "properties"
  | xmlNamespaces => "xml namespaces"
  | knownTypes => "known types"
  | knownProperties => "known properties"
  | knownXmlNamespaces => "known xml namespaces"
  | visualStateGroups => "visual state groups"

/-- Failures of what lies below a stream: the device, or the file system. -/
inductive DeviceError where
  | readFailure
  | seekFailure
  | endOfFile
  | notFound
  | notADirectory
  | isADirectory
  | alreadyExists
  | other (description : String)
deriving DecidableEq, Repr

def DeviceError.message : DeviceError → String
  | readFailure => "injected failure"
  | seekFailure => "injected seek failure"
  | endOfFile => "unexpected end of file"
  | notFound => "No such file or directory (os error 2)"
  | notADirectory => "Not a directory (os error 20)"
  | isADirectory => "Is a directory (os error 21)"
  | alreadyExists => "File exists (os error 17)"
  | other description => description

/-- Reasons to say that a stream holds no file of the format. -/
inductive FormatFault where
  | noMagic
  | wrongMagic (found : List UInt8)
  | tooShort (length : Nat)
  | sizesMisfit (metadataSize nodeStreamSize : UInt32) (length : Nat) (layout : HeaderLayout)
  | unsupportedVersion (version : Version)
deriving DecidableEq, Repr

/-- Bytes as a bracketed list of two-digit numbers. -/
def byteListText (bytes : List UInt8) : String :=
  "[" ++ ", ".intercalate (bytes.map fun b => Hex.upper 2 b.toNat) ++ "]"

def FormatFault.message : FormatFault → String
  | noMagic => "stream is too short to hold the magic number"
  | wrongMagic found =>
      "magic number " ++ byteListText found ++ " does not match " ++ byteListText Header.magic
  | tooShort length => s!"stream of {length} bytes is too short to hold a header"
  | sizesMisfit metadataSize nodeStreamSize length layout =>
      s!"declared sizes (metadata {metadataSize}, node-stream {nodeStreamSize}) " ++
        s!"do not fit a {length} byte stream with a {layout.name} header"
  | unsupportedVersion version =>
      s!"unsupported file version {version.major}.{version.minor}"

/-- Reasons to reject the bytes of a section.  `what` names the field being read. -/
inductive DataFault where
  /-- A value is cut by the end of the data. -/
  | endOfData (what : String)
  /-- A run of bytes is cut by the end of the data. -/
  | shortRun (what : String) (needed found : Nat)
  | notBoolean (what : String) (byte : UInt8)
  | wideVarint (what : String)
  | negativeLength (what : String) (length : Int32)
  | invalidUtf16 (what : String)
  | negativeCount (what : String) (count : Int32)
  | negative (what : String) (value : Int32)
  | unknownAssemblyKind (number : UInt32)
  | metadataSizeMismatch (consumed size : Nat)
  | trustedString (index : UInt16)
  | unknownNodeKind (tag : UInt8)
  | unknownConstantKind (tag : UInt8)
  | unknownGridUnit (number : UInt32)
  | unknownRuntimeData (number : Int32)
  | unknownSetterValue (tag : UInt8)
  | bytesAfterEnd (count : Nat)
  | missingEnd
  | lineOrder (offset previous : UInt32)
  | substreamTableOverflow (entries : Nat) (sectionSize : UInt32)
  | substreamStart (index expected : Nat)
  | lineBeforeNode (index : Nat) (lineOffset nodeOffset : UInt32)
  | lineEndOutside (index : Nat)
  | substreamsEnd (position sectionEnd : Nat)
  | missingSubstream (index : UInt32) (count : Nat)
deriving DecidableEq, Repr

def DataFault.message : DataFault → String
  | endOfData what => s!"unexpected end of data while reading {what}"
  | shortRun what needed found =>
      s!"unexpected end of data while reading {what} (need {needed} bytes, have {found})"
  | notBoolean what byte => s!"`{byte}` is not a valid boolean for {what}"
  | wideVarint what => s!"7-bit encoded {what} does not fit in 32 bits"
  | negativeLength what length => s!"negative string length `{length}` for {what}"
  | invalidUtf16 what => s!"invalid UTF-16 data in {what}"
  | negativeCount what count => s!"negative element count `{count}` for {what}"
  | negative what value => s!"negative {what} `{value}`"
  | unknownAssemblyKind number => s!"unknown assembly kind `{number}`"
  | metadataSizeMismatch consumed size =>
      s!"metadata tables end after {consumed} bytes, but the section is {size} bytes long"
  | trustedString index =>
      s!"string reference {index} is marked trusted, but there are no built-in strings"
  | unknownNodeKind tag => "unknown node type `0x" ++ Hex.lower 2 tag.toNat ++ "`"
  | unknownConstantKind tag => "unrecognized constant type `0x" ++ Hex.lower 2 tag.toNat ++ "`"
  | unknownGridUnit number => s!"unknown grid unit type `{number}`"
  | unknownRuntimeData number => s!"unrecognized custom runtime data type `{number}`"
  | unknownSetterValue tag => s!"unknown setter value kind `{tag}`"
  | bytesAfterEnd count => s!"{count} bytes follow the end of the node-stream"
  | missingEnd => "node-stream is missing its EndOfStream node"
  | lineOrder offset previous => s!"line info node offset {offset} goes back from {previous}"
  | substreamTableOverflow entries sectionSize =>
      s!"substream table of {entries} entries overflows the {sectionSize} byte node-stream section"
  | substreamStart index expected => s!"substream {index} should start at offset {expected}"
  | lineBeforeNode index lineOffset nodeOffset =>
      s!"substream {index} line-stream offset {lineOffset} precedes its " ++
        s!"node-stream offset {nodeOffset}"
  | lineEndOutside index =>
      s!"substream {index} line-stream ends outside of the node-stream section"
  | substreamsEnd position sectionEnd =>
      s!"substreams end at offset {position}, but the node-stream section ends at {sectionEnd}"
  | missingSubstream index count =>
      s!"custom runtime data defers to substream {index}, but the file has {count}"

/-- A cause with the place where it was found. -/
inductive Fault where
  | invalidFormat (offset : Nat) (reason : FormatFault)
  | malformed (offset : Nat) (reason : DataFault)
  | indexOutOfRange (table : Table) (index length : Nat)
  /-- A read or a seek failed while `what` was wanted. -/
  | device (offset : Nat) (what : String) (cause : DeviceError)
deriving DecidableEq, Repr

namespace Fault

def offset? : Fault → Option Nat
  | invalidFormat offset _ => some offset
  | malformed offset _ => some offset
  | indexOutOfRange _ _ _ => none
  | device offset _ _ => some offset

def message : Fault → String
  | invalidFormat offset reason => s!"Offset {offset}: invalid XBF file: " ++ reason.message
  | malformed offset reason => s!"Offset {offset}: malformed data: " ++ reason.message
  | indexOutOfRange table index length =>
      s!"index {index} out of range for {table.name} (len={length})"
  | device offset what _ =>
      s!"Offset {offset}: an I/O error has occurred while trying to read {what}"

/-- The failure of the device underneath, if that is what happened. -/
def cause? : Fault → Option DeviceError
  | device _ _ cause => some cause
  | _ => none

/-- Moves a fault found in a slice that begins at `base`. -/
def rebase (base : Nat) : Fault → Fault
  | invalidFormat offset reason => invalidFormat (base + offset) reason
  | malformed offset reason => malformed (base + offset) reason
  | indexOutOfRange table index length => indexOutOfRange table index length
  | device offset what cause => device (base + offset) what cause

@[simp] theorem offset?_rebase (base : Nat) (fault : Fault) :
    (fault.rebase base).offset? = fault.offset?.map (base + ·) := by
  cases fault <;> rfl

@[simp] theorem rebase_zero (fault : Fault) : fault.rebase 0 = fault := by
  cases fault <;> simp [rebase]

theorem rebase_rebase (first second : Nat) (fault : Fault) :
    (fault.rebase first).rebase second = fault.rebase (second + first) := by
  cases fault <;> simp [rebase, Nat.add_assoc]

end Fault

end XamlBinary
