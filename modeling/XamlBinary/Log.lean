import XamlBinary.Fault

/-!
What a reader reports besides its result: warnings about oddities that it
tolerates, and notes on its progress.
-/

namespace XamlBinary

/-- How far the reading of a file has come.  The stages are entered in this order. -/
inductive Stage where
  | unopened
  | headerValidated
  | metadataLoaded
  | substreamsLoaded
  | complete
deriving DecidableEq, Repr

def Stage.name : Stage → String
  | unopened => "Unopened"
  | headerValidated => "HeaderValidated"
  | metadataLoaded => "MetadataLoaded"
  | substreamsLoaded => "SubstreamsLoaded"
  | complete => "Complete"

inductive Warning where
  | unknownTypeFlags (flags : UInt32)
  | unknownPropertyFlags (flags : UInt32)
  /-- A trusted index that the registry has no entry for. -/
  | unknownStableIndex (registry : Table) (index : UInt16)
  | positionNotRestored (position : Nat) (cause : DeviceError)
deriving DecidableEq, Repr

def Warning.text : Warning → String
  | unknownTypeFlags flags =>
      "Type flags `0x" ++ Hex.lower 8 flags.toNat ++ "` carry unknown bits"
  | unknownPropertyFlags flags =>
      "Property flags `0x" ++ Hex.lower 8 flags.toNat ++ "` carry unknown bits"
  | unknownStableIndex registry index =>
      s!"Trusted index {index} has no entry in {registry.name}, keeping it as a stable index"
  | positionNotRestored position cause =>
      s!"Failed to restore stream position to {position}: {cause.message}"

inductive Note where
  | stage (before after : Stage)
  | header (header : Header)
  | metadataSection (offset : Nat) (size : UInt32)
  | metadataCounts
      (strings assemblies typeNamespaces types properties xmlNamespaces : Nat)
  | substreamTable (count offset : Nat)
  | substream (index nodeSize lineSize : Nat)
deriving DecidableEq, Repr

/-- The version as it stands in a note. -/
def versionNote : Option Version → String
  | none => "None"
  | some version =>
      s!"Some(XbfFileVersion \x7b major: {version.major}, minor: {version.minor} \x7d)"

def Note.text : Note → String
  | stage before after => s!"Parse stage {before.name} -> {after.name}"
  | header h =>
      s!"Header: metadata {h.metadataSize} bytes, node-stream {h.nodeStreamSize} bytes, " ++
        "version " ++ versionNote h.version
  | metadataSection offset size => s!"Metadata section at offset {offset} ({size} bytes)"
  | metadataCounts strings assemblies typeNamespaces types properties xmlNamespaces =>
      s!"Metadata: {strings} strings, {assemblies} assemblies, " ++
        s!"{typeNamespaces} type namespaces, {types} types, {properties} properties, " ++
        s!"{xmlNamespaces} xml namespaces"
  | substreamTable count offset => s!"{count} substreams starting at offset {offset}"
  | substream index nodeSize lineSize =>
      s!"Substream {index}: {nodeSize} byte node-stream, {lineSize} byte line-stream"

inductive Message where
  | warning (warning : Warning)
  | note (note : Note)
deriving DecidableEq, Repr

/-- The level and the text, as a log prints them. -/
def Message.line : Message → String
  | warning w => "WARN: " ++ w.text
  | note n => "DEBUG: " ++ n.text

/-- Messages in the order in which they were logged. -/
abbrev Log := List Message

/-- The warnings of a log, in order. -/
def Log.warnings (log : Log) : List Warning :=
  log.filterMap fun
    | .warning w => some w
    | .note _ => none

@[simp] theorem Log.warnings_nil : Log.warnings [] = [] := rfl

@[simp] theorem Log.warnings_note_cons (n : Note) (log : Log) :
    Log.warnings (.note n :: log) = Log.warnings log := rfl

@[simp] theorem Log.warnings_append (first second : Log) :
    Log.warnings (first ++ second) = Log.warnings first ++ Log.warnings second :=
  List.filterMap_append

end XamlBinary
