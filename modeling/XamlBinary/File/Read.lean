import XamlBinary.File.Basic
import XamlBinary.Header.Read
import XamlBinary.Metadata.Decode
import XamlBinary.Substream.Read

/-!
Reading of a whole file from a stream.  The file begins at the start of the
stream, wherever that stood; afterwards it stands there again.
-/

namespace XamlBinary

namespace File

open Reader

/-- Custom runtime data, with the place in the file of its node and the substream that it
defers to. -/
structure Deferral where
  offset : Nat
  substream : UInt32
deriving DecidableEq, Repr

/-- The deferrals of a substream in a body that begins at `bodyStart`. -/
def deferralsOf (bodyStart : Nat) (s : Substream) : List Deferral :=
  s.nodes.filterMap fun placed =>
    match placed.node with
    | .runtimeData _ substream =>
        some ⟨bodyStart + s.entry.nodeOffset.toNat + placed.offset.toNat, substream⟩
    | _ => none

/-- The offset of the body of the node-stream section, behind its table. -/
def bodyStart (header : Header) (substreams : List Substream) : Nat :=
  header.size + header.metadataSize.toNat + 4 + 8 * substreams.length

/-- The deferrals of a file in the order of its substreams and nodes. -/
def deferrals (header : Header) (substreams : List Substream) : List Deferral :=
  substreams.flatMap (deferralsOf (bodyStart header substreams))

/-- Every deferral must name a substream of the file. -/
def checkDeferrals (header : Header) (substreams : List Substream) : Reader ByteStream Unit :=
  match (deferrals header substreams).find? fun d => substreams.length ≤ d.substream.toNat with
  | some d => malformed d.offset (.missingSubstream d.substream substreams.length)
  | none => pure ()

/-- Reads the sections in their order, from the start of the stream. -/
def readSections (settings : Settings) : Reader ByteStream File := do
  ByteStream.goTo "start of file" 0
  let header ← Header.read settings.layout
  note (.stage .unopened .headerValidated)
  let metadata ← Metadata.read header.metadataSize
  note (.stage .headerValidated .metadataLoaded)
  let substreams ← Substream.readSection (metadata.scope settings.strict) header.nodeStreamSize
  note (.stage .metadataLoaded .substreamsLoaded)
  checkDeferrals header substreams
  note (.stage .substreamsLoaded .complete)
  pure { header, metadata, substreams }

/-- Reads a file and returns the stream to where it stood. -/
def read (settings : Settings) : Reader ByteStream File :=
  ByteStream.keepingPosition (readSections settings)

/-- Reads a file from its bytes. -/
def ofBytes (settings : Settings) (bytes : List UInt8) : Except Fault File :=
  ((read settings).run (ByteStream.ofBytes bytes)).result

end File

end XamlBinary
