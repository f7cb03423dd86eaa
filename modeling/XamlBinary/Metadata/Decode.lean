import XamlBinary.ByteStream.Reading
import XamlBinary.Metadata.Basic

/-!
Decoding of a metadata section: six tables that together fill it exactly, and
then a check that every index from one table into another is in range.
-/

namespace XamlBinary

namespace Decoder

open Reader

def assembly : Decoder Assembly := do
  let start ← position
  let number ← uint32 "assembly kind"
  match AssemblyKind.ofNumber? number with
  | none => malformed start (.unknownAssemblyKind number)
  | some kind =>
      let name ← uint32 "assembly name"
      pure ⟨kind, ⟨name⟩⟩

def typeNamespace : Decoder TypeNamespace := do
  let assembly ← uint32 "type namespace assembly"
  let name ← uint32 "type namespace name"
  pure ⟨assembly, ⟨name⟩⟩

def typeEntry : Decoder TypeEntry := do
  let bits ← uint32 "type flags"
  let flags := TypeFlags.mk bits
  if flags.unknownBits ≠ 0 then warn (.unknownTypeFlags bits)
  let typeNamespace ← uint32 "type namespace"
  let name ← uint32 "type name"
  pure ⟨flags, typeNamespace, ⟨name⟩⟩

def propertyEntry : Decoder PropertyEntry := do
  let bits ← uint32 "property flags"
  let flags := PropertyFlags.mk bits
  if flags.unknownBits ≠ 0 then warn (.unknownPropertyFlags bits)
  let declaringType ← uint32 "property declaring type"
  let name ← uint32 "property name"
  pure ⟨flags, declaringType, ⟨name⟩⟩

/-- The six tables, one after the other. -/
def metadataTables : Decoder Metadata := do
  let strings ← table "string table" (string "string table entry")
  let assemblies ← table "assembly table" assembly
  let typeNamespaces ← table "type namespace table" typeNamespace
  let types ← table "type table" typeEntry
  let properties ← table "property table" propertyEntry
  let xmlNamespaces ← table "xml namespace table" (StringId.mk <$> uint32 "xml namespace")
  pure {
    strings := strings.toArray
    assemblies := assemblies.toArray
    typeNamespaces := typeNamespaces.toArray
    types := types.toArray
    properties := properties.toArray
    xmlNamespaces := xmlNamespaces.toArray }

end Decoder

/-- An index from one table into another of the given length. -/
structure CrossReference where
  table : Table
  index : UInt32
  length : Nat
deriving DecidableEq, Repr

def CrossReference.InRange (r : CrossReference) : Prop := r.index.toNat < r.length

instance (r : CrossReference) : Decidable r.InRange := by
  unfold CrossReference.InRange; infer_instance

namespace Metadata

/-- A name, as an index into the strings. -/
def nameReference (m : Metadata) (name : StringId) : CrossReference :=
  ⟨.strings, name.index, m.strings.size⟩

/-- Every index from one table into another, in the order in which they are checked. -/
def crossReferences (m : Metadata) : List CrossReference :=
  (m.assemblies.toList.map fun entry => m.nameReference entry.name) ++
  (m.typeNamespaces.toList.flatMap fun entry =>
    [⟨.assemblies, entry.assembly, m.assemblies.size⟩, m.nameReference entry.name]) ++
  (m.types.toList.flatMap fun entry =>
    [⟨.typeNamespaces, entry.typeNamespace, m.typeNamespaces.size⟩, m.nameReference entry.name]) ++
  (m.properties.toList.flatMap fun entry =>
    [⟨.types, entry.declaringType, m.types.size⟩, m.nameReference entry.name]) ++
  (m.xmlNamespaces.toList.map m.nameReference)

/-- The first index that is out of range. -/
def dangling? (m : Metadata) : Option CrossReference :=
  m.crossReferences.find? fun r => ¬ r.InRange

def countsNote (m : Metadata) : Note :=
  .metadataCounts m.strings.size m.assemblies.size m.typeNamespaces.size m.types.size
    m.properties.size m.xmlNamespaces.size

/-- A whole metadata section. -/
def decoder : Decoder Metadata := do
  let whole ← Reader.get
  let m ← Decoder.metadataTables
  let here ← Reader.get
  if here.rest.isEmpty then
    match m.dangling? with
    | some r => Reader.indexOutOfRange r.table r.index.toNat r.length
    | none =>
        Reader.note m.countsNote
        pure m
  else
    Reader.malformed here.offset
      (.metadataSizeMismatch here.offset (whole.offset + whole.rest.length))

/-- Reads a section of `size` bytes. -/
def read (size : UInt32) : Reader ByteStream Metadata := do
  let start ← Reader.position
  let bytes ← ByteStream.block "metadata section" size.toNat
  Reader.note (.metadataSection start size)
  Reader.within start bytes decoder

end Metadata

end XamlBinary
