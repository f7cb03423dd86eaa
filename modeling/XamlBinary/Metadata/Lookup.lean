import XamlBinary.Constant.Basic
import XamlBinary.Metadata.Basic

/-!
Names of references.  The tables need not be consistent: what cannot be found
is shown by a placeholder in angle brackets, and a trusted index without an
entry in the registry by its number.
-/

namespace XamlBinary.Metadata

def string? (m : Metadata) (id : StringId) : Option String := m.strings[id.index.toNat]?

def stringText (m : Metadata) (id : StringId) : String :=
  (m.string? id).getD s!"<missing string {id.index}>"

/-- The short name of a type. -/
def typeName (m : Metadata) : Ref .type → String
  | .known index =>
      match Registry.type? index with
      | some entry => entry.name
      | none => s!"StableXbfTypeIndex::{index}"
  | .unknown index => s!"StableXbfTypeIndex::{index}"
  | .inFile index =>
      match m.types[index.toNat]? with
      | some entry => m.stringText entry.name
      | none => s!"<missing type {index}>"

/-- The name of a type with its namespace in front, where it has one. -/
def fullTypeName (m : Metadata) (type : Ref .type) : String :=
  match type with
  | .known index =>
      match Registry.type? index with
      | some entry => entry.fullName
      | none => m.typeName type
  | .unknown _ => m.typeName type
  | .inFile index =>
      match m.types[index.toNat]? with
      | none => m.typeName type
      | some entry =>
          match m.typeNamespaces[entry.typeNamespace.toNat]? with
          | some owner => m.stringText owner.name ++ "." ++ m.stringText entry.name
          | none => m.typeName type

def propertyName (m : Metadata) : Ref .property → String
  | .known index =>
      match Registry.property? index with
      | some entry => entry.name
      | none => s!"StableXbfPropertyIndex::{index}"
  | .unknown index => s!"StableXbfPropertyIndex::{index}"
  | .inFile index =>
      match m.properties[index.toNat]? with
      | some entry => m.stringText entry.name
      | none => s!"<missing property {index}>"

/-- The type that declares a property, as far as a reference can name it. -/
def declaringType? (m : Metadata) : Ref .property → Option (Ref .type)
  | .known index => (Registry.property? index).map fun entry => .known entry.declaringType
  | .unknown _ => none
  | .inFile index =>
      match m.properties[index.toNat]? with
      | some entry =>
          if entry.declaringType.toNat < 0x10000 then some (.inFile entry.declaringType.toUInt16)
          else none
      | none => none

/-- The URI of an XML namespace. -/
def xmlNamespace (m : Metadata) : Ref .xmlNamespace → String
  | .known index =>
      match Registry.xmlNamespace? index with
      | some uri => uri
      | none => s!"StableXbfXmlNamespaceIndex::{index}"
  | .unknown index => s!"StableXbfXmlNamespaceIndex::{index}"
  | .inFile index =>
      match m.xmlNamespaces[index.toNat]? with
      | some name => m.stringText name
      | none => s!"<missing xml namespace {index}>"

/-- The type with a short name: that of the registry, or else the first one of the file, if
a reference can name it. -/
def findType? (m : Metadata) (name : String) : Option (Ref .type) :=
  match Registry.typeIndex? name with
  | some index => some (.known index)
  | none =>
      match m.types.findIdx? fun entry => m.string? entry.name == some name with
      | some index => if index < 0x10000 then some (.inFile (UInt16.ofNat index)) else none
      | none => none

/-- A property with its declaring type in front, where that is known. -/
def qualifiedProperty (m : Metadata) (property : Ref .property) : String :=
  match m.declaringType? property with
  | some type => m.typeName type ++ "." ++ m.propertyName property
  | none => m.propertyName property

/-- The name of the type of a literal. -/
def constantTypeName (m : Metadata) : Constant → String
  | .enumeration type _ => m.typeName type
  | .nullString | .sharedString _ | .uniqueString _ => "string"
  | .bool _ => "Boolean"
  | .color _ => "Color"
  | .float _ => "Double"
  | .gridLength _ _ => "GridLength"
  | .signed _ => "Int32"
  | .thickness _ => "Thickness"

end XamlBinary.Metadata
