import XamlBinary.File.Basic
import XamlBinary.Log

/-!
What the nodes of a file refer to, in the order in which the bytes of the file
name it: the references to types, properties and XML namespaces, and the
string ids.  `File.warnings` are the oddities of a file that a reader
tolerates; they can be told from the file alone.
-/

namespace XamlBinary

/-- A reference of any kind. -/
inductive AnyRef where
  | type (ref : Ref .type)
  | property (ref : Ref .property)
  | xmlNamespace (ref : Ref .xmlNamespace)
deriving DecidableEq, Repr

/-- A trusted index without an entry in the registry calls for a warning. -/
def Ref.warning? {kind : SymbolKind} : Ref kind → Option Warning
  | unknown index => some (.unknownStableIndex kind.registry index)
  | known _ => none
  | inFile _ => none

def AnyRef.warning? : AnyRef → Option Warning
  | type ref => ref.warning?
  | property ref => ref.warning?
  | xmlNamespace ref => ref.warning?

namespace Constant

def references : Constant → List AnyRef
  | enumeration type _ => [.type type]
  | _ => []

def stringIds : Constant → List StringId
  | sharedString id => [id]
  | _ => []

end Constant

namespace SetterValue

def references : SetterValue → List AnyRef
  | constant value => value.references
  | _ => []

def stringIds : SetterValue → List StringId
  | constant value => value.stringIds
  | object _ => []
  | staticResource key => [key]
  | themeResource key => [key]

end SetterValue

def Setter.references (s : Setter) : List AnyRef := .property s.property :: s.value.references

def EagerProperty.references (p : EagerProperty) : List AnyRef :=
  .property p.property :: p.value.references

def VisualTransition.stringIds (t : VisualTransition) : List StringId :=
  t.source.toList ++ t.target.toList

def VisualStateGroups.stringIds (d : VisualStateGroups) : List StringId :=
  d.groups.map (·.name) ++ d.states.map (·.name) ++
    d.transitions.flatMap VisualTransition.stringIds ++ d.seenNames

def ResourceDictionary.stringIds (d : ResourceDictionary) : List StringId :=
  d.explicitKeys.map (·.key) ++ d.implicitKeys.map (·.key) ++ d.xNames

namespace RuntimeData

def references : RuntimeData → List AnyRef
  | visualStateGroups _ => []
  | resourceDictionary _ => []
  | style data => data.setters.flatMap Setter.references
  | deferredElement data => data.properties.flatMap EagerProperty.references

def stringIds : RuntimeData → List StringId
  | visualStateGroups data => data.stringIds
  | resourceDictionary data => data.stringIds
  | style data => data.setters.flatMap (·.value.stringIds)
  | deferredElement data => data.name :: data.properties.flatMap (·.value.stringIds)

end RuntimeData

namespace Node

def references : Node → List AnyRef
  | .startObject type => [.type type]
  | .startProperty property => [.property property]
  | .value constant => constant.references
  | .namespaceDeclaration _ xmlNamespace => [.xmlNamespace xmlNamespace]
  | .runtimeData data _ => data.references
  | _ => []

def stringIds : Node → List StringId
  | .text id => [id]
  | .value constant => constant.stringIds
  | .namespaceDeclaration shortName _ => [shortName]
  | .runtimeData data _ => data.stringIds
  | _ => []

end Node

def Substream.references (s : Substream) : List AnyRef := s.nodes.flatMap (·.node.references)

def Substream.stringIds (s : Substream) : List StringId := s.nodes.flatMap (·.node.stringIds)

/-- Flags with bits that have no meaning call for a warning. -/
def TypeFlags.warning? (flags : TypeFlags) : Option Warning :=
  if flags.unknownBits = 0 then none else some (.unknownTypeFlags flags.bits)

def PropertyFlags.warning? (flags : PropertyFlags) : Option Warning :=
  if flags.unknownBits = 0 then none else some (.unknownPropertyFlags flags.bits)

def Metadata.warnings (m : Metadata) : List Warning :=
  m.types.toList.filterMap (·.flags.warning?) ++ m.properties.toList.filterMap (·.flags.warning?)

namespace File

def references (file : File) : List AnyRef := file.substreams.flatMap Substream.references

def stringIds (file : File) : List StringId := file.substreams.flatMap Substream.stringIds

def warnings (file : File) : List Warning :=
  file.metadata.warnings ++ file.references.filterMap AnyRef.warning?

end File

end XamlBinary
