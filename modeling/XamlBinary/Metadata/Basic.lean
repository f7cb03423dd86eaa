import XamlBinary.Symbol.Scope

/-!
The metadata of a file: the tables that its node-streams refer to.
-/

namespace XamlBinary

/-- Who provides the types of an assembly. -/
inductive AssemblyKind where
  | unknown
  | native
  | managed
  | system
  | parser
  | alternate
deriving DecidableEq, Repr

namespace AssemblyKind

/-- The kinds in the order of their numbers. -/
def all : List AssemblyKind := [unknown, native, managed, system, parser, alternate]

def ofNumber? (number : UInt32) : Option AssemblyKind := all[number.toNat]?

def number : AssemblyKind → UInt32
  | unknown => 0
  | native => 1
  | managed => 2
  | system => 3
  | parser => 4
  | alternate => 5

@[simp] theorem ofNumber?_number (kind : AssemblyKind) : ofNumber? kind.number = some kind := by
  cases kind <;> rfl

def name : AssemblyKind → String
  | unknown => "Unknown"
  | native => "Native"
  | managed => "Managed"
  | system => "System"
  | parser => "Parser"
  | alternate => "Alternate"

end AssemblyKind

structure Assembly where
  kind : AssemblyKind
  name : StringId
deriving DecidableEq, Repr

structure TypeNamespace where
  /-- An index into the assemblies. -/
  assembly : UInt32
  name : StringId
deriving DecidableEq, Repr

/-- The flags of a type; bits without a meaning are kept. -/
structure TypeFlags where
  bits : UInt32
deriving DecidableEq, Repr

namespace TypeFlags

def markupDirective : UInt32 := 1

def unknownBits (flags : TypeFlags) : UInt32 := flags.bits &&& ~~~markupDirective

def isMarkupDirective (flags : TypeFlags) : Bool := flags.bits &&& markupDirective != 0

end TypeFlags

/-- The flags of a property; bits without a meaning are kept. -/
structure PropertyFlags where
  bits : UInt32
deriving DecidableEq, Repr

namespace PropertyFlags

def xmlProperty : UInt32 := 1

def markupDirective : UInt32 := 2

def implicitProperty : UInt32 := 4

def unknownBits (flags : PropertyFlags) : UInt32 :=
  flags.bits &&& ~~~(xmlProperty ||| markupDirective ||| implicitProperty)

def isXmlProperty (flags : PropertyFlags) : Bool := flags.bits &&& xmlProperty != 0

def isMarkupDirective (flags : PropertyFlags) : Bool := flags.bits &&& markupDirective != 0

def isImplicitProperty (flags : PropertyFlags) : Bool := flags.bits &&& implicitProperty != 0

end PropertyFlags

structure TypeEntry where
  flags : TypeFlags
  /-- An index into the type namespaces. -/
  typeNamespace : UInt32
  name : StringId
deriving DecidableEq, Repr

structure PropertyEntry where
  flags : PropertyFlags
  /-- An index into the types. -/
  declaringType : UInt32
  name : StringId
deriving DecidableEq, Repr

structure Metadata where
  strings : Array String := #[]
  assemblies : Array Assembly := #[]
  typeNamespaces : Array TypeNamespace := #[]
  types : Array TypeEntry := #[]
  properties : Array PropertyEntry := #[]
  xmlNamespaces : Array StringId := #[]
deriving DecidableEq, Repr

namespace Metadata

/-- What node-streams are decoded against. -/
def scope (m : Metadata) (strict : Bool) : Scope :=
  { strings := m.strings.size
    types := m.types.size
    properties := m.properties.size
    xmlNamespaces := m.xmlNamespaces.size
    strict }

end Metadata

end XamlBinary
