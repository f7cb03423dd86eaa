import XamlBinary.Symbol.Registry
import XamlBinary.Fault

/-!
References to types, properties and XML namespaces.  In a file a reference is
a 16-bit word: the top bit says that it is trusted, the other bits are an
index.  Trusted indices count in the registry, the others in the tables of
the file.
-/

namespace XamlBinary

/-- What a reference can refer to. -/
inductive SymbolKind where
  | type
  | property
  | xmlNamespace
deriving DecidableEq, Repr

namespace SymbolKind

/-- The table of the file that holds such symbols. -/
def table : SymbolKind → Table
  | type => .types
  | property => .properties
  | xmlNamespace => .xmlNamespaces

/-- The table of the registry that holds such symbols. -/
def registry : SymbolKind → Table
  | type => .knownTypes
  | property => .knownProperties
  | xmlNamespace => .knownXmlNamespaces

def registrySize : SymbolKind → Nat
  | type => Registry.types.size
  | property => Registry.properties.size
  | xmlNamespace => Registry.xmlNamespaces.size

end SymbolKind

/-- A reference that has been resolved. -/
inductive Ref (kind : SymbolKind) where
  /-- An entry of the registry. -/
  | known (index : UInt16)
  /-- A trusted index that the registry has no entry for. -/
  | unknown (index : UInt16)
  /-- An entry of the file's own table. -/
  | inFile (index : UInt16)
deriving DecidableEq, Repr

/-- An index into the string table of the file. -/
structure StringId where
  index : UInt32
deriving DecidableEq, Repr

/-- The 16-bit form of a reference. -/
structure PackedRef where
  index : UInt16
  trusted : Bool
deriving DecidableEq, Repr

namespace PackedRef

def trustBit : UInt16 := 0x8000

def ofWord (word : UInt16) : PackedRef :=
  { index := word &&& 0x7FFF, trusted := word &&& trustBit != 0 }

def toWord (ref : PackedRef) : UInt16 :=
  if ref.trusted then ref.index ||| trustBit else ref.index

end PackedRef

end XamlBinary
