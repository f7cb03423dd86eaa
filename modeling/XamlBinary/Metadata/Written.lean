import XamlBinary.Metadata.Basic
import XamlBinary.Written.Basic

/-!
How metadata is written: six tables, one after the other.
-/

namespace XamlBinary

/-- A string id as a 32-bit number. -/
def StringId.wide (id : StringId) : Written := .word32 id.index

def Assembly.written (entry : Assembly) : Written :=
  .word32 entry.kind.number ++ entry.name.wide

def TypeNamespace.written (entry : TypeNamespace) : Written :=
  .word32 entry.assembly ++ entry.name.wide

def TypeEntry.written (entry : TypeEntry) : Written :=
  .word32 entry.flags.bits ++ .word32 entry.typeNamespace ++ entry.name.wide

def PropertyEntry.written (entry : PropertyEntry) : Written :=
  .word32 entry.flags.bits ++ .word32 entry.declaringType ++ entry.name.wide

def Metadata.written (m : Metadata) : Written :=
  .table .text m.strings.toList ++
  .table Assembly.written m.assemblies.toList ++
  .table TypeNamespace.written m.typeNamespaces.toList ++
  .table TypeEntry.written m.types.toList ++
  .table PropertyEntry.written m.properties.toList ++
  .table StringId.wide m.xmlNamespaces.toList

end XamlBinary
