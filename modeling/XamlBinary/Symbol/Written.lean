import XamlBinary.Symbol.Reference
import XamlBinary.Written.Basic

/-!
How references and string ids are written.
-/

namespace XamlBinary

/-- The 16-bit form of a reference: all but those into the file are trusted. -/
def Ref.packed {kind : SymbolKind} : Ref kind → PackedRef
  | known index => ⟨index, true⟩
  | unknown index => ⟨index, true⟩
  | inFile index => ⟨index, false⟩

def Ref.written {kind : SymbolKind} (ref : Ref kind) : Written := .word16 ref.packed.toWord

namespace StringId

/-- A string id in the 16-bit form of a reference. -/
def packed (id : StringId) : Written := .word16 id.index.toUInt16

/-- A string id as a 7-bit integer. -/
def written (id : StringId) : Written := .natural id.index

/-- A string id that can be missing: zero, or one more than the id. -/
def optional : Option StringId → Written
  | none => .varint 0
  | some id => .varint (id.index.toInt32 + 1)

end StringId

end XamlBinary
