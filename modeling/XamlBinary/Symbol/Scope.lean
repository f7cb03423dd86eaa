import XamlBinary.Cursor.Primitive
import XamlBinary.Symbol.Reference

/-!
Resolution of references.  All that it needs to know of a file is how long
its tables are.
-/

namespace XamlBinary

/-- The lengths of the tables that references point into, and whether trusted indices
without an entry in the registry are refused. -/
structure Scope where
  strings : Nat
  types : Nat
  properties : Nat
  xmlNamespaces : Nat
  strict : Bool
deriving DecidableEq, Repr

namespace Scope

def size (scope : Scope) : SymbolKind → Nat
  | .type => scope.types
  | .property => scope.properties
  | .xmlNamespace => scope.xmlNamespaces

/-- Resolves a trusted index in the registry, and another one in the file. -/
def resolve {σ : Type} (scope : Scope) (kind : SymbolKind) (ref : PackedRef) :
    Reader σ (Ref kind) :=
  if ref.trusted then
    if ref.index.toNat < kind.registrySize then pure (.known ref.index)
    else if scope.strict then
      .indexOutOfRange kind.registry ref.index.toNat kind.registrySize
    else do
      Reader.warn (.unknownStableIndex kind.registry ref.index)
      pure (.unknown ref.index)
  else if ref.index.toNat < scope.size kind then pure (.inFile ref.index)
  else .indexOutOfRange kind.table ref.index.toNat (scope.size kind)

/-- A string id that was stored as a plain number at `start`. -/
def stringId {σ : Type} (scope : Scope) (start : Nat) (number : Int32) : Reader σ StringId :=
  if number < 0 then .malformed start (.negative "string id" number)
  else if number.toNatClampNeg < scope.strings then pure ⟨number.toUInt32⟩
  else .indexOutOfRange .strings number.toNatClampNeg scope.strings

end Scope

namespace Decoder

open Reader

/-- A reference in its 16-bit form. -/
def ref (scope : Scope) (kind : SymbolKind) (what : String) : Decoder (Ref kind) := do
  let word ← uint16 what
  scope.resolve kind (PackedRef.ofWord word)

/-- A string id in the 16-bit form of a reference; it cannot be trusted. -/
def stringRef (scope : Scope) (what : String) : Decoder StringId := do
  let start ← position
  let word ← uint16 what
  let packed := PackedRef.ofWord word
  if packed.trusted then malformed start (.trustedString packed.index)
  else if packed.index.toNat < scope.strings then pure ⟨packed.index.toUInt32⟩
  else indexOutOfRange .strings packed.index.toNat scope.strings

/-- A string id as a 7-bit integer. -/
def stringId (scope : Scope) (what : String) : Decoder StringId := do
  let start ← position
  let number ← varint what
  scope.stringId start number

/-- A string id as a 7-bit integer that is one too large, so that zero can mean no string. -/
def stringId? (scope : Scope) (what : String) : Decoder (Option StringId) := do
  let start ← position
  let number ← varint what
  if number = 0 then pure none
  else some <$> scope.stringId start (number - 1)

end Decoder

end XamlBinary
