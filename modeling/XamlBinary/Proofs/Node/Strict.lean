import XamlBinary.Proofs.Node.Coupled

/-!
Strict decoding beside lenient decoding of the same slice.  The two part only
where a trusted index is missing from the registry: there the strict decoder
stops, and that is the fault that is let go.  Up to that place they give the
same values and log the same warnings, and any other fault stops both.
-/

namespace XamlBinary

open Reader

/-- The scope of the same tables that refuses trusted indices without an entry, or keeps them. -/
def Scope.withStrict (scope : Scope) (strict : Bool) : Scope := { scope with strict }

/-- A trusted index was refused because the registry has no entry for it. -/
def Fault.Unregistered (fault : Fault) : Prop :=
  ∃ (kind : SymbolKind) (index : Nat), kind.registrySize ≤ index ∧
    fault = .indexOutOfRange kind.registry index kind.registrySize

/-- Such a fault has no place, so it is the same in the whole as in a slice. -/
theorem Fault.Unregistered.rebase {fault : Fault} (h : fault.Unregistered) (base : Nat) :
    (fault.rebase base).Unregistered := by
  obtain ⟨kind, index, hindex, rfl⟩ := h
  exact ⟨kind, index, hindex, rfl⟩

/-- Only a reference can tell the two scopes apart. -/
theorem Scope.agreeUpTo_withStrict (scope : Scope) :
    (scope.withStrict true).AgreeUpTo Fault.Unregistered (scope.withStrict false) where
  resolve kind packed := by
    refine .ite (fun _ => .ite (fun _ => .refl _) fun hunknown => ?_) fun _ => .refl _
    -- here the strict decoder stops and the lenient one goes on
    exact Decoder.AgreeUpTo.escape ⟨kind, packed.index.toNat, Nat.not_lt.mp hunknown, rfl⟩ _
  stringRef _ := .refl _
  string _ _ := .refl _

namespace Decoder

/-- The decoders agree, except that the first one may refuse a trusted index. -/
def Stricter {α : Type} (decoder other : Decoder α) : Prop :=
  Coupled (.same (fun _ => True) Fault.Unregistered) decoder other

theorem Stricter.nodes (scope : Scope) :
    Stricter (Decoder.nodes (scope.withStrict true)) (Decoder.nodes (scope.withStrict false)) :=
  AgreeUpTo.nodes scope.agreeUpTo_withStrict

end Decoder

end XamlBinary
