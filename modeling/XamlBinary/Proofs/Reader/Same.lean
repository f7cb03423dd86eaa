import XamlBinary.Proofs.Reader.Coupled

/-!
Two runs from one and the same state.  Coupling a state with itself says two
things.  Run beside itself, a reader shows which invariant of the state it
keeps; beside another reader, it shows that the two differ only in the faults
that are let go.
-/

namespace XamlBinary

variable {σ τ α : Type} {Inv : σ → Prop} {escapes : Fault → Prop}

/-- Runs from one state, of which an invariant is known. -/
def Coupling.same (Inv : σ → Prop) (escapes : Fault → Prop) : Coupling σ σ where
  states s t := s = t ∧ Inv s
  faults := Eq
  escapes := escapes

namespace Outcome.Coupled

variable {o p : Outcome σ α}

/-- Where no fault is let go, the run ends in a state of the invariant. -/
theorem inv (h : o.Coupled (Coupling.same Inv fun _ => False) p) : Inv o.state := by
  cases h with
  | ok hstates _ => exact hstates.2
  | fail _ hstates _ => exact hstates.2
  | escape hescape => exact hescape.elim

/-- The first run ends as the second one does, or with a fault that is let go. -/
theorem result_eq_or (h : o.Coupled (Coupling.same Inv escapes) p) :
    o.result = p.result ∨ ∃ fault, escapes fault ∧ o.result = .error fault := by
  cases h with
  | ok _ _ => exact .inl rfl
  | fail hfaults _ _ => exact .inl (congrArg Except.error hfaults)
  | escape hescape => exact .inr ⟨_, hescape, rfl⟩

end Outcome.Coupled

namespace Reader.Coupled

/-- Nothing is asked of a reader that is run beside itself. -/
theorem refl (reader : Reader σ α) :
    Coupled (.same (fun _ => True) escapes) reader reader := by
  rintro s t ⟨rfl, -⟩
  cases reader.run s with
  | ok a s' log => exact .ok ⟨rfl, trivial⟩ rfl
  | fail fault s' log => exact .fail rfl ⟨rfl, trivial⟩ rfl

/-- Two decoders of one slice, whose faults are those of the slice. -/
theorem slice {K : Coupling σ τ} {decoder other : Decoder α}
    (h : Coupled (.same (fun _ => True) escapes) decoder other) (hfaults : ∀ e, K.faults e e)
    (base : Nat) (hescapes : ∀ e, escapes e → K.escapes (e.rebase base)) (bytes : List UInt8) :
    Coupled K (Reader.within base bytes decoder : Reader σ α) (Reader.within base bytes other) := by
  intro s t hstates
  have hruns := h (Cursor.start bytes) (Cursor.start bytes) ⟨rfl, trivial⟩
  simp only [run, Reader.within] at hruns ⊢
  generalize decoder (Cursor.start bytes) = o at hruns ⊢
  generalize other (Cursor.start bytes) = p at hruns ⊢
  cases hruns with
  | ok _ hlog => exact .ok hstates hlog
  | fail heq _ hlog =>
      subst heq
      exact .fail (hfaults _) hstates hlog
  | escape hescape => exact .escape (hescapes _ hescape)

end Reader.Coupled

end XamlBinary
