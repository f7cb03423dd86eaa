import XamlBinary.Proofs.ByteStream.Same
import XamlBinary.Proofs.File.Coupled
import XamlBinary.Proofs.File.Transfer
import XamlBinary.Proofs.Node.Strict

/-!
Strict parsing is lenient parsing without unknown references.  What a lenient
parse makes of an index that the registry lacks stays in the file, so the
files that a strict parse accepts can be told from the lenient result.  Where
both fail they fail alike, unless the strict parse meets such an index first.
-/

namespace XamlBinary

/-- A trusted index for which the registry had no entry. -/
def Ref.IsUnknown {kind : SymbolKind} : Ref kind → Prop
  | unknown _ => True
  | known _ | inFile _ => False

def AnyRef.IsUnknown : AnyRef → Prop
  | type ref => ref.IsUnknown
  | property ref => ref.IsUnknown
  | xmlNamespace ref => ref.IsUnknown

theorem Ref.valid_withStrict_iff {scope : Scope} {kind : SymbolKind} {r : Ref kind} :
    r.Valid (scope.withStrict true) ↔ r.Valid (scope.withStrict false) ∧ ¬ r.IsUnknown := by
  cases r with
  | known index => exact (and_iff_left id).symm
  | inFile index => exact (and_iff_left id).symm
  | unknown index =>
      refine iff_of_false ?_ fun h => h.2 trivial
      rintro ⟨-, -, hlenient⟩
      cases hlenient

theorem AnyRef.valid_withStrict_iff {scope : Scope} {r : AnyRef} :
    r.Valid (scope.withStrict true) ↔ r.Valid (scope.withStrict false) ∧ ¬ r.IsUnknown := by
  cases r with
  | type ref => exact Ref.valid_withStrict_iff
  | property ref => exact Ref.valid_withStrict_iff
  | xmlNamespace ref => exact Ref.valid_withStrict_iff

namespace File

open Reader

variable {layout : HeaderLayout} {s : ByteStream} {f : File} {length : Nat} {body : List UInt8}

/-- Nothing but the references of a file depends on whether it is read strictly. -/
theorem ReadFrom.transfer {strict strict' : Bool} (h : f.ReadFrom ⟨layout, strict⟩ length body)
    (hrefs : ∀ r ∈ f.references, r.Valid (f.metadata.scope strict')) :
    f.ReadFrom ⟨layout, strict'⟩ length body :=
  { h with tiled := h.tiled.transfer (Nat.le_refl _) (List.forall_mem_flatMap.mp hrefs) }

theorem readFrom_strict_iff :
    f.ReadFrom ⟨layout, true⟩ length body ↔
      f.ReadFrom ⟨layout, false⟩ length body ∧ ∀ r ∈ f.references, ¬ r.IsUnknown := by
  have hrefs (r : AnyRef) : r.Valid (f.metadata.scope true) ↔
      r.Valid (f.metadata.scope false) ∧ ¬ r.IsUnknown :=
    @AnyRef.valid_withStrict_iff (f.metadata.scope true) r
  constructor
  · intro h
    have hvalid := h.closed.references
    exact ⟨h.transfer fun r hr => ((hrefs r).mp (hvalid r hr)).1,
      fun r hr => ((hrefs r).mp (hvalid r hr)).2⟩
  · rintro ⟨h, hknown⟩
    have hvalid := h.closed.references
    exact h.transfer fun r hr => (hrefs r).mpr ⟨hvalid r hr, hknown r hr⟩

theorem result_read_eq_ok {settings : Settings} :
    ((read settings).run s).result = .ok f ↔
      s.brokenSeek = none ∧ ∃ body, f.ReadFrom settings s.reportedLength body ∧
        f.front ++ body <+: ({ s with position := 0 } : ByteStream).readable := by
  constructor
  · intro h
    cases hrun : (read settings).run s with
    | fail fault s' log =>
        rw [hrun] at h
        cases h
    | ok f' s' log =>
        rw [hrun] at h
        cases h
        obtain ⟨hnone, -, body, hread, hahead, -⟩ := run_read_eq_ok.mp hrun
        exact ⟨hnone, body, hread, hahead⟩
  · rintro ⟨hnone, body, hread, hahead⟩
    rw [run_read_eq_ok.mpr ⟨hnone, rfl, body, hread, hahead, rfl⟩]
    rfl

/-- A strict parse accepts what a lenient one accepts without unknown references.  Where the
lenient parse fails the strict one fails too, with the same fault or because it refuses an index
that the registry lacks. -/
theorem read_strict (layout : HeaderLayout) (s : ByteStream) :
    (∀ f, ((read ⟨layout, true⟩).run s).result = .ok f ↔
      ((read ⟨layout, false⟩).run s).result = .ok f ∧ ∀ r ∈ f.references, ¬ r.IsUnknown) ∧
    ∀ fault, ((read ⟨layout, false⟩).run s).result = .error fault →
      ((read ⟨layout, true⟩).run s).result = .error fault ∨
        ∃ (kind : SymbolKind) (index : Nat), kind.registrySize ≤ index ∧
          ((read ⟨layout, true⟩).run s).result =
            .error (.indexOutOfRange kind.registry index kind.registrySize) := by
  constructor
  · intro f
    rw [result_read_eq_ok, result_read_eq_ok]
    constructor
    · rintro ⟨hnone, body, hread, hahead⟩
      obtain ⟨hread, hknown⟩ := readFrom_strict_iff.mp hread
      exact ⟨⟨hnone, body, hread, hahead⟩, hknown⟩
    · rintro ⟨⟨hnone, body, hread, hahead⟩, hknown⟩
      exact ⟨hnone, body, readFrom_strict_iff.mpr ⟨hread, hknown⟩, hahead⟩
  · intro fault hfault
    have hcoupled : Coupled (.same (fun _ => True) Fault.Unregistered)
        (read ⟨layout, true⟩) (read ⟨layout, false⟩) :=
      coupled_read (Coupling.sound_same fun _ _ _ _ => trivial) rfl fun m base =>
        (Decoder.Stricter.nodes (m.scope false)).slice (fun _ => rfl) base
          fun _ hescape => hescape.rebase base
    rcases (hcoupled s s ⟨rfl, trivial⟩).result_eq_or with heq | ⟨e, hescape, he⟩
    · exact .inl (heq.trans hfault)
    · obtain ⟨kind, index, hindex, rfl⟩ := hescape
      exact .inr ⟨kind, index, hindex, he⟩

/-- A file with an object of a type that the registry lacks. -/
def placeholder : File :=
  ⟨⟨24, 16, none⟩, {}, [⟨⟨0, 4⟩, [⟨0, .startObject (.unknown 100)⟩, ⟨3, .endOfStream⟩], []⟩]⟩

/-- A lenient parse keeps the type as unknown, so a strict one does not accept the file. -/
theorem read_strict_placeholder :
    ofBytes {} placeholder.bytes = .ok placeholder ∧
      ofBytes { strict := true } placeholder.bytes ≠ .ok placeholder := by
  have hlenient : ofBytes {} placeholder.bytes = .ok placeholder := by decide +kernel
  refine ⟨hlenient, fun hstrict => ?_⟩
  have hknown := ((read_strict .detect (.ofBytes placeholder.bytes)).1 placeholder).mp hstrict
  exact hknown.2 (.type (.unknown 100)) (by decide) trivial

end File

end XamlBinary
