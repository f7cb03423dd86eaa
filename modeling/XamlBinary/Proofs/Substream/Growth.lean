import XamlBinary.Proofs.ByteStream.Same
import XamlBinary.Proofs.File.Coupled
import XamlBinary.Proofs.Node.Coupled

/-!
The node-stream section beside tables that have grown.  Decoding asks of the
tables only how long they are, and only so as to refuse an index.  Whatever is
accepted beside some tables is therefore accepted beside longer ones, whatever
their entries are, and comes out the same.
-/

namespace XamlBinary

open Reader

/-- Each table is at least as long in the other scope. -/
structure Scope.GrowsTo (scope other : Scope) : Prop where
  strings : scope.strings ≤ other.strings
  size (kind : SymbolKind) : scope.size kind ≤ other.size kind
  strict : other.strict = scope.strict

/-- An index was refused because a table of the scope is not as long. -/
inductive Fault.Beyond (scope : Scope) : Fault → Prop
  | string {index : Nat} (h : scope.strings ≤ index) :
      Beyond scope (.indexOutOfRange .strings index scope.strings)
  | symbol {kind : SymbolKind} {index : Nat} (h : scope.size kind ≤ index) :
      Beyond scope (.indexOutOfRange kind.table index (scope.size kind))

/-- Such a fault has no place, so it is the same in the whole as in a slice. -/
theorem Fault.Beyond.rebase {scope : Scope} {fault : Fault} (h : fault.Beyond scope) (base : Nat) :
    (fault.rebase base).Beyond scope := by
  cases h with
  | string h => exact .string h
  | symbol h => exact .symbol h

namespace Scope.GrowsTo

variable {scope other : Scope} (h : scope.GrowsTo other)
include h

theorem agreeUpTo : scope.AgreeUpTo (·.Beyond scope) other where
  resolve kind packed := by
    unfold Scope.resolve
    rw [h.strict]
    refine .ite (fun _ => .refl _) fun _ => ?_
    exact Decoder.AgreeUpTo.check _ _ (Nat.lt_of_lt_of_le · (h.size kind))
      fun hlt => .symbol (Nat.le_of_not_lt hlt)
  stringRef what := by
    refine (Coupled.refl _).bind fun _ => (Coupled.refl _).bind fun word => ?_
    refine .ite (fun _ => .refl _) fun _ => ?_
    exact Decoder.AgreeUpTo.check _ _ (Nat.lt_of_lt_of_le · h.strings)
      fun hlt => .string (Nat.le_of_not_lt hlt)
  string start number := by
    refine .ite (fun _ => .refl _) fun _ => ?_
    exact Decoder.AgreeUpTo.check _ _ (Nat.lt_of_lt_of_le · h.strings)
      fun hlt => .string (Nat.le_of_not_lt hlt)

theorem coupled_readSection (size : UInt32) :
    Coupled (.same (fun _ => True) (·.Beyond scope)) (Substream.readSection scope size)
      (Substream.readSection other size) :=
  Substream.coupled_readSection (Coupling.sound_same fun _ _ _ _ => trivial) (fun base =>
    Coupled.slice (Decoder.AgreeUpTo.nodes h.agreeUpTo) (fun _ => rfl) base
      fun _ hbeyond => hbeyond.rebase base) size

end Scope.GrowsTo

namespace Substream

/-- A node-stream section that is accepted beside the tables of `m` is accepted beside longer
ones, with the same substreams, at the same position and with the same warnings.  If it is
refused beside those of `m`, then for an index that they are too short for, or else in the same
way beside the longer ones.  Beside tables of the same lengths the runs are the same. -/
theorem readSection_grown (m m' : Metadata) (hstrings : m.strings.size ≤ m'.strings.size)
    (htypes : m.types.size ≤ m'.types.size) (hproperties : m.properties.size ≤ m'.properties.size)
    (hxmlNamespaces : m.xmlNamespaces.size ≤ m'.xmlNamespaces.size) (strict : Bool)
    (size : UInt32) (s : ByteStream) :
    (∀ substreams s' log, (readSection (m.scope strict) size).run s = .ok substreams s' log →
      ∃ log', (readSection (m'.scope strict) size).run s = .ok substreams s' log' ∧
        log'.warnings = log.warnings) ∧
    (∀ fault s' log, (readSection (m.scope strict) size).run s = .fail fault s' log →
      fault.Beyond (m.scope strict) ∨
        ∃ log', (readSection (m'.scope strict) size).run s = .fail fault s' log' ∧
          log'.warnings = log.warnings) ∧
    (m'.strings.size = m.strings.size → m'.types.size = m.types.size →
      m'.properties.size = m.properties.size → m'.xmlNamespaces.size = m.xmlNamespaces.size →
      (readSection (m'.scope strict) size).run s = (readSection (m.scope strict) size).run s) := by
  have hgrows : (m.scope strict).GrowsTo (m'.scope strict) :=
    ⟨hstrings, fun kind => by cases kind <;> assumption, rfl⟩
  have hruns := hgrows.coupled_readSection size s s ⟨rfl, trivial⟩
  refine ⟨?_, ?_, ?_⟩
  · intro substreams s' log hrun
    rw [hrun] at hruns
    generalize (readSection (m'.scope strict) size).run s = o at hruns
    cases hruns with
    | ok hstates hlog =>
        obtain ⟨rfl, -⟩ := hstates
        exact ⟨_, rfl, hlog.symm⟩
  · intro fault s' log hrun
    rw [hrun] at hruns
    generalize (readSection (m'.scope strict) size).run s = o at hruns
    cases hruns with
    | fail hfaults hstates hlog =>
        obtain rfl := hfaults
        obtain ⟨rfl, -⟩ := hstates
        exact .inr ⟨_, rfl, hlog.symm⟩
    | escape hbeyond => exact .inl hbeyond
  · intro hstrings htypes hproperties hxmlNamespaces
    rw [Metadata.scope, Metadata.scope, hstrings, htypes, hproperties, hxmlNamespaces]

/-- A section that refers to a string and a type of the file, and to a type that the registry
lacks. -/
def referring : List UInt8 :=
  [1, 0, 0, 0, 0, 0, 0, 0, 10, 0, 0, 0] ++ [5, 0, 0, 1, 0, 0, 1, 100, 128, 9]

def referringSubstream : Substream where
  entry := ⟨0, 10⟩
  nodes := [⟨0, .text ⟨0⟩⟩, ⟨3, .startObject (.inFile 0)⟩, ⟨6, .startObject (.unknown 100)⟩,
    ⟨9, .endOfStream⟩]
  lines := []

/-- One string and one type. -/
def sparse : Metadata where
  strings := #["a"]
  types := #[⟨⟨0⟩, 0, ⟨0⟩⟩]

/-- Other strings and types, and more of them. -/
def ample : Metadata where
  strings := #["b", "c"]
  types := #[⟨⟨1⟩, 0, ⟨1⟩⟩, ⟨⟨0⟩, 0, ⟨0⟩⟩]

theorem readSection_ample :
    ∃ log, (readSection (ample.scope false) 22).run (.ofBytes referring) =
        .ok [referringSubstream] { ByteStream.ofBytes referring with position := 22 } log ∧
      log.warnings = [.unknownStableIndex .knownTypes 100] := by
  have hsparse : (readSection (sparse.scope false) 22).run (.ofBytes referring) =
      .ok [referringSubstream] { ByteStream.ofBytes referring with position := 22 }
        [.note (.substreamTable 1 12), .note (.substream 0 10 0),
          .warning (.unknownStableIndex .knownTypes 100)] := by
    decide +kernel
  exact (readSection_grown sparse ample (by decide) (by decide) (by decide) (by decide) false 22
    (.ofBytes referring)).1 _ _ _ hsparse

end Substream

end XamlBinary
