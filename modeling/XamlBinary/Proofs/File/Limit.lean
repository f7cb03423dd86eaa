import XamlBinary.Proofs.ByteStream.Limit
import XamlBinary.Proofs.File.Coupled
import XamlBinary.Proofs.File.Extension

/-!
Reads that fail are reported.  A parse of a stream that is cut short ends with
the failure of a read, or it is the parse of the whole stream: a failure is
never swallowed and never taken for something that is wrong with the file.
-/

namespace XamlBinary

open Reader

namespace Outcome

/-- The run ended with a fault of the device, and what failed there was a read. -/
def ReadFailed {α : Type} (o : Outcome ByteStream α) : Prop :=
  ∃ fault, o.result = .error fault ∧ fault.cause? = some .readFailure

/-- Beside the same stream without the cut, a run ends alike unless a read failed. -/
theorem Coupled.readFailed_or_eq {α : Type} {offset : Nat} {o p : Outcome ByteStream α}
    (h : o.Coupled (Coupling.cut offset) p) :
    o.ReadFailed ∨ o.result = p.result ∧ o.log.warnings = p.log.warnings := by
  cases h with
  | ok hstates hlog => exact .inr ⟨rfl, hlog⟩
  | fail hfaults hstates hlog => exact .inr ⟨congrArg Except.error hfaults, hlog⟩
  | escape hescape => exact .inl ⟨_, rfl, hescape⟩

end Outcome

namespace File

variable {settings : Settings} {s : ByteStream} {f : File}

/-- A file takes every byte up to the length that the stream reports. -/
theorem reportedLength_le_of_read (h : ((read settings).run s).result = .ok f) :
    s.reportedLength ≤ ({ s with position := 0 } : ByteStream).readable.length := by
  cases hrun : (read settings).run s with
  | fail fault s' log =>
      rw [hrun] at h
      cases h
  | ok f' s' log =>
      obtain ⟨-, -, body, hread, hahead, -⟩ := run_read_eq_ok.mp hrun
      rw [← hread.length_eq]
      exact hahead.length_le

/-- Where reads fail from an offset on, the parse ends with such a failure, or with the result
and the warnings that it has where they do not fail.  An accepted file that ends where the
stream says is read to its last byte, so no offset in it goes unnoticed. -/
theorem read_cut (settings : Settings) (s : ByteStream) (hfree : s.limit = none) (offset : Nat) :
    (((read settings).run (s.cut offset)).ReadFailed ∨
      ((read settings).run (s.cut offset)).result = ((read settings).run s).result ∧
        ((read settings).run (s.cut offset)).log.warnings =
          ((read settings).run s).log.warnings) ∧
    ∀ f, ((read settings).run s).result = .ok f → s.reportedLength = s.bytes.length →
      offset < s.bytes.length → ((read settings).run (s.cut offset)).ReadFailed := by
  have hcoupled : Coupled (Coupling.cut offset) (read settings) (read settings) :=
    coupled_read (Coupling.sound_cut offset) rfl fun m base slice =>
      .within (fun _ => rfl) base slice _
  have hruns := (hcoupled (s.cut offset) s ⟨hfree, rfl⟩).readFailed_or_eq
  refine ⟨hruns, fun f hf hlength hoffset => ?_⟩
  rcases hruns with hfailed | ⟨hresult, -⟩
  · exact hfailed
  · -- a parse that succeeds has read the bytes behind the cut
    have hle := reportedLength_le_of_read (hresult.trans hf)
    have hreadable : ({ s.cut offset with position := 0 } : ByteStream).readable =
        s.bytes.take offset := ByteStream.readable_cut { s with position := 0 } offset
    have hreported : (s.cut offset).reportedLength = s.bytes.length := hlength
    rw [hreadable, hreported, List.length_take] at hle
    omega

/-- The file without a version, of which reads deliver the first twenty bytes only. -/
theorem read_cut_unversioned :
    ((read {}).run ((ByteStream.ofBytes unversioned).cut 20)).ReadFailed := by
  obtain ⟨f, hf⟩ := exists_unversioned
  exact (read_cut {} (ByteStream.ofBytes unversioned) rfl 20).2 f hf rfl (by decide)

end File

end XamlBinary
