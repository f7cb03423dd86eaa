import XamlBinary.File.Read
import XamlBinary.Proofs.ByteStream.Same
import XamlBinary.Proofs.File.Coupled
import XamlBinary.Proofs.Node.Tolerant

/-!
Parsing leaves the stream as it found it, whatever goes wrong on the way.  The
sections move nothing but the position, and going back works as long as seeks
from the start work.  Where these never work, the parse fails before anything
has moved, and the warning that going back failed is the only trace.
-/

namespace XamlBinary

open Reader

/-! ### What the sections warn of -/

theorem ByteStream.warns_block {P : Warning → Prop} (what : String) (count : Nat) :
    Warns P (block what count) := by
  refine Warns.quiet fun s => ?_
  rw [run, block]
  split <;> rfl

theorem ByteStream.warns_goTo {P : Warning → Prop} (what : String) (offset : Nat) :
    Warns P (goTo what offset) := by
  refine Warns.quiet fun s => ?_
  rw [run, goTo]
  split <;> rfl

theorem ByteStream.warns_measure {P : Warning → Prop} (offset : Nat) :
    Warns P (measure offset) := by
  refine Warns.quiet fun s => ?_
  rw [run, measure]
  split <;> rfl

namespace Header

variable {P : Warning → Prop}

theorem warns_readMagic : Warns P readMagic := by
  refine Warns.quiet fun s => ?_
  rw [run, readMagic]
  split
  · split <;> rfl
  · rfl
  · rfl

theorem warns_readVersion : Warns P readVersion :=
  Warns.position.bind fun _ => (Warns.uint32 _).bind fun _ => (Warns.uint32 _).bind fun _ =>
    .ite (.pure _) (.fail _)

theorem warns_read (layout : HeaderLayout) : Warns P (read layout) := by
  refine warns_readMagic.bind fun _ => (ByteStream.warns_measure 4).bind fun length => ?_
  refine .ite (.fail _) ((Warns.uint32 _).bind fun m => (Warns.uint32 _).bind fun n => ?_)
  cases versioned? layout length (sectionsSize m n) with
  | none => exact .fail _
  | some hasVersion =>
      have hrest (version : Option Version) : Warns P
          (note (.header ⟨m, n, version⟩) >>= fun _ => pure (Header.mk m n version) :
            Reader ByteStream Header) :=
        (Warns.note _).bind fun _ => .pure _
      exact .ite ((warns_readVersion.map some).bind hrest) ((Warns.pure none).bind hrest)

end Header

theorem Metadata.warns_read (size : UInt32) : Warns Warning.IsOddity (Metadata.read size) :=
  Warns.position.bind fun _ => (ByteStream.warns_block _ _).bind fun _ =>
    (Warns.note _).bind fun _ => Decoder.Tolerant.metadata.within _ _

namespace Substream

theorem warns_readParts (scope : Scope) (index lineEnd : Nat) (entry : SubstreamEntry) :
    Warns Warning.IsOddity (readParts scope index lineEnd entry) := by
  refine Warns.position.bind fun _ => (Warns.note _).bind fun _ => ?_
  refine (ByteStream.warns_block _ _).bind fun _ => ?_
  refine ((Decoder.Tolerant.nodes scope).within _ _).bind fun _ => ?_
  refine (ByteStream.warns_block _ _).bind fun _ => ?_
  exact (Decoder.Tolerant.lineEntries.within _ _).bind fun _ => .pure _

theorem warns_readEntry (scope : Scope) (bodyStart bodySize index : Nat) (entry : SubstreamEntry)
    (later : List SubstreamEntry) :
    Warns Warning.IsOddity (readEntry scope bodyStart bodySize index entry later) :=
  Warns.position.bind fun _ => .ite (.fail _) (.ite (.fail _) (.ite (.fail _)
    (warns_readParts scope index _ entry)))

theorem warns_readAll (scope : Scope) (bodyStart bodySize index : Nat)
    (table : List SubstreamEntry) :
    Warns Warning.IsOddity (readAll scope bodyStart bodySize index table) := by
  induction table generalizing index with
  | nil => exact .pure []
  | cons entry later ih =>
      have hentry := warns_readEntry scope bodyStart bodySize index entry later
      exact hentry.bind fun _ => (ih (index + 1)).bind fun _ => .pure _

theorem warns_readSection (scope : Scope) (size : UInt32) :
    Warns Warning.IsOddity (readSection scope size) := by
  have hentry : Warns Warning.IsOddity SubstreamEntry.read :=
    (Warns.uint32 _).bind fun _ => (Warns.uint32 _).bind fun _ => .pure _
  refine Warns.position.bind fun _ => (Warns.table _ hentry).bind fun table => ?_
  refine Warns.position.bind fun _ => .ite (.fail _) ((Warns.note _).bind fun _ => ?_)
  refine (warns_readAll scope _ _ 0 table).bind fun _ => Warns.position.bind fun _ => ?_
  exact .ite (.fail _) (.pure _)

end Substream

namespace File

theorem warns_readSections (settings : Settings) :
    Warns Warning.IsOddity (readSections settings) := by
  refine (ByteStream.warns_goTo _ _).bind fun _ => (Header.warns_read _).bind fun header => ?_
  refine (Warns.note _).bind fun _ => (Metadata.warns_read _).bind fun metadata => ?_
  refine (Warns.note _).bind fun _ => (Substream.warns_readSection _ _).bind fun substreams => ?_
  have hcheck : Warns Warning.IsOddity (checkDeferrals header substreams) := by
    rw [checkDeferrals]
    split
    · exact .fail _
    · exact .pure ()
  exact (Warns.note _).bind fun _ => hcheck.bind fun _ => (Warns.note _).bind fun _ => .pure _

/-! ### Where the stream stands -/

variable {settings : Settings} {s : ByteStream}

theorem moved_readSections (settings : Settings) (s : ByteStream) :
    s.Moved ((readSections settings).run s).state := by
  have hcoupled : Coupled (.same s.Moved fun _ => False) (readSections settings)
      (readSections settings) :=
    coupled_readSections (Coupling.sound_same fun _ _ h hs => hs.trans h) rfl
      fun _ base slice => .within (fun _ => rfl) base slice _
  exact (hcoupled s s ⟨rfl, .refl s⟩).inv

theorem run_read_of_fromCurrent (h : s.brokenSeek = some .fromCurrent) :
    (read settings).run s = .fail (.device 0 "stream position" .seekFailure) s [] := by
  simp only [run, read, ByteStream.keepingPosition, ByteStream.tell, if_pos h]

/-- The first seek fails, and so does the one that should undo it. -/
theorem run_read_of_fromStart (h : s.brokenSeek = some .fromStart) :
    (read settings).run s = .fail (.device 0 "start of file" .seekFailure) s
      [.warning (.positionNotRestored s.position .seekFailure)] := by
  have htell : s.tell = .ok s.position := by rw [ByteStream.tell, h]; rfl
  have hseek (position : Nat) : s.seekTo position = .error .seekFailure := if_pos h
  have hsections : (readSections settings).run s =
      .fail (.device 0 "start of file" .seekFailure) s [] := by
    refine run_bind_fail ?_ _
    simp only [run, ByteStream.goTo, hseek]
  simp only [run] at hsections
  simp only [run, read, ByteStream.keepingPosition, htell, hsections, ByteStream.restore, hseek,
    List.nil_append]

/-- Where seeks work, going back is the only thing that is done besides reading the sections. -/
theorem run_read_of_seeks (settings : Settings) (hcurrent : s.brokenSeek ≠ some .fromCurrent)
    (hstart : s.brokenSeek ≠ some .fromStart) :
    ((read settings).run s).state = s ∧
      ((read settings).run s).log = ((readSections settings).run s).log := by
  have htell : s.tell = .ok s.position := by rw [ByteStream.tell, if_neg hcurrent]
  rw [run, read, ByteStream.keepingPosition, htell]
  exact ByteStream.restore_of_moved (moved_readSections settings s) hstart

/-- The stream is left as it was, and the warning that it could not be is logged exactly where
seeks from the start never work. -/
theorem state_read (settings : Settings) (s : ByteStream) :
    ((read settings).run s).state = s ∧
      ∀ position cause,
        Warning.positionNotRestored position cause ∈ ((read settings).run s).log.warnings ↔
          s.brokenSeek = some .fromStart ∧ position = s.position ∧ cause = .seekFailure := by
  by_cases hcurrent : s.brokenSeek = some .fromCurrent
  · rw [run_read_of_fromCurrent hcurrent, hcurrent]
    refine ⟨rfl, fun position cause => iff_of_false List.not_mem_nil ?_⟩
    rintro ⟨⟨⟩, -⟩
  by_cases hstart : s.brokenSeek = some .fromStart
  · rw [run_read_of_fromStart hstart]
    refine ⟨rfl, fun position cause => ?_⟩
    refine List.mem_singleton.trans ?_
    rw [Warning.positionNotRestored.injEq]
    exact (and_iff_right hstart).symm
  · obtain ⟨hstate, hlog⟩ := run_read_of_seeks settings hcurrent hstart
    refine ⟨hstate, fun position cause => iff_of_false (fun hwarning => ?_) fun h => hstart h.1⟩
    rw [hlog] at hwarning
    exact warns_readSections settings s _ hwarning

end File

end XamlBinary
