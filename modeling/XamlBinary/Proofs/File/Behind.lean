import XamlBinary.Proofs.File.Position
import XamlBinary.Proofs.Header.Read

/-!
What is left to read when the header is known.  The layout that was asked for
matters for the header and for nothing behind it.
-/

namespace XamlBinary

open Reader

namespace File

/-- Reads what stands behind a header that has been read. -/
def readBehind (strict : Bool) (header : Header) : Reader ByteStream File := do
  note (.stage .unopened .headerValidated)
  let metadata ← Metadata.read header.metadataSize
  note (.stage .headerValidated .metadataLoaded)
  let substreams ← Substream.readSection (metadata.scope strict) header.nodeStreamSize
  note (.stage .metadataLoaded .substreamsLoaded)
  checkDeferrals header substreams
  note (.stage .substreamsLoaded .complete)
  pure { header, metadata, substreams }

theorem readSections_eq (settings : Settings) :
    readSections settings = ByteStream.goTo "start of file" 0 >>= fun _ =>
      Header.read settings.layout >>= readBehind settings.strict := rfl

variable {settings : Settings} {s s' : ByteStream} {header : Header}

/-- The header stands at the start of the stream, wherever that stood. -/
theorem run_readSections (settings : Settings) (hseek : s.brokenSeek ≠ some .fromStart) :
    (readSections settings).run s =
      (Header.read settings.layout >>= readBehind settings.strict).run
        { s with position := 0 } := by
  have hgoTo : (ByteStream.goTo "start of file" 0).run s = .ok () { s with position := 0 } [] :=
    ByteStream.run_goTo_eq_ok.mpr ⟨hseek, rfl, rfl⟩
  rw [readSections_eq, run_bind_ok hgoTo, Outcome.after_nil]

/-- A parse that comes past the header is decided by what stands behind it. -/
theorem run_readSections_of_header (hnone : s.brokenSeek = none)
    (hvalid : header.Valid settings.layout s.reportedLength)
    (hspan : Spans header.written { s with position := 0 } s') :
    (readSections settings).run s =
      ((readBehind settings.strict header).run s').after [.note (.header header)] := by
  have hstart : s.brokenSeek ≠ some .fromStart := by simp [hnone]
  have hheader := (Header.run_read_eq_ok (s := { s with position := 0 }) hstart).mpr
    ⟨hnone, hvalid, rfl, hspan⟩
  rw [run_readSections settings hstart, run_bind_ok hheader]

/-- So are its result and its warnings. -/
theorem run_read_of_header (hnone : s.brokenSeek = none)
    (hvalid : header.Valid settings.layout s.reportedLength)
    (hspan : Spans header.written { s with position := 0 } s') :
    ((read settings).run s).result = ((readBehind settings.strict header).run s').result ∧
      ((read settings).run s).log.warnings =
        ((readBehind settings.strict header).run s').log.warnings := by
  have hsections := run_readSections_of_header hnone hvalid hspan
  have hcurrent : s.brokenSeek ≠ some .fromCurrent := by simp [hnone]
  obtain ⟨-, hlog⟩ := run_read_of_seeks settings hcurrent (by simp [hnone])
  constructor
  · rw [read, ByteStream.result_keepingPosition hcurrent, hsections, Outcome.result_after]
  · rw [hlog, hsections, Outcome.log_after, Log.warnings_append]
    rfl

end File

end XamlBinary
