import XamlBinary.Proofs.File.Rejection
import XamlBinary.Proofs.Header.Checked
import XamlBinary.Proofs.Substream.Checked

/-!
What can go wrong with plain data.  Whether the bytes are a file at all is
decided by the header.  Behind a header that was accepted a fault is always
one of the data, and the checks that the header has decided already never
fail; no offset is computed that a word cannot hold.
-/

namespace XamlBinary

open Reader Checked

variable {bytes : List UInt8} {emptyTable : Prop}

/-! ### Sections -/

namespace Metadata

def readChecked (size : UInt32) : Checked ByteStream Metadata := do
  let start ← .step position
  let bytes ← ByteStream.blockChecked "metadata section" size.toNat
  .step (note (.metadataSection start size))
  within start bytes (.step decoder)

theorem follows_read {start : Nat} {size : UInt32} (hfits : bytes.length < limit)
    (hroom : start + size.toNat ≤ bytes.length) :
    Follows (ByteStream.OnAt bytes start) (readChecked size) (read size)
      (fun _ => ByteStream.OnAt bytes (start + size.toNat)) (Fault.CanArise emptyTable) := by
  refine ByteStream.follows_position ?_
  refine .bind (ByteStream.follows_block _ hroom) fun slice => .assume fun hslice => ?_
  refine .bind (.keeps (.report _)) fun _ => ?_
  exact .within (.located Decoder.Located.metadata) (by omega)

end Metadata

namespace File

/-- The table of the node-stream section has no entry. -/
def EmptyTable (header : Header) (bytes : List UInt8) : Prop :=
  [0, 0, 0, 0] <+: bytes.drop (header.size + header.metadataSize.toNat)

def checkDeferralsChecked (header : Header) (substreams : List Substream) :
    Checked ByteStream Unit := do
  fits (bodyStart header substreams)
  match (deferrals header substreams).find? fun d => substreams.length ≤ d.substream.toNat with
  | some d => do
      fits d.offset
      .step (malformed d.offset (.missingSubstream d.substream substreams.length))
  | none => pure ()

def readBehindChecked (strict : Bool) (header : Header) : Checked ByteStream File := do
  .step (note (.stage .unopened .headerValidated))
  let metadata ← Metadata.readChecked header.metadataSize
  .step (note (.stage .headerValidated .metadataLoaded))
  let substreams ←
    Substream.readSectionChecked (metadata.scope strict) header.nodeStreamSize
  .step (note (.stage .metadataLoaded .substreamsLoaded))
  checkDeferralsChecked header substreams
  .step (note (.stage .substreamsLoaded .complete))
  pure { header, metadata, substreams }

def readSectionsChecked (settings : Settings) : Checked ByteStream File := do
  .step (ByteStream.goTo "start of file" 0)
  let header ← Header.readChecked settings.layout
  readBehindChecked settings.strict header

/-- Reads a file and returns the stream to where it stood.  It is stopped by a sum of offsets that no
word can hold, by a difference of them that is negative, and by a section or a slice of a substream
that is not there as a whole. -/
def readChecked (settings : Settings) : Checked ByteStream File := fun s =>
  match s.tell with
  | .error cause => some (.fail (.device 0 "stream position" cause) s [])
  | .ok position => ((readSectionsChecked settings).run s).map (ByteStream.restore position)

variable {header : Header} {substreams : List Substream} {settings : Settings} {s : ByteStream}

theorem offset_lt_of_mem_deferrals {d : Deferral} (h : d ∈ deferrals header substreams) :
    d.offset < bodyStart header substreams + 2 ^ 33 := by
  obtain ⟨sub, -, hd⟩ := List.mem_flatMap.mp h
  obtain ⟨placed, -, hplaced⟩ := List.mem_filterMap.mp hd
  have hnode := sub.entry.nodeOffset.toNat_lt
  have hplace := placed.offset.toNat_lt
  cases hkind : placed.node with
  | runtimeData data substream =>
      rw [hkind] at hplaced
      cases hplaced
      dsimp only
      omega
  | _ =>
      rw [hkind] at hplaced
      cases hplaced

theorem follows_checkDeferrals {State : ByteStream → Prop}
    (hfits : bodyStart header substreams + 2 ^ 33 < limit) :
    Follows State (checkDeferralsChecked header substreams) (checkDeferrals header substreams)
      (fun _ => State) (Fault.CanArise emptyTable) := by
  refine .fits (by omega) ?_
  rw [checkDeferrals]
  cases hfind : (deferrals header substreams).find? fun d =>
      substreams.length ≤ d.substream.toNat with
  | some d =>
      have hoffset := offset_lt_of_mem_deferrals (List.mem_of_find?_eq_some hfind)
      exact .fits (by omega) (.fail trivial)
  | none => exact .pure fun _ hs => hs

theorem follows_readBehind (strict : Bool)
    (h : bytes.length = header.size + header.metadataSize.toNat + header.nodeStreamSize.toNat) :
    Follows (ByteStream.OnAt bytes header.size) (readBehindChecked strict header)
      (readBehind strict header) (fun _ _ => True) (Fault.CanArise (EmptyTable header bytes)) := by
  have hm := header.metadataSize.toNat_lt
  have hn := header.nodeStreamSize.toNat_lt
  have hsize := header.size_le
  have hfits : bytes.length + 2 ^ 34 < limit := by
    rw [limit]
    omega
  refine .bind (.keeps (.report _)) fun _ => ?_
  refine .bind (Metadata.follows_read (by omega) (by omega)) fun metadata => ?_
  refine .bind (.keeps (.report _)) fun _ => ?_
  refine .bind (Substream.follows_readSection (by omega) h.symm) fun substreams =>
    .assume fun hcount => ?_
  have hbody : bodyStart header substreams + 2 ^ 33 < limit := by
    rw [bodyStart]
    omega
  refine .bind (.keeps (.report _)) fun _ => (follows_checkDeferrals hbody).bind fun _ => ?_
  exact .bind (.keeps (.report _)) fun _ => .pure fun _ _ => trivial

theorem follows_readSections (settings : Settings) :
    Follows (fun s => s.IsPlain ∧ s.bytes = bytes) (readSectionsChecked settings)
      (readSections settings) (fun _ _ => True) fun _ => True := by
  rw [readSections_eq]
  refine .bind (.step (ByteStream.triple_goTo _)) fun _ => ?_
  refine (Header.follows_read settings.layout).forget.bind fun header => ?_
  exact .assume fun hlength => (follows_readBehind settings.strict hlength).forget

theorem run_readChecked (settings : Settings) (hs : s.IsPlain) :
    (readChecked settings).run s = some ((read settings).run s) := by
  have htell : s.tell = .ok s.position := if_neg (ByteStream.brokenSeek_ne hs.2.2 _)
  have hsections := (follows_readSections settings s ⟨hs, rfl⟩).1
  simp only [Checked.run, Reader.run] at hsections
  simp only [Checked.run, Reader.run, readChecked, read, ByteStream.keepingPosition, htell,
    hsections, Option.map_some]

/-- What becomes of plain data is decided by its header first. -/
theorem faults_of_read (settings : Settings) (hs : s.IsPlain) :
    match (Header.read settings.layout).run { s with position := 0 } with
    | .ok header _ _ => ∀ fault, ((read settings).run s).result = .error fault →
        fault.CanArise (EmptyTable header s.bytes)
    | .fail fault _ _ => Header.Refusal fault ∧ ((read settings).run s).result = .error fault := by
  have hmeets := (Header.follows_read settings.layout _ hs.onAt_start).2
  have hresult : ((read settings).run s).result = ((readSections settings).run s).result :=
    ByteStream.result_keepingPosition (ByteStream.brokenSeek_ne hs.2.2 _)
  rw [hresult, run_readSections settings (ByteStream.brokenSeek_ne hs.2.2 _)]
  cases hheader : (Header.read settings.layout).run { s with position := 0 } with
  | ok header m log =>
      rw [hheader] at hmeets
      obtain ⟨hlength, hm⟩ := hmeets
      rw [run_bind_ok hheader, Outcome.result_after]
      exact fun fault => (follows_readBehind settings.strict hlength m hm).2.fail
  | fail fault m log =>
      rw [hheader] at hmeets
      rw [run_bind_fail hheader]
      exact ⟨hmeets, rfl⟩

/-- A parse of plain data never fails for the device.  It fails for the format exactly where the
header is refused.  Behind a header that is accepted every fault is one of the data that can come
up: no section, no nodes and no lines are cut, the table does not run over the end of its section,
only the first substream can be found at another place than the table gives for it, and only a
section without substreams can have bytes left over.  Neither its arithmetic nor a slice that is
short ever stops the parse. -/
theorem read_of_isPlain (settings : Settings) (s : ByteStream) (hs : s.IsPlain) :
    (∀ fault, ((read settings).run s).result = .error fault → fault.cause? = none) ∧
    ((∃ offset reason, ((read settings).run s).result = .error (.invalidFormat offset reason)) ↔
      ∀ header m log,
        (Header.read settings.layout).run { s with position := 0 } ≠ .ok header m log) ∧
    (∀ header m log, (Header.read settings.layout).run { s with position := 0 } = .ok header m log →
      ∀ fault, ((read settings).run s).result = .error fault →
        fault.CanArise (EmptyTable header s.bytes)) ∧
    (readChecked settings).run s = some ((read settings).run s) := by
  have hfaults := faults_of_read settings hs
  cases hheader : (Header.read settings.layout).run { s with position := 0 } with
  | ok header m log =>
      rw [hheader] at hfaults
      refine ⟨fun fault hfault => (hfaults fault hfault).cause?_eq_none, ?_, ?_,
        run_readChecked settings hs⟩
      · refine iff_of_false ?_ fun hrefused => hrefused header m log rfl
        rintro ⟨offset, reason, hfault⟩
        exact hfaults _ hfault
      · rintro _ _ _ ⟨⟩
        exact hfaults
  | fail fault m log =>
      rw [hheader] at hfaults
      obtain ⟨⟨offset, reason, rfl⟩, hresult⟩ := hfaults
      rw [hresult]
      refine ⟨?_, iff_of_true ⟨offset, reason, rfl⟩ ?_, ?_, run_readChecked settings hs⟩
      · rintro _ ⟨⟩
        rfl
      · rintro header m log ⟨⟩
      · rintro header m log ⟨⟩

/-- A file without substreams whose node-stream section has a byte behind its table. -/
def stray : List UInt8 :=
  [0x58, 0x42, 0x46, 0, 24, 0, 0, 0, 5, 0, 0, 0] ++ List.replicate 24 0 ++ [0, 0, 0, 0, 7]

/-- The section ends behind its substreams, which takes an empty table. -/
theorem read_of_isPlain_stray :
    ofBytes {} stray = .error (.malformed 40 (.substreamsEnd 40 41)) ∧
      EmptyTable ⟨24, 5, none⟩ stray ∧
      (readChecked {}).run (.ofBytes stray) = some ((read {}).run (.ofBytes stray)) := by
  have hfault : ofBytes {} stray = .error (.malformed 40 (.substreamsEnd 40 41)) := by
    decide +kernel
  have hheader : (Header.read .detect).run (.ofBytes stray) =
      .ok ⟨24, 5, none⟩ { bytes := stray, position := 12 } [.note (.header ⟨24, 5, none⟩)] := by
    decide +kernel
  obtain ⟨-, -, hbehind, hchecked⟩ := read_of_isPlain {} (.ofBytes stray) ⟨rfl, rfl, rfl⟩
  exact ⟨hfault, hbehind _ _ _ hheader _ hfault, hchecked⟩

end File

end XamlBinary
