import XamlBinary.Proofs.File.Behind
import XamlBinary.Proofs.File.Located
import XamlBinary.Proofs.Substream.Steps

/-!
A rejection depends only on the bytes up to the section that is refused.
Sections are decoded strictly in their order and no decoder sees more than its
slice, so of what stands behind the slice that is refused only its length is
used, in the check of the header.  What stands there can neither change the
verdict nor come before it.
-/

namespace XamlBinary

open Reader

variable {s s' t : ByteStream} {stop : Nat} {log : Log}

/-! ### Stages that do not look ahead -/

namespace Header

/-- What is wrong with the first four bytes, or as many as there are, if they are not the magic
number. -/
def magicFault (found : List UInt8) : FormatFault :=
  if found.length = 4 then .wrongMagic found else .noMagic

theorem run_readMagic_of_ne (hlimit : s.limit = none) (hposition : s.position = 0)
    (h : s.bytes.take 4 ≠ magic) :
    ∃ m, readMagic.run s = .fail (.invalidFormat 0 (magicFault (s.bytes.take 4))) m [] := by
  have hreadable : s.readable.take 4 = s.bytes.take 4 := by
    rw [ByteStream.readable_of_limit hlimit, hposition, List.drop_zero]
  have hpull := ByteStream.pull_eq hreadable
  have hshortage : (s.skip (s.bytes.take 4).length).shortage = .endOfBytes :=
    ByteStream.shortage_of_limit hlimit
  rw [hshortage] at hpull
  simp only [run, readMagic, ByteSource.take, hpull]
  by_cases hfour : (s.bytes.take 4).length = 4
  · rw [if_pos hfour]
    dsimp only
    rw [if_neg h, magicFault, if_pos hfour]
    exact ⟨_, rfl⟩
  · rw [if_neg hfour, magicFault, if_neg hfour]
    exact ⟨_, rfl⟩

end Header

theorem Header.agree_read {layout : HeaderLayout} {header : Header} (h : s.Agree stop t)
    (hrun : (Header.read layout).run s = .ok header s' log) (hstop : s'.position ≤ stop) :
    ∃ t', (Header.read layout).run t = .ok header t' log ∧ s'.Agree stop t' := by
  have hseek := ByteStream.brokenSeek_ne h.plain.2.2 .fromStart
  have hseek' := ByteStream.brokenSeek_ne h.plain_right.2.2 .fromStart
  obtain ⟨-, hvalid, rfl, hspan⟩ := (run_read_eq_ok hseek).mp hrun
  obtain ⟨t', hspan', hagree⟩ := h.spans hspan hstop
  rw [h.reportedLength] at hvalid
  exact ⟨t', (run_read_eq_ok hseek').mpr ⟨h.plain_right.2.2, hvalid, rfl, hspan'⟩, hagree⟩

theorem Metadata.agree_read {size : UInt32} {m : Metadata} (h : s.Agree stop t)
    (hrun : (Metadata.read size).run s = .ok m s' log) (hstop : s'.position ≤ stop) :
    ∃ t', (Metadata.read size).run t = .ok m t' log ∧ s'.Agree stop t' := by
  obtain ⟨hvalid, hsize, hspan, rfl⟩ := run_read_eq_ok.mp hrun
  obtain ⟨t', hspan', hagree⟩ := h.spans hspan hstop
  rw [h.offset]
  exact ⟨t', run_read_eq_ok.mpr ⟨hvalid, hsize, hspan', rfl⟩, hagree⟩

/-- The section is refused by its decoder. -/
theorem Metadata.run_read_of_decoder {bytes : List UInt8} {start : Nat} {size : UInt32}
    {fault : Fault} {c : Cursor} {found : Log} (hs : s.OnAt bytes start)
    (hroom : start + size.toNat ≤ bytes.length)
    (h : Metadata.decoder.run (.start (slice bytes start (start + size.toNat))) =
      .fail fault c found) :
    ∃ m log, (Metadata.read size).run s = .fail (fault.rebase start) m log ∧
      log.warnings = found.warnings := by
  have hblock := hs.run_block hroom "metadata section"
  obtain ⟨hon, rfl⟩ := hs
  rw [Metadata.read, run_position_bind, hon.offset_eq, run_bind_ok hblock,
    run_bind_ok (run_note ..), Substream.run_within_fail h]
  exact ⟨_, _, rfl, rfl⟩

namespace File

/-! ### Slices that are refused -/

/-- All that stands ahead of the body of the node-stream section has been read: the header, the
metadata, and a table that leaves the body some room in the section. -/
inductive Opens (settings : Settings) (s : ByteStream) :
    Scope → (bodyStart bodySize : Nat) → Substream.Turn → Log → Prop
  | intro {header : Header} {metadata : Metadata} {table : List SubstreamEntry}
      {m₁ m₂ m₃ : ByteStream} {l₁ l₂ l₃ : Log} {bodyStart bodySize : Nat} :
      (Header.read settings.layout).run { s with position := 0 } = .ok header m₁ l₁ →
      (Metadata.read header.metadataSize).run m₁ = .ok metadata m₂ l₂ →
      (Reader.table "substream table" SubstreamEntry.read).run m₂ = .ok table m₃ l₃ →
      m₃.position = bodyStart →
      bodyStart + bodySize = m₂.position + header.nodeStreamSize.toNat →
        Opens settings s (metadata.scope settings.strict) bodyStart bodySize ⟨0, table, m₃⟩
          (l₁ ++ l₂ ++ l₃)

/-- The loop over the table has come to substream number `index`, and its entry passes the
checks. -/
inductive Reaches (settings : Settings) (s : ByteStream) :
    Scope → (bodyStart bodySize index : Nat) → SubstreamEntry → List SubstreamEntry → Log → Prop
  | intro {scope : Scope} {bodyStart bodySize index : Nat} {opening : Substream.Turn}
      {entry : SubstreamEntry} {later : List SubstreamEntry} {here : ByteStream}
      {log earlier : Log} :
      Opens settings s scope bodyStart bodySize opening log →
      Substream.Steps scope bodyStart bodySize opening ⟨index, entry :: later, here⟩ earlier →
      entry.Fits bodyStart bodySize here.position later →
        Reaches settings s scope bodyStart bodySize index entry later (log ++ earlier)

/-- The parse is rejected by the decoder of a slice of the bytes that ends at `stop`: by that of the
metadata section, or by that of the nodes or of the lines of a substream. -/
inductive Rejects (settings : Settings) (s : ByteStream) :
    (stop : Nat) → Fault → List Warning → Prop
  | metadata {header : Header} {m : ByteStream} {log found : Log} {fault : Fault} {c : Cursor} :
      (Header.read settings.layout).run { s with position := 0 } = .ok header m log →
      Metadata.decoder.run (.start (slice s.bytes header.size
        (header.size + header.metadataSize.toNat))) = .fail fault c found →
        Rejects settings s (header.size + header.metadataSize.toNat) (fault.rebase header.size)
          (log ++ found).warnings
  | nodes {scope : Scope} {bodyStart bodySize index : Nat} {entry : SubstreamEntry}
      {later : List SubstreamEntry} {log found : Log} {fault : Fault} {c : Cursor} :
      Reaches settings s scope bodyStart bodySize index entry later log →
      (Decoder.nodes scope).run (.start (slice s.bytes (bodyStart + entry.nodeOffset.toNat)
        (bodyStart + entry.lineOffset.toNat))) = .fail fault c found →
        Rejects settings s (bodyStart + entry.lineOffset.toNat)
          (fault.rebase (bodyStart + entry.nodeOffset.toNat)) (log ++ found).warnings
  | lines {scope : Scope} {bodyStart bodySize index : Nat} {entry : SubstreamEntry}
      {later : List SubstreamEntry} {log nodeLog found : Log} {nodes : List PlacedNode}
      {fault : Fault} {c c' : Cursor} :
      Reaches settings s scope bodyStart bodySize index entry later log →
      (Decoder.nodes scope).run (.start (slice s.bytes (bodyStart + entry.nodeOffset.toNat)
        (bodyStart + entry.lineOffset.toNat))) = .ok nodes c' nodeLog →
      Decoder.lineEntries.run (.start (slice s.bytes (bodyStart + entry.lineOffset.toNat)
        (bodyStart + SubstreamEntry.lineEnd bodySize later))) = .fail fault c found →
        Rejects settings s (bodyStart + SubstreamEntry.lineEnd bodySize later)
          (fault.rebase (bodyStart + entry.lineOffset.toNat)) (log ++ (nodeLog ++ found)).warnings

variable {settings : Settings} {scope : Scope} {bodyStart bodySize index : Nat}
  {opening : Substream.Turn} {entry : SubstreamEntry} {later : List SubstreamEntry} {fault : Fault}
  {warnings : List Warning}

/-! ### The other stream -/

/-- The two streams at their start. -/
def AgreeFromStart (stop : Nat) (s t : ByteStream) : Prop :=
  ByteStream.Agree stop { s with position := 0 } { t with position := 0 }

theorem Opens.agree (h : Opens settings s scope bodyStart bodySize opening log)
    (hagree : AgreeFromStart stop s t) (hstop : opening.stream.position ≤ stop) :
    ∃ t', Opens settings t scope bodyStart bodySize { opening with stream := t' } log ∧
      opening.stream.Agree stop t' := by
  obtain ⟨hheader, hmetadata, htable, hstart, hend⟩ := h
  have hreads := reads_quietTable (σ := ByteStream) "substream table" Substream.reads_entry
  -- each stage ends no later than the one behind it
  have hstop₂ := Nat.le_trans
    (ByteStream.position_le_of_spans ((hreads ..).mp htable).2.2) hstop
  have hstop₁ := Nat.le_trans
    (ByteStream.position_le_of_spans (Metadata.run_read_eq_ok.mp hmetadata).2.2.1) hstop₂
  obtain ⟨t₁, hheader', hagree₁⟩ := Header.agree_read hagree hheader hstop₁
  obtain ⟨t₂, hmetadata', hagree₂⟩ := Metadata.agree_read hagree₁ hmetadata hstop₂
  obtain ⟨t₃, htable', hagree₃⟩ := hreads.agree hagree₂ htable hstop
  rw [hagree₃.position] at hstart
  rw [hagree₂.position] at hend
  exact ⟨t₃, .intro hheader' hmetadata' htable' hstart hend, hagree₃⟩

/-- The sizes that an accepted header declares account for the length of the bytes. -/
theorem length_of_run_header (hs : s.IsPlain) {layout : HeaderLayout} {header : Header}
    {m : ByteStream} (h : (Header.read layout).run { s with position := 0 } = .ok header m log) :
    s.bytes.length =
      header.size + header.metadataSize.toNat + header.nodeStreamSize.toNat := by
  have hseek : ({ s with position := 0 } : ByteStream).brokenSeek = none := hs.2.2
  obtain ⟨-, hvalid, -⟩ := (Header.run_read_eq_ok (ByteStream.brokenSeek_ne hseek _)).mp h
  have hlength : s.reportedLength = _ := hvalid.length_eq
  rw [ByteStream.reportedLength, hs.2.1, Option.getD_none, Header.sectionsSize,
    ← Nat.add_assoc] at hlength
  exact hlength

theorem onAt_of_run_header (hs : s.IsPlain) {layout : HeaderLayout} {header : Header}
    {m : ByteStream} (h : (Header.read layout).run { s with position := 0 } = .ok header m log) :
    m.OnAt s.bytes header.size :=
  (Header.triple_read layout).of_run_eq_ok hs.onAt_start h

/-- Plain streams are plain behind the table, which ends with the body at the end of the bytes. -/
theorem Opens.onAt (h : Opens settings s scope bodyStart bodySize opening log) (hs : s.IsPlain) :
    opening.stream.OnAt s.bytes bodyStart ∧ bodyStart + bodySize = s.bytes.length := by
  obtain ⟨hheader, hmetadata, htable, hstart, hend⟩ := h
  have h₁ := onAt_of_run_header hs hheader
  have h₂ := (Metadata.triple_read _ _).of_run_eq_ok h₁ hmetadata
  have h₃ := Substream.located_table.of_run_eq_ok h₂.1 htable
  refine ⟨⟨h₃, hstart⟩, ?_⟩
  rw [hend, h₂.2, length_of_run_header hs hheader]

theorem Reaches.fits {log : Log}
    (h : Reaches settings s scope bodyStart bodySize index entry later log) :
    entry.nodeOffset.toNat ≤ entry.lineOffset.toNat ∧
      entry.lineOffset.toNat ≤ SubstreamEntry.lineEnd bodySize later ∧
      SubstreamEntry.lineEnd bodySize later ≤ bodySize := by
  obtain ⟨-, -, -, hnode, hline, hend⟩ := h
  exact ⟨hnode, hline, hend⟩

theorem Reaches.agree {log : Log}
    (h : Reaches settings s scope bodyStart bodySize index entry later log)
    (hagree : AgreeFromStart stop s t) (hstop : bodyStart + entry.nodeOffset.toNat ≤ stop) :
    Reaches settings t scope bodyStart bodySize index entry later log := by
  obtain ⟨hopens, hsteps, hfits⟩ := h
  have hle := hsteps.position_le (hopens.onAt hagree.plain).1.1.plain.2.2
  rw [← hfits.start] at hstop
  obtain ⟨m, hopens', hagree'⟩ := hopens.agree hagree (Nat.le_trans hle hstop)
  obtain ⟨t', hsteps', hagree''⟩ := hsteps.agree hagree' hstop
  rw [hagree''.position] at hfits
  exact .intro hopens' hsteps' hfits

/-- What a decoder refuses in the first stream it refuses in the second, if the two agree up to the
end of the slice. -/
theorem Rejects.agree (h : Rejects settings s stop fault warnings)
    (hagree : AgreeFromStart stop s t) : Rejects settings t stop fault warnings := by
  have hslice (start stop' : Nat) (hle : stop' ≤ stop) :
      slice s.bytes start stop' = slice t.bytes start stop' := (hagree.mono hle).slice start
  cases h with
  | metadata hheader hdecoder =>
      have hbehind := onAt_of_run_header hagree.plain hheader
      obtain ⟨t', hheader', -⟩ := Header.agree_read hagree hheader (by rw [hbehind.2]; omega)
      rw [hslice _ _ (Nat.le_refl _)] at hdecoder
      exact .metadata hheader' hdecoder
  | nodes hreaches hdecoder =>
      have hfits := hreaches.fits
      rw [hslice _ _ (Nat.le_refl _)] at hdecoder
      exact .nodes (hreaches.agree hagree (by omega)) hdecoder
  | lines hreaches hnodes hdecoder =>
      have hfits := hreaches.fits
      rw [hslice _ _ (by omega)] at hnodes
      rw [hslice _ _ (Nat.le_refl _)] at hdecoder
      exact .lines (hreaches.agree hagree (by omega)) hnodes hdecoder

/-! ### The verdict -/

theorem run_readSections_of_run_header (hs : s.IsPlain) {header : Header} {m : ByteStream}
    (h : (Header.read settings.layout).run { s with position := 0 } = .ok header m log) :
    (readSections settings).run s = ((readBehind settings.strict header).run m).after log := by
  rw [File.run_readSections settings (ByteStream.brokenSeek_ne hs.2.2 _), run_bind_ok h]

theorem run_read_of_readSections (hs : s.IsPlain) {m : ByteStream}
    (h : (readSections settings).run s = .fail fault m log) :
    ((read settings).run s).result = .error fault ∧ ((read settings).run s).log = log := by
  have hcurrent := ByteStream.brokenSeek_ne hs.2.2 .fromCurrent
  constructor
  · rw [read, ByteStream.result_keepingPosition hcurrent, h]
    rfl
  · rw [(run_read_of_seeks settings hcurrent (ByteStream.brokenSeek_ne hs.2.2 _)).2, h]
    rfl

/-- A fault in the loop over the table is the end of the parse. -/
theorem Opens.run_readSections (h : Opens settings s scope bodyStart bodySize opening log)
    (hs : s.IsPlain) {m : ByteStream} {found : Log}
    (hfail : (Substream.readAll scope bodyStart bodySize opening.index opening.table).run
      opening.stream = .fail fault m found) :
    ∃ l, (readSections settings).run s = .fail fault m l ∧
      l.warnings = (log ++ found).warnings := by
  have hbody := (h.onAt hs).1.1.plain.2.2
  cases h with
  | intro hheader hmetadata htable hstart hend =>
      subst hstart
      have hseek : ({ s with position := 0 } : ByteStream).brokenSeek = none := hs.2.2
      obtain ⟨-, -, -, hspan⟩ :=
        (Header.run_read_eq_ok (ByteStream.brokenSeek_ne hseek _)).mp hheader
      obtain ⟨-, -, hspan', -⟩ := Metadata.run_read_eq_ok.mp hmetadata
      have hsection := (ByteStream.brokenSeek_of_spans hspan').trans
        ((ByteStream.brokenSeek_of_spans hspan).trans hseek)
      obtain ⟨last, hsection, hlast⟩ :=
        Substream.run_readSection_of_readAll hsection hbody htable hend hfail
      rw [run_readSections_of_run_header hs hheader, readBehind, run_bind_ok (run_note ..),
        run_bind_ok hmetadata, run_bind_ok (run_note ..), run_bind_fail hsection]
      refine ⟨_, rfl, ?_⟩
      simp [hlast]

/-- So is a fault in the slices of the substream that the loop has come to. -/
theorem Reaches.run_readSections
    (h : Reaches settings s scope bodyStart bodySize index entry later log) (hs : s.IsPlain)
    {found : Log}
    (hfail : ∀ here : ByteStream, here.OnAt s.bytes (bodyStart + entry.nodeOffset.toNat) →
      ∃ m l, (Substream.readParts scope index (SubstreamEntry.lineEnd bodySize later) entry).run
        here = .fail fault m l ∧ l.warnings = found.warnings) :
    ∃ m l, (readSections settings).run s = .fail fault m l ∧
      l.warnings = (log ++ found).warnings := by
  cases h with
  | intro hopens hsteps hfits =>
      have hbody := (hopens.onAt hs).1
      obtain ⟨m, l, hparts, hl⟩ := hfail _ ⟨hsteps.on hbody.1, hfits.start⟩
      have hentry : (Substream.readEntry scope bodyStart bodySize index entry later).run _ = _ :=
        Substream.run_readEntry_of_fits
          (ByteStream.brokenSeek_ne (hsteps.on hbody.1).plain.2.2 _) hfits
      have hall := hsteps.run_readAll_fail (run_bind_fail (hentry.trans hparts) _)
      obtain ⟨l', hrun, hl'⟩ := hopens.run_readSections hs hall
      exact ⟨m, l', hrun, by simpa [hl, List.append_assoc] using hl'⟩

/-- The slices of the substream that the loop has come to lie in the bytes. -/
theorem Reaches.room (h : Reaches settings s scope bodyStart bodySize index entry later log)
    (hs : s.IsPlain) :
    bodyStart + SubstreamEntry.lineEnd bodySize later ≤ s.bytes.length := by
  cases h with
  | intro hopens hsteps hfits =>
      rw [← (hopens.onAt hs).2]
      exact Nat.add_le_add_left hfits.end_le bodyStart

/-- The nodes of that substream end where its lines begin. -/
theorem Reaches.nodes_end
    (h : Reaches settings s scope bodyStart bodySize index entry later log) :
    bodyStart + entry.nodeOffset.toNat + (entry.lineOffset - entry.nodeOffset).toNat =
      bodyStart + entry.lineOffset.toNat := by
  obtain ⟨hnode, -, -⟩ := h.fits
  have hsize := UInt32.toNat_sub_of_le _ _ (UInt32.le_iff_toNat_le.mpr hnode)
  omega

theorem Reaches.lines_end
    (h : Reaches settings s scope bodyStart bodySize index entry later log) :
    bodyStart + entry.lineOffset.toNat +
        (SubstreamEntry.lineEnd bodySize later - entry.lineOffset.toNat) =
      bodyStart + SubstreamEntry.lineEnd bodySize later := by
  obtain ⟨-, hline, -⟩ := h.fits
  omega

theorem Rejects.run_readSections (h : Rejects settings s stop fault warnings) (hs : s.IsPlain) :
    ∃ m l, (readSections settings).run s = .fail fault m l ∧ l.warnings = warnings := by
  cases h with
  | metadata hheader hdecoder =>
      have hbehind := onAt_of_run_header hs hheader
      have hlength := length_of_run_header hs hheader
      obtain ⟨m, l, hsection, hl⟩ := Metadata.run_read_of_decoder hbehind (by omega) hdecoder
      rw [run_readSections_of_run_header hs hheader, readBehind, run_bind_ok (run_note ..),
        run_bind_fail hsection]
      exact ⟨_, _, rfl, by simp [hl]⟩
  | nodes hreaches hdecoder =>
      have hroom := hreaches.room hs
      have hmiddle := hreaches.nodes_end
      have hlast := hreaches.lines_end
      refine hreaches.run_readSections hs fun here hhere => ?_
      exact Substream.run_readParts_of_nodes hhere hmiddle (by omega) hdecoder
  | lines hreaches hnodes hdecoder =>
      refine hreaches.run_readSections hs fun here hhere => ?_
      exact Substream.run_readParts_of_lines hhere hreaches.nodes_end hreaches.lines_end
        (hreaches.room hs) hnodes hdecoder

/-- Where the bytes do not begin with the magic number, nothing but these first bytes is read. -/
theorem run_readSections_of_magic (settings : Settings) (hs : s.IsPlain)
    (hmagic : s.bytes.take 4 ≠ Header.magic) :
    ∃ m, (readSections settings).run s =
      .fail (.invalidFormat 0 (Header.magicFault (s.bytes.take 4))) m [] := by
  obtain ⟨m, hheader⟩ := Header.run_readMagic_of_ne (s := { s with position := 0 }) hs.1 rfl hmagic
  have hread : (Header.read settings.layout).run { s with position := 0 } = _ :=
    run_bind_fail hheader _
  rw [File.run_readSections settings (ByteStream.brokenSeek_ne hs.2.2 _), run_bind_fail hread]
  exact ⟨m, rfl⟩

/-- Two plain streams of one length, read with the same settings.  If they begin with the same four
bytes and these are not the magic number, both are rejected at their start.  If a decoder refuses a
slice of the first, the metadata or the nodes or lines of a substream, and the second agrees with it
up to the end of that slice, both are rejected with the same fault and the same warnings. -/
theorem read_agree (settings : Settings) (s t : ByteStream) (hs : s.IsPlain) (ht : t.IsPlain)
    (hlength : s.bytes.length = t.bytes.length) :
    (s.bytes.take 4 = t.bytes.take 4 → s.bytes.take 4 ≠ Header.magic →
      ∃ reason, ((read settings).run s).result = .error (.invalidFormat 0 reason) ∧
        ((read settings).run t).result = .error (.invalidFormat 0 reason)) ∧
    ∀ stop fault warnings, Rejects settings s stop fault warnings →
      s.bytes.take stop = t.bytes.take stop →
        ((read settings).run s).result = .error fault ∧
        ((read settings).run t).result = .error fault ∧
        ((read settings).run s).log.warnings = warnings ∧
        ((read settings).run t).log.warnings = warnings := by
  constructor
  · intro htake hmagic
    obtain ⟨m, hrun⟩ := run_readSections_of_magic settings hs hmagic
    obtain ⟨m', hrun'⟩ := run_readSections_of_magic settings ht (htake ▸ hmagic)
    rw [← htake] at hrun'
    exact ⟨_, (run_read_of_readSections hs hrun).1, (run_read_of_readSections ht hrun').1⟩
  · intro stop fault warnings hrejects htake
    have hagree : AgreeFromStart stop s t := ⟨hs, ht, rfl, hlength, htake⟩
    obtain ⟨m, log, hrun, hwarnings⟩ := hrejects.run_readSections hs
    obtain ⟨m', log', hrun', hwarnings'⟩ := (hrejects.agree hagree).run_readSections ht
    obtain ⟨hresult, hlog⟩ := run_read_of_readSections hs hrun
    obtain ⟨hresult', hlog'⟩ := run_read_of_readSections ht hrun'
    rw [hlog, hlog']
    exact ⟨hresult, hresult', hwarnings, hwarnings'⟩

/-- A file whose second substream begins with a tag that no node has, and some bytes behind it. -/
def refused (behind : List UInt8) : List UInt8 :=
  [0x58, 0x42, 0x46, 0, 24, 0, 0, 0, 31, 0, 0, 0] ++ List.replicate 24 0 ++
    [3, 0, 0, 0, 0, 0, 0, 0, 1, 0, 0, 0, 1, 0, 0, 0, 2, 0, 0, 0, 2, 0, 0, 0, 3, 0, 0, 0,
      0x09, 0xFF] ++ behind

/-- The nodes of the second substream are refused; they end in front of the last byte. -/
theorem rejects_refused :
    Rejects {} (.ofBytes (refused [0x09])) 66 (.malformed 65 (.unknownNodeKind 0xFF)) [] := by
  have hheader : (Header.read .detect).run (.ofBytes (refused [0x09])) =
      .ok ⟨24, 31, none⟩ { bytes := refused [0x09], position := 12 }
        [.note (.header ⟨24, 31, none⟩)] := by decide +kernel
  have hmetadata : (Metadata.read 24).run { bytes := refused [0x09], position := 12 } =
      .ok {} { bytes := refused [0x09], position := 36 }
        [.note (.metadataSection 12 24), .note (.metadataCounts 0 0 0 0 0 0)] := by decide +kernel
  have htable : (Reader.table "substream table" SubstreamEntry.read).run
      { bytes := refused [0x09], position := 36 } =
        .ok [⟨0, 1⟩, ⟨1, 2⟩, ⟨2, 3⟩] { bytes := refused [0x09], position := 64 } [] := by
    decide +kernel
  have hfirst : (Substream.readEntry (({} : Metadata).scope false) 64 3 0 ⟨0, 1⟩
      [⟨1, 2⟩, ⟨2, 3⟩]).run { bytes := refused [0x09], position := 64 } =
        .ok ⟨⟨0, 1⟩, [⟨0, .endOfStream⟩], []⟩ { bytes := refused [0x09], position := 65 }
          [.note (.substream 0 1 0)] := by decide +kernel
  have hsecond : (Decoder.nodes (({} : Metadata).scope false)).run
      (.start (slice (refused [0x09]) 65 66)) =
        .fail (.malformed 0 (.unknownNodeKind 0xFF)) ⟨1, []⟩ [] := by decide +kernel
  have hopens : Opens {} (.ofBytes (refused [0x09])) (({} : Metadata).scope false) 64 3
      ⟨0, [⟨0, 1⟩, ⟨1, 2⟩, ⟨2, 3⟩], { bytes := refused [0x09], position := 64 }⟩ _ :=
    .intro hheader hmetadata htable rfl rfl
  have hsteps := Substream.Steps.head (.read hfirst) (.refl _)
  have hfits : SubstreamEntry.Fits 64 3 65 ⟨1, 2⟩ [⟨2, 3⟩] :=
    ⟨rfl, by decide, by decide, by decide⟩
  exact .nodes (.intro hopens hsteps hfits) hsecond

/-- What the third substream is made of does not matter. -/
theorem read_agree_refused :
    ((read {}).run (.ofBytes (refused [0x09]))).result =
        .error (.malformed 65 (.unknownNodeKind 0xFF)) ∧
      ((read {}).run (.ofBytes (refused [0xAA]))).result =
        .error (.malformed 65 (.unknownNodeKind 0xFF)) := by
  have hagree := (read_agree {} (.ofBytes (refused [0x09])) (.ofBytes (refused [0xAA]))
    ⟨rfl, rfl, rfl⟩ ⟨rfl, rfl, rfl⟩ rfl).2 66 _ _ rejects_refused (by decide)
  exact ⟨hagree.1, hagree.2.1⟩

end File

end XamlBinary
