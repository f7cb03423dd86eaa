import XamlBinary.File.Read
import XamlBinary.Proofs.Header.Read
import XamlBinary.Proofs.Metadata.Decode
import XamlBinary.Proofs.Substream.Read

/-!
Files are read exactly.  What a file says of itself fixes its bytes up to the
body of the node-stream section, where 7-bit integers can be spelled in more
than one way.
-/

namespace XamlBinary

open Reader

theorem Header.isFixed_written (header : Header) : header.written.IsFixed := by
  obtain ⟨m, n, version⟩ := header
  cases version <;> simp [Header.written, Version.optional, Version.written]

@[simp] theorem Header.length_bytes (header : Header) :
    header.written.bytes.length = header.size := by
  obtain ⟨m, n, version⟩ := header
  cases version <;> simp [Header.written, Version.optional, Version.written, Header.magic]

theorem Metadata.run_read_eq_ok {size : UInt32} {s s' : ByteStream} {m : Metadata} {log : Log} :
    (Metadata.read size).run s = .ok m s' log ↔
      m.Valid ∧ m.written.bytes.length = size.toNat ∧ Spans [.fixed m.written.bytes] s s' ∧
        log = .note (.metadataSection s.offset size) ::
          (m.warnings.map .warning ++ [.note m.countsNote]) := by
  rw [Metadata.read, run_position_bind, run_bind_eq_ok]
  constructor
  · rintro ⟨bytes, s₁, _, _, hblock, hrest, rfl⟩
    obtain ⟨hlength, rfl, hspan⟩ := (ByteStream.reads_block ..).mp hblock
    obtain ⟨_, hwithin, rfl⟩ := run_note_bind_eq_ok.mp hrest
    obtain ⟨rfl, c, hrun⟩ := run_within_eq_ok.mp hwithin
    obtain ⟨hvalid, rfl, rfl, -⟩ := run_decoder_eq_ok.mp hrun
    exact ⟨hvalid, hlength, hspan, rfl⟩
  · rintro ⟨hvalid, hlength, hspan, rfl⟩
    refine ⟨_, s', _, _, (ByteStream.reads_block ..).mpr ⟨hlength, rfl, hspan⟩, ?_, rfl⟩
    exact run_note_bind_eq_ok.mpr ⟨_, run_within_eq_ok.mpr ⟨rfl, _,
      run_decoder_eq_ok.mpr ⟨hvalid, rfl, rfl, rfl⟩⟩, rfl⟩

namespace File

/-- The bytes of a file ahead of the body of its node-stream section. -/
def front (f : File) : List UInt8 :=
  f.header.written.bytes ++ (f.metadata.written.bytes ++
    SubstreamEntry.tableBytes (f.substreams.map (·.entry)))

/-- The file can be read from a stream of that length in which the body is what follows its
front. -/
structure ReadFrom (settings : Settings) (length : Nat) (f : File) (body : List UInt8) :
    Prop where
  header : f.header.Valid settings.layout length
  metadata : f.metadata.Valid
  metadataSize : f.metadata.written.bytes.length = f.header.metadataSize.toNat
  count : f.substreams.length < 2 ^ 31
  tiled : Substream.Tiled (f.metadata.scope settings.strict) body.length 0 f.substreams body
  nodeStreamSize : 4 + 8 * f.substreams.length + body.length = f.header.nodeStreamSize.toNat
  deferrals : ∀ d ∈ File.deferrals f.header f.substreams, d.substream.toNat < f.substreams.length

/-- What reading a file with a body of that size logs. -/
def readLog (bodySize : Nat) (f : File) : Log :=
  .note (.header f.header) :: .note (.stage .unopened .headerValidated) ::
  .note (.metadataSection f.header.size f.header.metadataSize) ::
  (f.metadata.warnings.map .warning ++ .note f.metadata.countsNote ::
  .note (.stage .headerValidated .metadataLoaded) ::
  .note (.substreamTable f.substreams.length (bodyStart f.header f.substreams)) ::
  (Substream.readLog bodySize 0 f.substreams ++
  [.note (.stage .metadataLoaded .substreamsLoaded), .note (.stage .substreamsLoaded .complete)]))

variable {settings : Settings} {f : File} {s s' : ByteStream} {log : Log}

/-- The deferrals of a substream name the substreams that its custom runtime data defers to. -/
theorem map_substream_deferralsOf (bodyStart : Nat) (s : Substream) :
    (deferralsOf bodyStart s).map (·.substream) = s.runtimeData.map (·.2) := by
  rw [deferralsOf, Substream.runtimeData, List.map_filterMap, List.map_filterMap]
  refine List.filterMap_congr fun p _ => ?_
  cases p.node <;> rfl

theorem forall_deferrals_iff {header : Header} {subs : List Substream} {P : UInt32 → Prop} :
    (∀ d ∈ deferrals header subs, P d.substream) ↔
      ∀ s ∈ subs, ∀ d ∈ s.runtimeData, P d.2 := by
  have hmap (s : Substream) : (∀ d ∈ deferralsOf (bodyStart header subs) s, P d.substream) ↔
      ∀ d ∈ s.runtimeData, P d.2 := by
    rw [← List.forall_mem_map (f := Deferral.substream), map_substream_deferralsOf,
      List.forall_mem_map]
  simp only [deferrals, List.forall_mem_flatMap, hmap]

theorem run_checkDeferrals_eq_ok {header : Header} {substreams : List Substream} :
    (checkDeferrals header substreams).run s = .ok () s' log ↔
      (∀ d ∈ deferrals header substreams, d.substream.toNat < substreams.length) ∧
        s' = s ∧ log = [] := by
  rw [checkDeferrals]
  split
  · rename_i d hfind
    refine iff_of_false (by simp) fun h => ?_
    have hmissing := List.find?_some hfind
    rw [decide_eq_true_iff] at hmissing
    exact absurd (h.1 d (List.mem_of_find?_eq_some hfind)) (Nat.not_lt.mpr hmissing)
  · rename_i hnone
    have hall : ∀ d ∈ deferrals header substreams, d.substream.toNat < substreams.length := by
      simpa using hnone
    rw [run_pure_eq_ok, and_iff_right rfl]
    exact (and_iff_right hall).symm

theorem spans_header_iff {header : Header} :
    Spans header.written s s' ↔ Spans [.fixed header.written.bytes] s s' := by
  simp only [Spans, header.isFixed_written.spells_iff, Written.spells_fixed_iff]

/-- The front of a file and a body behind it. -/
theorem spans_front_append_iff {body : List UInt8} :
    Spans [.fixed (f.front ++ body)] s s' ↔ ∃ s₂ s₃,
      Spans [.fixed f.header.written.bytes] s s₂ ∧ Spans [.fixed f.metadata.written.bytes] s₂ s₃ ∧
        Spans [.fixed (SubstreamEntry.tableBytes (f.substreams.map (·.entry)) ++ body)] s₃ s' := by
  rw [front, List.append_assoc, List.append_assoc]
  simp only [spans_fixed_append_iff (x := f.header.written.bytes),
    spans_fixed_append_iff (x := f.metadata.written.bytes)]
  constructor
  · rintro ⟨s₂, hspan₁, s₃, hspan₂, hspan₃⟩
    exact ⟨s₂, s₃, hspan₁, hspan₂, hspan₃⟩
  · rintro ⟨s₂, s₃, hspan₁, hspan₂, hspan₃⟩
    exact ⟨s₂, hspan₁, s₃, hspan₂, hspan₃⟩

/-- Where the metadata and the node-stream section begin. -/
theorem places_of_spans {header : Header} {bytes : List UInt8} {s₂ s₃ : ByteStream}
    (hposition : s.position = 0) (hnone : s.brokenSeek = none)
    (hspan₁ : Spans [.fixed header.written.bytes] s s₂) (hspan₂ : Spans [.fixed bytes] s₂ s₃) :
    s₂.offset = header.size ∧ s₃.brokenSeek ≠ some .fromCurrent ∧
      s₃.position = header.size + bytes.length := by
  have hseek₂ := ByteStream.brokenSeek_of_spans hspan₁
  have hseek₃ := ByteStream.brokenSeek_of_spans hspan₂
  have hposition₂ := ByteStream.position_of_spans hspan₁
  have hposition₃ := ByteStream.position_of_spans hspan₂
  rw [hposition, Nat.zero_add, Header.length_bytes] at hposition₂
  refine ⟨?_, ?_, ?_⟩
  · rw [ByteStream.offset_of_tell (by simp [hseek₂, hnone]), hposition₂]
  · simp [hseek₃, hseek₂, hnone]
  · rw [hposition₃, hposition₂]

/-- The stages of reading, one after the other; what each of them takes is put together to the
bytes of the file. -/
theorem run_readSections_eq_ok :
    (readSections settings).run s = .ok f s' log ↔
      s.brokenSeek = none ∧ ∃ body, f.ReadFrom settings s.reportedLength body ∧
        Spans [.fixed (f.front ++ body)] { s with position := 0 } s' ∧
        log = f.readLog body.length := by
  rw [readSections, run_bind_eq_ok]
  constructor
  · rintro ⟨_, s₁, _, _, hgoTo, h₁, rfl⟩
    obtain ⟨hstart, hs₁, rfl⟩ := ByteStream.run_goTo_eq_ok.mp hgoTo
    have hseek : s₁.brokenSeek = s.brokenSeek := by rw [hs₁]
    have hlength : s₁.reportedLength = s.reportedLength := by rw [hs₁]; rfl
    have hposition : s₁.position = 0 := by rw [hs₁]
    rw [← hs₁, ← hseek, ← hlength]
    rw [← hseek] at hstart
    obtain ⟨header, s₂, _, _, hheader, h₂, rfl⟩ := run_bind_eq_ok.mp h₁
    obtain ⟨hnone, hvalid, rfl, hspan₁⟩ := (Header.run_read_eq_ok hstart).mp hheader
    obtain ⟨_, h₃, rfl⟩ := run_note_bind_eq_ok.mp h₂
    obtain ⟨metadata, s₃, _, _, hmetadata, h₄, rfl⟩ := run_bind_eq_ok.mp h₃
    obtain ⟨hmeta, hsize, hspan₂, rfl⟩ := Metadata.run_read_eq_ok.mp hmetadata
    obtain ⟨_, h₅, rfl⟩ := run_note_bind_eq_ok.mp h₄
    obtain ⟨substreams, s₄, _, _, hsection, h₆, rfl⟩ := run_bind_eq_ok.mp h₅
    -- all three stretches are known, so they can be put together
    rw [spans_header_iff] at hspan₁
    obtain ⟨hoffset, htell, hbody⟩ := places_of_spans hposition hnone hspan₁ hspan₂
    obtain ⟨hcount, body, htiled, htotal, hspan₃, rfl⟩ :=
      (Substream.run_readSection_eq_ok htell).mp hsection
    obtain ⟨_, h₇, rfl⟩ := run_note_bind_eq_ok.mp h₆
    obtain ⟨_, s₅, _, _, hcheck, h₈, rfl⟩ := run_bind_eq_ok.mp h₇
    obtain ⟨hdeferrals, rfl, rfl⟩ := run_checkDeferrals_eq_ok.mp hcheck
    obtain ⟨_, h₉, rfl⟩ := run_note_bind_eq_ok.mp h₈
    obtain ⟨rfl, rfl, rfl⟩ := run_pure_eq_ok.mp h₉
    refine ⟨hnone, body, ⟨hvalid, hmeta, hsize, hcount, htiled, htotal, hdeferrals⟩, ?_, ?_⟩
    · exact spans_front_append_iff.mpr ⟨s₂, s₃, hspan₁, hspan₂, hspan₃⟩
    · simp [readLog, hoffset, hbody, bodyStart, hsize, Nat.add_assoc]
  · rintro ⟨hnone, body, hread, hspan, rfl⟩
    obtain ⟨hvalid, hmeta, hsize, hcount, htiled, htotal, hdeferrals⟩ := hread
    obtain ⟨s₂, s₃, hspan₁, hspan₂, hspan₃⟩ := spans_front_append_iff.mp hspan
    obtain ⟨hoffset, htell, hbody⟩ :=
      places_of_spans (s := { s with position := 0 }) rfl hnone hspan₁ hspan₂
    have hgoTo : (ByteStream.goTo "start of file" 0).run s = .ok () { s with position := 0 } [] :=
      ByteStream.run_goTo_eq_ok.mpr ⟨by simp [hnone], rfl, rfl⟩
    have hheader := (Header.run_read_eq_ok (s := { s with position := 0 }) (by simp [hnone])).mpr
      ⟨hnone, hvalid, rfl, spans_header_iff.mpr hspan₁⟩
    have hmetadata := Metadata.run_read_eq_ok.mpr ⟨hmeta, hsize, hspan₂, rfl⟩
    have hsection := (Substream.run_readSection_eq_ok htell).mpr
      ⟨hcount, body, htiled, htotal, hspan₃, rfl⟩
    have hcheck := (run_checkDeferrals_eq_ok (s := s')).mpr ⟨hdeferrals, rfl, rfl⟩
    refine ⟨(), _, _, _, hgoTo, ?_, rfl⟩
    rw [run_bind_ok hheader, run_bind_ok (run_note ..), run_bind_ok hmetadata,
      run_bind_ok (run_note ..), run_bind_ok hsection, run_bind_ok (run_note ..),
      run_bind_ok hcheck, run_bind_ok (run_note ..)]
    simp [Outcome.after, hoffset, hbody, bodyStart, hsize, Nat.add_assoc]

/-- Reading a file succeeds exactly on streams that begin with a file that can be read, and
leaves them where they stood. -/
theorem run_read_eq_ok :
    (read settings).run s = .ok f s' log ↔
      s.brokenSeek = none ∧ s' = s ∧ ∃ body, f.ReadFrom settings s.reportedLength body ∧
        f.front ++ body <+: ({ s with position := 0 } : ByteStream).readable ∧
        log = f.readLog body.length := by
  have hback {bytes : List UInt8} {m : ByteStream}
      (hspan : Spans [.fixed bytes] { s with position := 0 } m) :
      m.brokenSeek = s.brokenSeek ∧ { m with position := s.position } = s := by
    obtain ⟨-, rfl⟩ := spans_fixed_iff.mp hspan
    exact ⟨rfl, rfl⟩
  constructor
  · intro h
    obtain ⟨m, first, hrun⟩ := ByteStream.exists_of_run_keepingPosition h
    obtain ⟨hnone, body, hread, hspan, rfl⟩ := run_readSections_eq_ok.mp hrun
    obtain ⟨hkeep, hs⟩ := hback hspan
    rw [read, ByteStream.run_keepingPosition hnone hrun hkeep, hs] at h
    cases h
    exact ⟨hnone, rfl, body, hread, (spans_fixed_iff.mp hspan).1, rfl⟩
  · rintro ⟨hnone, rfl, body, hread, hahead, rfl⟩
    have hspan := (spans_fixed_iff (s := { s' with position := 0 })).mpr ⟨hahead, rfl⟩
    have hrun := run_readSections_eq_ok.mpr ⟨hnone, body, hread, hspan, rfl⟩
    obtain ⟨hkeep, hs⟩ := hback hspan
    rw [read, ByteStream.run_keepingPosition hnone hrun hkeep, hs]

end File

end XamlBinary
