import XamlBinary.File.Written
import XamlBinary.Header.Read
import XamlBinary.Proofs.ByteStream.Reading

/-!
Headers are read exactly.  Whether a header fits depends on the length that
the stream reports; behind the check of it the bytes alone decide.
-/

namespace XamlBinary

open Reader

namespace Header

/-- The header has one of the layouts that are expected, its sizes account for the length of
the stream, and its version, if it has one, is supported. -/
structure Valid (layout : HeaderLayout) (length : Nat) (header : Header) : Prop where
  fits : versioned? layout length (sectionsSize header.metadataSize header.nodeStreamSize) =
    some header.version.isSome
  supported : ∀ v ∈ header.version, v.IsSupported

/-- The sizes of a header that fits add up to the length. -/
theorem length_of_versioned? {layout : HeaderLayout} {length sections : Nat} {versioned : Bool}
    (h : versioned? layout length sections = some versioned) :
    length = (if versioned then versionedSize else legacySize) + sections := by
  cases layout with
  | detect =>
      simp only [versioned?] at h
      split at h
      · cases h
        assumption
      · split at h
        · cases h
          assumption
        · cases h
  | legacy =>
      simp only [versioned?] at h
      split at h
      · cases h
        assumption
      · cases h
  | versioned =>
      simp only [versioned?] at h
      split at h
      · cases h
        assumption
      · cases h

theorem Valid.length_eq {layout : HeaderLayout} {length : Nat} {header : Header}
    (h : header.Valid layout length) :
    length = header.size + sectionsSize header.metadataSize header.nodeStreamSize := by
  have hlength := length_of_versioned? h.fits
  cases hversion : header.version with
  | none => simpa [size, hversion] using hlength
  | some v => simpa [size, hversion] using hlength

/-! ### Reading -/

theorem reads_magic :
    Reads readMagic (fun _ => [.fixed magic]) (fun _ => True) fun _ => [] := by
  intro s u s' log
  rw [spans_fixed_iff]
  have htake := LawfulByteSource.take_eq_all s s' 4 magic
  simp only [readMagic, run]
  constructor
  · intro h
    split at h
    · rename_i bytes after hall
      split at h
      · rename_i hmagic
        subst hmagic
        cases h
        obtain ⟨-, hahead, hafter⟩ := htake.mp hall
        exact ⟨trivial, rfl, hahead, hafter⟩
      · cases h
    · cases h
    · cases h
  · rintro ⟨-, rfl, hspan⟩
    rw [htake.mpr ⟨rfl, hspan⟩]
    rfl

theorem reads_version :
    Reads readVersion Version.written Version.IsSupported fun _ => [] := by
  refine Reads.position fun start => Reads.lead Version.major (reads_uint32 _)
    (v := fun v => .word32 v.minor) ?_ (fun _ _ => trivial) fun _ _ => rfl
  intro major _
  refine Reads.lead Version.minor (reads_uint32 _) (v := fun _ => []) ?_ (fun _ _ => trivial)
    fun _ _ => (List.append_nil _).symm
  intro minor _
  refine Reads.ite (fun hsupported => Reads.pure fun v => ?_) fun hunsupported => Reads.fail ?_
  · constructor
    · rintro ⟨rfl, rfl, -⟩
      rfl
    · rintro rfl
      exact ⟨rfl, rfl, hsupported⟩
  · rintro v ⟨rfl, rfl, hv⟩
    exact hunsupported hv

theorem reads_optionalVersion (hasVersion : Bool) :
    Reads (if hasVersion then some <$> readVersion else pure none) Version.optional
      (fun o => hasVersion = o.isSome ∧ ∀ v ∈ o, v.IsSupported) fun _ => [] := by
  cases hasVersion with
  | true =>
      refine Reads.map reads_version (fun o => ?_) (fun _ _ => rfl) fun _ _ => rfl
      cases o <;> simp
  | false =>
      refine Reads.only (fun o => ?_) rfl rfl
      cases o <;> simp

/-- What follows the magic number, on a stream of a known length. -/
theorem reads_fields (layout : HeaderLayout) (length : Nat) :
    Reads (do
        let metadataSize ← uint32 "metadata size"
        let nodeStreamSize ← uint32 "node-stream size"
        match versioned? layout length (sectionsSize metadataSize nodeStreamSize) with
        | none => invalidFormat 4 (.sizesMisfit metadataSize nodeStreamSize length layout)
        | some hasVersion =>
            let version ← if hasVersion then some <$> readVersion else pure none
            let header : Header := { metadataSize, nodeStreamSize, version }
            note (.header header)
            pure header : Reader ByteStream Header)
      (fun h => .word32 h.metadataSize ++ .word32 h.nodeStreamSize ++ Version.optional h.version)
      (Valid layout length) fun h => [.note (.header h)] := by
  refine Reads.lead Header.metadataSize (reads_uint32 _)
    (v := fun h => .word32 h.nodeStreamSize ++ Version.optional h.version) ?_ (fun _ _ => trivial)
    fun _ _ => List.append_assoc ..
  intro m _
  refine Reads.lead Header.nodeStreamSize (reads_uint32 _)
    (v := fun h => Version.optional h.version) ?_ (fun _ _ => trivial) fun _ _ => rfl
  intro n _
  split
  · rename_i hnone
    refine Reads.fail ?_
    rintro h ⟨rfl, rfl, hvalid⟩
    rw [hvalid.fits] at hnone
    cases hnone
  · rename_i hasVersion hsome
    refine Reads.iteBind (Reads.lead Header.version (reads_optionalVersion hasVersion)
      (v := fun _ => []) ?_ ?_ fun _ _ => (List.append_nil _).symm)
    · rintro o ⟨rfl, hsupported⟩
      have hpure := Reads.pure (σ := ByteStream) (a := Header.mk m n o) fun h => Iff.rfl
      refine (hpure.reportFirst (.note (.header ⟨m, n, o⟩))).congr (fun h => ?_)
        (fun _ _ => rfl) ?_
      · constructor
        · rintro ⟨rfl, rfl, rfl, -⟩
          rfl
        · rintro rfl
          exact ⟨rfl, rfl, rfl, hsome, hsupported⟩
      · rintro h rfl
        rfl
    · rintro h ⟨rfl, rfl, hfits, hsupported⟩
      exact ⟨Option.some.inj (hsome.symm.trans hfits), hsupported⟩

/-- The magic number, and behind it the fields. -/
theorem spans_written_iff {header : Header} {s s' : ByteStream} :
    Spans header.written s s' ↔ ∃ m, Spans [.fixed magic] s m ∧
      Spans (.word32 header.metadataSize ++ .word32 header.nodeStreamSize ++
        Version.optional header.version) m s' := by
  rw [← spans_append_iff, written, List.append_assoc, List.append_assoc, List.append_assoc]

/-- Reading a header asks for the length of the stream, which it can only do when all seeks
work. -/
theorem run_read_eq_ok {layout : HeaderLayout} {s s' : ByteStream} {header : Header}
    {log : Log} (hseek : s.brokenSeek ≠ some .fromStart) :
    (read layout).run s = .ok header s' log ↔
      s.brokenSeek = none ∧ header.Valid layout s.reportedLength ∧
        log = [.note (.header header)] ∧ Spans header.written s s' := by
  rw [read, run_bind_eq_ok]
  constructor
  · rintro ⟨_, m, _, second, hmagic, hrest, rfl⟩
    obtain ⟨-, rfl, hspan⟩ := (reads_magic ..).mp hmagic
    obtain ⟨-, rfl⟩ := spans_fixed_iff.mp hspan
    obtain ⟨length, m', first, third, hmeasure, hfields, rfl⟩ := run_bind_eq_ok.mp hrest
    obtain ⟨hcurrent, hend⟩ := ByteStream.brokenSeek_of_measure hmeasure
    -- the length was measured, so no kind of seek is broken
    have hnone : s.brokenSeek = none := by
      cases hbroken : s.brokenSeek with
      | none => rfl
      | some origin =>
          cases origin with
          | fromStart => exact absurd hbroken hseek
          | fromCurrent => exact absurd hbroken hcurrent
          | fromEnd => exact absurd hbroken hend
    have hlength := ByteStream.run_measure (s := s.skip magic.length) hnone 4
    obtain ⟨rfl, rfl, rfl⟩ : length = s.reportedLength ∧ m' = s.skip magic.length ∧ first = [] := by
      rw [ByteStream.skip_eq, hlength] at hmeasure
      cases hmeasure
      exact ⟨rfl, rfl, rfl⟩
    split at hfields
    · cases hfields
    · obtain ⟨hvalid, rfl, hspan'⟩ := (reads_fields ..).mp hfields
      exact ⟨hnone, hvalid, rfl, spans_written_iff.mpr ⟨_, hspan, hspan'⟩⟩
  · rintro ⟨hnone, hvalid, rfl, hspan⟩
    obtain ⟨m, hmagic, hfields⟩ := spans_written_iff.mp hspan
    obtain ⟨-, rfl⟩ := spans_fixed_iff.mp hmagic
    have hlength := ByteStream.run_measure (s := s.skip magic.length) hnone 4
    have hlong : ¬ s.reportedLength < legacySize := by
      rw [hvalid.length_eq, size]
      split
      · simp [versionedSize, legacySize]
        omega
      · simp [legacySize]
    refine ⟨(), _, _, _, (reads_magic ..).mpr ⟨trivial, rfl, hmagic⟩, ?_, rfl⟩
    rw [ByteStream.skip_eq, run_bind_ok hlength, Outcome.after_nil, ByteStream.reportedLength_skip,
      if_neg hlong]
    exact (reads_fields ..).mpr ⟨hvalid, rfl, hfields⟩

end Header

end XamlBinary
