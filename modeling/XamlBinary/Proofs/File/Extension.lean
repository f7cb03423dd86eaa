import XamlBinary.Proofs.File.Fit
import XamlBinary.Proofs.File.Read

/-!
Files that begin with another file.  The declared sizes account for the whole
of an accepted file, so nothing can follow it, with one exception: where the
layout is detected, the eight bytes of a version can make up the difference
between two files with the same sizes.  The shorter file then has no version,
and the longer one takes the first two numbers of its metadata for one.
-/

namespace XamlBinary

open Reader

namespace Written

/-- A 32-bit number at the front can be told from the bytes. -/
theorem word32_append_inj {m n : UInt32} {first second : List UInt8}
    (h : (word32 m).bytes ++ first = (word32 n).bytes ++ second) : m = n ∧ first = second := by
  have hlength : (word32 m).bytes.length = (word32 n).bytes.length := by
    rw [length_bytes_word32, length_bytes_word32]
  obtain ⟨hword, hrest⟩ := List.append_inj h hlength
  have hbytes : LittleEndian.bytes 4 m.toNat = LittleEndian.bytes 4 n.toNat := by
    simpa [word32] using hword
  have hvalue := congrArg LittleEndian.value hbytes
  rw [LittleEndian.value_bytes_of_lt m.toNat_lt, LittleEndian.value_bytes_of_lt n.toNat_lt]
    at hvalue
  exact ⟨UInt32.toNat_inj.mp hvalue, hrest⟩

end Written

namespace Header

theorem bytes_eq (header : Header) :
    header.written.bytes = magic ++ ((Written.word32 header.metadataSize).bytes ++
      ((Written.word32 header.nodeStreamSize).bytes ++
        (Version.optional header.version).bytes)) := by
  rw [written, List.append_assoc, List.append_assoc, Written.bytes_append, Written.bytes_append,
    Written.bytes_append]
  rfl

/-- Headers at the front of the same bytes declare the same sizes. -/
theorem sizes_eq_of_bytes {first second : Header} {x y : List UInt8}
    (h : first.written.bytes ++ x = second.written.bytes ++ y) :
    first.metadataSize = second.metadataSize ∧ first.nodeStreamSize = second.nodeStreamSize ∧
      (Version.optional first.version).bytes ++ x =
        (Version.optional second.version).bytes ++ y := by
  rw [bytes_eq, bytes_eq] at h
  simp only [List.append_assoc] at h
  obtain ⟨hmetadata, h⟩ := Written.word32_append_inj (List.append_cancel_left h)
  obtain ⟨hsection, h⟩ := Written.word32_append_inj h
  exact ⟨hmetadata, hsection, h⟩

theorem size_of_isSome {header : Header} :
    header.size = if header.version.isSome then versionedSize else legacySize := by
  obtain ⟨m, n, version⟩ := header
  cases version <;> rfl

end Header

/-- Metadata begins with the number of strings. -/
theorem Metadata.bytes_eq_count_append (m : Metadata) :
    ∃ rest, m.written.bytes = (Written.word32 (UInt32.ofNat m.strings.size)).bytes ++ rest := by
  rw [written, Written.table, Array.length_toList]
  simp only [Written.bytes_append, List.append_assoc]
  exact ⟨_, rfl⟩

/-- The number of units in the first string, if there is one, comes next. -/
theorem Metadata.bytes_eq_counts_append {m : Metadata} {first : String}
    (h : m.strings[0]? = some first) :
    ∃ rest, m.written.bytes = (Written.word32 (UInt32.ofNat m.strings.size)).bytes ++
      ((Written.word32 (UInt32.ofNat (Utf16.encode first.toList).length)).bytes ++ rest) := by
  rw [← Array.getElem?_toList] at h
  cases hstrings : m.strings.toList with
  | nil =>
      rw [hstrings] at h
      cases h
  | cons s later =>
      rw [hstrings] at h
      cases h
      have hsize : m.strings.size = (first :: later).length := by
        rw [← hstrings, Array.length_toList]
      rw [written, hstrings, hsize]
      simp only [Written.table, Written.text, Written.bytes_append, List.flatMap_cons,
        List.append_assoc]
      exact ⟨_, rfl⟩

namespace File

variable {settings : Settings} {f g : File} {bytes x body : List UInt8} {length : Nat}

/-- The declared sizes account for every byte. -/
theorem ReadFrom.length_eq (h : f.ReadFrom settings length body) :
    (f.front ++ body).length = length := by
  have hlength := h.header.length_eq
  have hmetadata := h.metadataSize
  have hsection := h.nodeStreamSize
  rw [Header.sectionsSize] at hlength
  rw [front, List.length_append, List.length_append, List.length_append, Header.length_bytes,
    SubstreamEntry.length_tableBytes, List.length_map]
  omega

/-- A file is accepted when all of its bytes are a front and a body. -/
theorem ofBytes_eq_ok :
    ofBytes settings bytes = .ok f ↔
      ∃ body, f.ReadFrom settings bytes.length body ∧ bytes = f.front ++ body := by
  constructor
  · intro h
    rw [ofBytes] at h
    cases hrun : (read settings).run (ByteStream.ofBytes bytes) with
    | fail fault s log =>
        rw [hrun] at h
        cases h
    | ok f' s log =>
        rw [hrun] at h
        cases h
        obtain ⟨-, -, body, hread, hahead, -⟩ := run_read_eq_ok.mp hrun
        exact ⟨body, hread, (hahead.eq_of_length hread.length_eq).symm⟩
  · rintro ⟨body, hread, hbytes⟩
    have hahead : f.front ++ body <+: bytes := ⟨[], by rw [List.append_nil, hbytes]⟩
    have hrun := (run_read_eq_ok (s := ByteStream.ofBytes bytes)).mpr
      ⟨rfl, rfl, body, hread, hahead, rfl⟩
    rw [ofBytes, hrun]
    rfl

/-- Files of which one begins with the other declare the same sizes, so they differ in length
as their headers do. -/
theorem sizes_eq_of_append (hf : ofBytes settings bytes = .ok f)
    (hg : ofBytes settings (bytes ++ x) = .ok g) :
    f.header.metadataSize = g.header.metadataSize ∧
      f.header.nodeStreamSize = g.header.nodeStreamSize ∧
      f.header.size + x.length = g.header.size ∧
      ∃ y z, (Version.optional f.header.version).bytes ++ (f.metadata.written.bytes ++ y) =
        (Version.optional g.header.version).bytes ++ z := by
  obtain ⟨body, hread, hbytes⟩ := ofBytes_eq_ok.mp hf
  obtain ⟨body', hread', hbytes'⟩ := ofBytes_eq_ok.mp hg
  rw [hbytes, front, front] at hbytes'
  simp only [List.append_assoc] at hbytes'
  obtain ⟨hmetadata, hsection, hversion⟩ := Header.sizes_eq_of_bytes hbytes'
  refine ⟨hmetadata, hsection, ?_, _, _, hversion⟩
  have hlength := hread.header.length_eq
  have hlength' := hread'.header.length_eq
  rw [List.length_append, hlength, hmetadata, hsection] at hlength'
  omega

/-- A file of the shorter layout that begins a file of the longer one. -/
theorem version_of_append (hf : ofBytes settings bytes = .ok f)
    (hg : ofBytes settings (bytes ++ x) = .ok g) (hx : x ≠ []) :
    f.header.version = none ∧ x.length = 8 ∧ ∃ v, g.header.version = some v := by
  obtain ⟨-, -, hsize, -⟩ := sizes_eq_of_append hf hg
  have hpos := List.length_pos_iff.mpr hx
  rw [Header.size_of_isSome, Header.size_of_isSome, Header.versionedSize, Header.legacySize]
    at hsize
  -- a header has two lengths, and the second one must be the longer
  cases hversion : f.header.version with
  | some v =>
      rw [hversion, Option.isSome_some, if_pos rfl] at hsize
      split at hsize <;> omega
  | none =>
      rw [hversion, Option.isSome_none, if_neg Bool.false_ne_true] at hsize
      cases hversion' : g.header.version with
      | none =>
          rw [hversion', Option.isSome_none, if_neg Bool.false_ne_true] at hsize
          omega
      | some v =>
          rw [hversion', Option.isSome_some, if_pos rfl] at hsize
          exact ⟨rfl, by omega, v, rfl⟩

/-- Only where the layout is detected are both layouts accepted. -/
theorem layout_of_versions {m n : Nat} {v : Version} (hf : f.header.Valid settings.layout m)
    (hg : g.header.Valid settings.layout n) (hnone : f.header.version = none)
    (hsome : g.header.version = some v) : settings.layout = .detect := by
  have hf := hf.fits
  have hg := hg.fits
  rw [hnone] at hf
  rw [hsome] at hg
  cases hlayout : settings.layout with
  | detect => rfl
  | legacy =>
      rw [hlayout, Header.versioned?] at hg
      split at hg <;> cases hg
  | versioned =>
      rw [hlayout, Header.versioned?] at hf
      split at hf <;> cases hf

/-- A version that is made up of the first numbers of metadata. -/
theorem version_eq_of_bytes {m : Metadata} {v : Version} {y z : List UInt8} (hm : m.Valid)
    (hv : v.IsSupported) (h : m.written.bytes ++ y = v.written.bytes ++ z) :
    (m.strings.size = 1 ∨ m.strings.size = 2) ∧ ∃ first, m.strings[0]? = some first ∧
      v = ⟨UInt32.ofNat m.strings.size, UInt32.ofNat (Utf16.encode first.toList).length⟩ := by
  rw [Version.written, Written.bytes_append, List.append_assoc] at h
  obtain ⟨rest, hcount⟩ := m.bytes_eq_count_append
  have hmajor := h
  rw [hcount, List.append_assoc] at hmajor
  obtain ⟨hmajor, -⟩ := Written.word32_append_inj hmajor
  have hlt : m.strings.size < 2 ^ 31 := hm.strings.1
  have hsize : m.strings.size = v.major.toNat := by
    rw [← hmajor, UInt32.toNat_ofNat', Nat.mod_eq_of_lt (by omega)]
  -- one string at least, so a length of the first one follows the count
  have hfew : m.strings.size = 1 ∨ m.strings.size = 2 := by
    rw [hsize]
    exact hv.imp (congrArg UInt32.toNat) (congrArg UInt32.toNat)
  have hpos : 0 < m.strings.size := by omega
  have hfirst := Array.getElem?_eq_getElem hpos
  obtain ⟨rest', hcounts⟩ := Metadata.bytes_eq_counts_append hfirst
  rw [hcounts, List.append_assoc, List.append_assoc] at h
  obtain ⟨-, h⟩ := Written.word32_append_inj h
  obtain ⟨hminor, -⟩ := Written.word32_append_inj h
  refine ⟨hfew, _, hfirst, ?_⟩
  rw [hmajor, hminor]

/-- Nothing can follow an accepted file, with one exception.  Where the layout is detected, a
file without a version and with one or two strings can go on for eight bytes more: all behind
the sizes is then taken differently, the number of strings and the length of the first of them
for a version. -/
theorem ofBytes_append (settings : Settings) (bytes x : List UInt8) (f : File)
    (hf : ofBytes settings bytes = .ok f) (hx : x ≠ []) :
    (∃ fault, ofBytes settings (bytes ++ x) = .error fault) ∨
      settings.layout = .detect ∧ f.header.version = none ∧ x.length = 8 ∧
        (f.metadata.strings.size = 1 ∨ f.metadata.strings.size = 2) ∧
        ∃ first g, f.metadata.strings[0]? = some first ∧
          ofBytes settings (bytes ++ x) = .ok g ∧
          g.header = ⟨f.header.metadataSize, f.header.nodeStreamSize,
            some ⟨UInt32.ofNat f.metadata.strings.size,
              UInt32.ofNat (Utf16.encode first.toList).length⟩⟩ := by
  cases hg : ofBytes settings (bytes ++ x) with
  | error fault => exact .inl ⟨fault, rfl⟩
  | ok g =>
      right
      obtain ⟨body, hread, -⟩ := ofBytes_eq_ok.mp hf
      obtain ⟨body', hread', -⟩ := ofBytes_eq_ok.mp hg
      obtain ⟨hmetadata, hsection, -, y, z, hbytes⟩ := sizes_eq_of_append hf hg
      obtain ⟨hnone, hlength, v, hsome⟩ := version_of_append hf hg hx
      have hlayout := layout_of_versions hread.header hread'.header hnone hsome
      rw [hnone, hsome] at hbytes
      obtain ⟨hfew, first, hfirst, hv⟩ :=
        version_eq_of_bytes hread.metadata (hread'.header.supported v hsome) hbytes
      refine ⟨hlayout, hnone, hlength, hfew, first, g, hfirst, rfl, ?_⟩
      rw [← hv, ← hsome, hmetadata, hsection]

/-- A file without a version.  It has one string, of four units, and no substreams. -/
def unversioned : List UInt8 :=
  [0x58, 0x42, 0x46, 0, 36, 0, 0, 0, 4, 0, 0, 0, 1, 0, 0, 0, 4, 0, 0, 0, 1, 0, 0, 0, 4, 0, 0, 0] ++
    List.replicate 24 0

theorem exists_unversioned : ∃ f, ofBytes {} unversioned = .ok f := by
  have haccepted : (ofBytes {} unversioned).isOk = true := by decide +kernel
  cases h : ofBytes {} unversioned with
  | ok f => exact ⟨f, rfl⟩
  | error fault =>
      rw [h] at haccepted
      cases haccepted

/-- One byte behind it is refused, and so are nine. -/
theorem ofBytes_append_unversioned :
    (∃ fault, ofBytes {} (unversioned ++ [0]) = .error fault) ∧
      ∃ fault, ofBytes {} (unversioned ++ List.replicate 9 0) = .error fault := by
  obtain ⟨f, hf⟩ := exists_unversioned
  constructor
  · obtain hfault | ⟨-, -, hlength, -⟩ := ofBytes_append {} unversioned [0] f hf (by decide)
    · exact hfault
    · cases hlength
  · obtain hfault | ⟨-, -, hlength, -⟩ :=
      ofBytes_append {} unversioned (List.replicate 9 0) f hf (by decide)
    · exact hfault
    · cases hlength

/-- With eight zero bytes behind it, the file is one of version 1.4. -/
theorem not_forall_ofBytes_append_error :
    ¬ ∀ (bytes x : List UInt8) (f : File), ofBytes {} bytes = .ok f → x ≠ [] →
      ∃ fault, ofBytes {} (bytes ++ x) = .error fault := by
  intro hall
  obtain ⟨f, hf⟩ := exists_unversioned
  obtain ⟨fault, hfault⟩ := hall unversioned (List.replicate 8 0) f hf (by decide)
  have haccepted : (ofBytes {} (unversioned ++ List.replicate 8 0)).isOk = true := by
    decide +kernel
  rw [hfault] at haccepted
  cases haccepted

end File

end XamlBinary
