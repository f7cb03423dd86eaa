import XamlBinary.Proofs.File.Displaced
import XamlBinary.Proofs.File.Extension
import XamlBinary.Proofs.File.RoundTrip

/-!
The two layouts of the header hold the same files.  A version that is put into
the header of a file moves what stands behind it by its eight bytes; what is
read there, what is wrong there and what is warned of stays the same.
-/

namespace XamlBinary

open Reader

/-- Four bytes are a 32-bit number. -/
theorem Written.exists_word32 (bytes : List UInt8) (h : bytes.length = 4) :
    ∃ n : UInt32, n.toNat = LittleEndian.value bytes ∧ (word32 n).bytes = bytes := by
  have hlt := LittleEndian.value_lt bytes
  rw [h] at hlt
  have hn : (UInt32.ofNat (LittleEndian.value bytes)).toNat = LittleEndian.value bytes :=
    Nat.mod_eq_of_lt hlt
  refine ⟨_, hn, ?_⟩
  rw [word32, hn, ← h, LittleEndian.bytes_value]
  exact List.append_nil bytes

namespace File

/-- The bytes begin with a header without a version, and its sizes account for all of them. -/
structure SizedLegacy (bytes : List UInt8) : Prop where
  magic : Header.magic <+: bytes
  length : bytes.length = Header.legacySize + (LittleEndian.value ((bytes.drop 4).take 4) +
    LittleEndian.value ((bytes.drop 8).take 4))

/-- The bytes with a version put in behind the sizes. -/
def insertVersion (v : Version) (bytes : List UInt8) : List UInt8 :=
  bytes.take Header.legacySize ++ (v.written.bytes ++ bytes.drop Header.legacySize)

variable {header : Header} {bytes body : List UInt8}

/-- Such bytes are a header and as many bytes as it declares. -/
theorem SizedLegacy.exists_eq (h : SizedLegacy bytes) :
    ∃ m n body, bytes = (Header.mk m n none).written.bytes ++ body ∧
      body.length = Header.sectionsSize m n := by
  obtain ⟨⟨rest, rfl⟩, hlength⟩ := h
  have hdrop (k : Nat) : (Header.magic ++ rest).drop (4 + k) = rest.drop k := by
    rw [← List.drop_drop]
    rfl
  have hmagic : Header.magic.length = 4 := rfl
  rw [hdrop 0, hdrop 4, List.drop_zero, List.length_append, hmagic, Header.legacySize] at hlength
  have hlong : 8 ≤ rest.length := by omega
  obtain ⟨m, hm, hmbytes⟩ := Written.exists_word32 (rest.take 4) (by simp; omega)
  obtain ⟨n, hn, hnbytes⟩ := Written.exists_word32 ((rest.drop 4).take 4) (by simp; omega)
  refine ⟨m, n, rest.drop 8, ?_, ?_⟩
  · have hrest : rest.take 4 ++ ((rest.drop 4).take 4 ++ rest.drop 8) = rest := by
      rw [show rest.drop 8 = (rest.drop 4).drop 4 by rw [List.drop_drop], List.take_append_drop,
        List.take_append_drop]
    rw [Header.bytes_eq, hmbytes, hnbytes, Version.optional, Written.bytes_nil, List.append_nil,
      List.append_assoc, List.append_assoc, hrest]
  · rw [Header.sectionsSize, hm, hn, List.length_drop]
    omega

theorem insertVersion_eq (v : Version) (m n : UInt32) (body : List UInt8) :
    insertVersion v ((Header.mk m n none).written.bytes ++ body) =
      (Header.mk m n (some v)).written.bytes ++ body := by
  have hlength : (Header.mk m n none).written.bytes.length = Header.legacySize :=
    Header.length_bytes ..
  have hbytes : (Header.mk m n (some v)).written.bytes =
      (Header.mk m n none).written.bytes ++ v.written.bytes := by
    simp [Header.bytes_eq, Version.optional]
  rw [insertVersion, ← hlength, List.take_left, List.drop_left, hbytes, List.append_assoc]

/-- The stream of a header and a body, behind the header. -/
def behind (header : Header) (body : List UInt8) : ByteStream :=
  (ByteStream.ofBytes (header.written.bytes ++ body)).skip header.size

theorem displaced_behind (m n : UInt32) (v : Version) (body : List UInt8) :
    (behind ⟨m, n, none⟩ body).Displaced 8 (behind ⟨m, n, some v⟩ body) where
  plain := ⟨rfl, rfl, rfl⟩
  plain_right := ⟨rfl, rfl, rfl⟩
  position := rfl
  readable := by
    have hbody (header : Header) : (behind header body).readable = body := by
      rw [behind, ByteStream.readable_skip, ByteStream.readable_of_limit rfl,
        ← Header.length_bytes header]
      exact List.drop_left
    rw [hbody, hbody]

/-- A parse of a valid header and a body is decided by the body. -/
theorem run_read_behind (settings : Settings)
    (hvalid : header.Valid settings.layout (header.size + body.length)) :
    ((read settings).run (.ofBytes (header.written.bytes ++ body))).result =
        ((readBehind settings.strict header).run (behind header body)).result ∧
      ((read settings).run (.ofBytes (header.written.bytes ++ body))).log.warnings =
        ((readBehind settings.strict header).run (behind header body)).log.warnings := by
  refine run_read_of_header rfl ?_ (spans_header_iff.mpr (spans_fixed_iff.mpr ⟨?_, ?_⟩))
  · rw [← Header.length_bytes header, ← List.length_append] at hvalid
    exact hvalid
  · exact List.prefix_append ..
  · rw [Header.length_bytes]
    rfl

theorem header_of_run_readBehind {strict : Bool} {f : File} {s s' : ByteStream} {log : Log}
    (h : (readBehind strict header).run s = .ok f s' log) : f.header = header := by
  obtain ⟨_, h, -⟩ := run_note_bind_eq_ok.mp h
  obtain ⟨metadata, _, _, _, -, h, -⟩ := run_bind_eq_ok.mp h
  obtain ⟨_, h, -⟩ := run_note_bind_eq_ok.mp h
  obtain ⟨substreams, _, _, _, -, h, -⟩ := run_bind_eq_ok.mp h
  obtain ⟨_, h, -⟩ := run_note_bind_eq_ok.mp h
  obtain ⟨_, _, _, _, -, h, -⟩ := run_bind_eq_ok.mp h
  obtain ⟨_, h, -⟩ := run_note_bind_eq_ok.mp h
  obtain ⟨rfl, -, -⟩ := run_pure_eq_ok.mp h
  rfl

theorem withVersion_inj {v : Version} {f g : File} (hf : f.header.version = none)
    (hg : g.header.version = none) (h : f.withVersion v = g.withVersion v) : f = g := by
  obtain ⟨⟨m, n, version⟩, metadata, substreams⟩ := f
  obtain ⟨⟨m', n', version'⟩, metadata', substreams'⟩ := g
  subst hf hg
  cases h
  rfl

/-- A file without a version is read like the same file with a version in its header.  Where one
is refused so is the other, for the same reason found eight bytes further on, and both parses
log the same warnings. -/
theorem read_insertVersion (strict : Bool) (v : Version) (hmajor : v.major = 1 ∨ v.major = 2)
    (bytes : List UInt8) (hbytes : SizedLegacy bytes) :
    (∀ f, ofBytes ⟨.detect, strict⟩ bytes = .ok f ↔ f.header.version = none ∧
      ofBytes ⟨.detect, strict⟩ (insertVersion v bytes) = .ok (f.withVersion v)) ∧
    (∀ fault, ofBytes ⟨.detect, strict⟩ bytes = .error fault →
      ∃ fault', ofBytes ⟨.detect, strict⟩ (insertVersion v bytes) = .error fault' ∧
        fault.Displaced 8 fault') ∧
    ((read ⟨.detect, strict⟩).run (.ofBytes (insertVersion v bytes))).log.warnings =
      ((read ⟨.detect, strict⟩).run (.ofBytes bytes)).log.warnings := by
  obtain ⟨m, n, body, rfl, hlength⟩ := hbytes.exists_eq
  rw [insertVersion_eq, ofBytes, ofBytes]
  have hvalid (version : Option Version) (hversion : ∀ v ∈ version, v.IsSupported) :
      (Header.mk m n version).Valid .detect ((Header.mk m n version).size + body.length) :=
    Header.valid_of_length trivial hversion (by rw [hlength])
  obtain ⟨hresult, hwarnings⟩ :=
    run_read_behind ⟨.detect, strict⟩ (hvalid none (by simp))
  obtain ⟨hresult', hwarnings'⟩ :=
    run_read_behind ⟨.detect, strict⟩ (hvalid (some v) (by rintro w ⟨⟩; exact hmajor))
  rw [hresult, hresult', hwarnings, hwarnings']
  -- what is left on both sides is to read the body, and that is done alike
  have hruns := displaced_readBehind strict m n v _ _ (displaced_behind m n v body)
  rw [Reader.run_map] at hruns
  generalize (readBehind strict ⟨m, n, some v⟩).run (behind ⟨m, n, some v⟩ body) = o at hruns ⊢
  cases hrun : (readBehind strict ⟨m, n, none⟩).run (behind ⟨m, n, none⟩ body) with
  | ok g s log =>
      have hg : g.header.version = none := by rw [header_of_run_readBehind hrun]
      rw [hrun] at hruns
      cases hruns with
      | ok _ hlog =>
          refine ⟨fun f => ⟨?_, ?_⟩, ?_, hlog.symm⟩
          · rintro ⟨⟩
            exact ⟨hg, rfl⟩
          · rintro ⟨hf, hfile⟩
            have hfile : g.withVersion v = f.withVersion v := Except.ok.inj hfile
            exact congrArg Except.ok (withVersion_inj hg hf hfile)
          · rintro fault ⟨⟩
  | fail fault s log =>
      rw [hrun] at hruns
      cases hruns with
      | fail hfaults _ hlog =>
          refine ⟨fun f => ?_, ?_, hlog.symm⟩
          · exact iff_of_false (by rintro ⟨⟩) (by rintro ⟨-, ⟨⟩⟩)
          · rintro _ ⟨⟩
            exact ⟨_, rfl, hfaults⟩
      | escape hescape => exact hescape.elim

/-- The file without a version, and the same file as one of version 2.1. -/
theorem read_insertVersion_unversioned :
    ∃ f, ofBytes {} unversioned = .ok f ∧
      ofBytes {} (insertVersion ⟨2, 1⟩ unversioned) = .ok (f.withVersion ⟨2, 1⟩) := by
  obtain ⟨f, hf⟩ := exists_unversioned
  have hsized : SizedLegacy unversioned := ⟨by decide, by decide⟩
  obtain ⟨haccepted, -⟩ := read_insertVersion false ⟨2, 1⟩ (.inr rfl) unversioned hsized
  exact ⟨f, hf, ((haccepted f).mp hf).2⟩

end File

end XamlBinary
