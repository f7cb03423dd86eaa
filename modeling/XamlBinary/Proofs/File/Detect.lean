import XamlBinary.Proofs.File.Behind
import XamlBinary.Proofs.File.Extension
import XamlBinary.Proofs.File.RoundTrip
import XamlBinary.Proofs.File.Strict

/-!
Detection of the layout.  The two layouts differ in length by the version, so
the declared sizes of a file fit at most one of them, and detection finds the
one that fits.  From there on it is as if that layout had been asked for.
-/

namespace XamlBinary

open Reader

namespace Header

/-- The layout that the header has. -/
def layout (header : Header) : HeaderLayout :=
  match header.version with
  | none => .legacy
  | some _ => .versioned

variable {header : Header} {length : Nat}

theorem admits_layout (header : Header) : header.layout.Admits header := by
  obtain ⟨m, n, version⟩ := header
  cases version with
  | none => exact rfl
  | some v => exact Option.some_ne_none v

/-- A header that fits where one layout is expected fits in every other expectation that admits
it: the sizes are weighed against the length of its own layout. -/
theorem Valid.admitted {expected layout : HeaderLayout} (h : header.Valid expected length)
    (hlayout : layout.Admits header) : header.Valid layout length :=
  valid_of_length hlayout h.supported h.length_eq

theorem Valid.version_eq_none (h : header.Valid .legacy length) : header.version = none := by
  have hfits := h.fits
  rw [versioned?] at hfits
  split at hfits
  · exact Option.isNone_iff_eq_none.mp (Option.isSome_eq_false_iff.mp (Option.some.inj hfits).symm)
  · cases hfits

theorem Valid.isSome_version (h : header.Valid .versioned length) :
    header.version.isSome = true := by
  have hfits := h.fits
  rw [versioned?] at hfits
  split at hfits
  · exact (Option.some.inj hfits).symm
  · cases hfits

/-- Detection accepts a header when one of the two layouts does. -/
theorem valid_detect_iff :
    header.Valid .detect length ↔ header.Valid .legacy length ∨ header.Valid .versioned length := by
  constructor
  · intro h
    have hlayout := h.admitted header.admits_layout
    rw [layout] at hlayout
    split at hlayout
    · exact .inl hlayout
    · exact .inr hlayout
  · rintro (h | h)
    · exact h.admitted trivial
    · exact h.admitted trivial

end Header

namespace ByteStream

/-- Two readers that run alike do so when the position is put back behind them. -/
theorem run_keepingPosition_congr {α : Type} {body other : Reader ByteStream α} {s : ByteStream}
    (h : body.run s = other.run s) :
    (keepingPosition body).run s = (keepingPosition other).run s := by
  simp only [run, keepingPosition] at h ⊢
  rw [h]

end ByteStream

namespace File

variable {strict : Bool} {f : File} {length : Nat} {body : List UInt8}

/-- The layout that was asked for matters for the header and for nothing else. -/
theorem ReadFrom.withLayout {expected layout : HeaderLayout}
    (h : f.ReadFrom ⟨expected, strict⟩ length body) (hheader : f.header.Valid layout length) :
    f.ReadFrom ⟨layout, strict⟩ length body :=
  { h with header := hheader }

theorem readFrom_detect_iff :
    f.ReadFrom ⟨.detect, strict⟩ length body ↔
      f.ReadFrom ⟨.legacy, strict⟩ length body ∨ f.ReadFrom ⟨.versioned, strict⟩ length body := by
  constructor
  · intro h
    rcases Header.valid_detect_iff.mp h.header with hheader | hheader
    · exact .inl (h.withLayout hheader)
    · exact .inr (h.withLayout hheader)
  · rintro (h | h)
    · exact h.withLayout (Header.valid_detect_iff.mpr (.inl h.header))
    · exact h.withLayout (Header.valid_detect_iff.mpr (.inr h.header))

/-- The same bytes are not read in both layouts: they would declare the same sizes, and these would
have to account for two lengths. -/
theorem ReadFrom.not_both {f g : File} {x y : List UInt8}
    (hlegacy : f.ReadFrom ⟨.legacy, strict⟩ length x)
    (hversioned : g.ReadFrom ⟨.versioned, strict⟩ length y)
    {bytes : List UInt8} (hf : f.front ++ x <+: bytes) (hg : g.front ++ y <+: bytes) : False := by
  obtain ⟨u, hu⟩ := hf
  obtain ⟨v, hv⟩ := hg
  have hbytes := hu.trans hv.symm
  simp only [front, List.append_assoc] at hbytes
  obtain ⟨hmetadata, hsection, -⟩ := Header.sizes_eq_of_bytes hbytes
  have hshort := hlegacy.header.length_eq
  have hlong := hversioned.header.length_eq
  have hf := hlegacy.header.version_eq_none
  have hg := hversioned.header.isSome_version
  rw [Header.size_of_isSome, hf, hmetadata, hsection] at hshort
  rw [Header.size_of_isSome, hg] at hlong
  have hsizes : Header.versionedSize = Header.legacySize + 8 := rfl
  simp only [Option.isSome_none, Bool.false_eq_true, if_false, if_true] at hshort hlong
  omega

/-- A parse whose header is accepted goes on in the same way for every layout that admits the
header. -/
theorem run_read_of_admits {expected layout : HeaderLayout} {s m : ByteStream} {header : Header}
    {log : Log}
    (h : (ByteStream.goTo "start of file" 0 >>= fun _ => Header.read expected).run s =
      .ok header m log) (hlayout : layout.Admits header) :
    (read ⟨layout, strict⟩).run s = (read ⟨expected, strict⟩).run s := by
  obtain ⟨_, start, _, _, hgoTo, hheader, -⟩ := run_bind_eq_ok.mp h
  obtain ⟨hseek, rfl, rfl⟩ := ByteStream.run_goTo_eq_ok.mp hgoTo
  obtain ⟨hnone, hvalid, rfl, hspan⟩ := 
    (Header.run_read_eq_ok (s := { s with position := 0 }) hseek).mp hheader
  have hnone : s.brokenSeek = none := hnone
  have hvalid : header.Valid expected s.reportedLength := hvalid
  have hrun (layout : HeaderLayout) (hvalid : header.Valid layout s.reportedLength) :
      (readSections ⟨layout, strict⟩).run s =
        ((readBehind strict header).run m).after [.note (.header header)] :=
    run_readSections_of_header hnone hvalid hspan
  refine ByteStream.run_keepingPosition_congr ?_
  rw [hrun layout (hvalid.admitted hlayout), hrun expected hvalid]

/-- A file is accepted by detection exactly when it is accepted in one of the two layouts, and it
is never accepted in both.  Where detection accepts the header, the parse that asks for the layout
it found is the same run, with the same end and the same log. -/
theorem read_detect (strict : Bool) (s : ByteStream) :
    (∀ f, ((read ⟨.detect, strict⟩).run s).result = .ok f ↔
      ((read ⟨.legacy, strict⟩).run s).result = .ok f ∨
        ((read ⟨.versioned, strict⟩).run s).result = .ok f) ∧
    (∀ f g, ¬ (((read ⟨.legacy, strict⟩).run s).result = .ok f ∧
      ((read ⟨.versioned, strict⟩).run s).result = .ok g)) ∧
    ∀ header m log,
      (ByteStream.goTo "start of file" 0 >>= fun _ => Header.read .detect).run s =
        .ok header m log →
      (read ⟨header.layout, strict⟩).run s = (read ⟨.detect, strict⟩).run s := by
  refine ⟨fun f => ?_, ?_, fun header m log h => run_read_of_admits h header.admits_layout⟩
  · rw [result_read_eq_ok, result_read_eq_ok, result_read_eq_ok]
    simp only [readFrom_detect_iff, or_and_right, exists_or, and_or_left]
  · rintro f g ⟨hf, hg⟩
    obtain ⟨-, x, hlegacy, hx⟩ := result_read_eq_ok.mp hf
    obtain ⟨-, y, hversioned, hy⟩ := result_read_eq_ok.mp hg
    exact hlegacy.not_both hversioned hx hy

/-- A header with a version in front of metadata that is cut off in its first table. -/
def cutTable : List UInt8 := (Header.written ⟨1, 0, some ⟨2, 1⟩⟩).bytes ++ [7]

/-- Detection finds the longer layout, and both reject the file with the same fault. -/
theorem read_detect_cutTable :
    ofBytes {} cutTable = .error (.malformed 20 (.endOfData "string table")) ∧
      ofBytes { layout := .versioned } cutTable =
        .error (.malformed 20 (.endOfData "string table")) := by
  have hdetect : ofBytes {} cutTable = .error (.malformed 20 (.endOfData "string table")) := by
    decide +kernel
  have hheader : (ByteStream.goTo "start of file" 0 >>= fun _ => Header.read .detect).run
      (.ofBytes cutTable) = .ok ⟨1, 0, some ⟨2, 1⟩⟩ { bytes := cutTable, position := 20 }
        [.note (.header ⟨1, 0, some ⟨2, 1⟩⟩)] := by decide +kernel
  have hsame := (read_detect false (.ofBytes cutTable)).2.2 _ _ _ hheader
  exact ⟨hdetect, (congrArg Outcome.result hsame).trans hdetect⟩

end File

end XamlBinary
