import XamlBinary.Proofs.ByteStream.Agree
import XamlBinary.Proofs.File.Located
import XamlBinary.Proofs.Reader.Checked

/-!
Headers with checked arithmetic.  On plain data the fields of a header are
there once the length has been checked, so a header that is refused is always
refused for what it says, and one that is accepted fills the bytes.
-/

namespace XamlBinary

open Reader Checked

namespace Header

variable {bytes : List UInt8} {start : Nat} {Fail : Fault → ByteStream → Prop}

/-- Reads a header, with the sums that its length is compared with. -/
def readChecked (layout : HeaderLayout) : Checked ByteStream Header := do
  .step readMagic
  let length ← .step (ByteStream.measure 4)
  if length < legacySize then .step (invalidFormat 4 (.tooShort length))
  else
    let metadataSize ← .step (uint32 "metadata size")
    let nodeStreamSize ← .step (uint32 "node-stream size")
    let sections ← sum metadataSize.toNat nodeStreamSize.toNat
    fits (legacySize + sections)
    fits (versionedSize + sections)
    match versioned? layout length sections with
    | none => .step (invalidFormat 4 (.sizesMisfit metadataSize nodeStreamSize length layout))
    | some hasVersion =>
        let version ← if hasVersion then .step (some <$> readVersion) else pure none
        let header : Header := { metadataSize, nodeStreamSize, version }
        .step (note (.header header))
        pure header

/-- The fault of a header that is refused. -/
def Refusal (fault : Fault) : Prop := ∃ offset reason, fault = .invalidFormat offset reason

theorem triple_uint32 (what : String) (hroom : start + 4 ≤ bytes.length) :
    Triple (ByteStream.OnAt bytes start) (uint32 what)
      (fun _ => ByteStream.OnAt bytes (start + 4)) Fail :=
  (ByteStream.triple_exactly what hroom).bind fun _ _ hs => hs

theorem triple_measure :
    Triple (ByteStream.OnAt bytes start) (ByteStream.measure 4)
      (fun length s => length = bytes.length ∧ s.OnAt bytes start) Fail := by
  intro s hs
  obtain ⟨-, hclaimed, hseek⟩ := hs.1.plain
  rw [ByteStream.run_measure hseek]
  refine ⟨?_, hs⟩
  rw [ByteStream.reportedLength, hclaimed, Option.getD_none, hs.1.bytes_eq]

theorem triple_readVersion (hroom : start + 8 ≤ bytes.length) :
    Triple (ByteStream.OnAt bytes start) readVersion (fun _ => ByteStream.OnAt bytes (start + 8))
      fun fault _ => Refusal fault := by
  refine ByteStream.triple_position ?_
  refine (triple_uint32 _ (by omega)).bind fun major => ?_
  refine (triple_uint32 _ (by omega)).bind fun minor => ?_
  intro s hs
  dsimp only
  split
  · exact hs
  · exact ⟨_, _, rfl⟩

theorem triple_someVersion (hroom : start + 8 ≤ bytes.length) :
    Triple (ByteStream.OnAt bytes start) (some <$> readVersion)
      (fun version s => (∃ v, version = some v) ∧ s.OnAt bytes (start + 8))
      fun fault _ => Refusal fault := by
  rw [← bind_pure_comp]
  exact (triple_readVersion hroom).bind fun v s hs => ⟨⟨v, rfl⟩, hs⟩

theorem size_le (header : Header) : header.size ≤ 20 := by
  rw [size]
  split
  · decide
  · decide

/-- The stream stands behind a header whose sizes account for all the bytes. -/
def Fills (bytes : List UInt8) (header : Header) (s : ByteStream) : Prop :=
  bytes.length = header.size + header.metadataSize.toNat + header.nodeStreamSize.toNat ∧
    s.OnAt bytes header.size

theorem follows_note (header : Header)
    (h : bytes.length = header.size + header.metadataSize.toNat + header.nodeStreamSize.toNat) :
    Follows (ByteStream.OnAt bytes header.size)
      (.step (note (.header header)) >>= fun _ => pure header)
      (note (.header header) >>= fun _ => pure header) (Fills bytes) Refusal :=
  .bind (.keeps (.report _)) fun _ => .pure fun _ hs => ⟨h, hs⟩

/-- Behind the magic number a header is refused or it fills the bytes. -/
theorem follows_read (layout : HeaderLayout) :
    Follows (ByteStream.OnAt bytes 0) (readChecked layout) (read layout) (Fills bytes) Refusal := by
  have hmagic : Follows (ByteStream.OnAt bytes 0) (.step readMagic) readMagic
      (fun _ => ByteStream.OnAt bytes 4) Refusal := by
    refine .step (triple_readMagic_at.mono (fun _ hs => hs) (fun _ _ hs => hs) ?_)
    rintro _ _ ⟨⟨reason, rfl⟩, -⟩
    exact ⟨0, reason, rfl⟩
  refine hmagic.bind fun _ => ?_
  refine .bind (.step triple_measure) fun length => .assume fun hlength => ?_
  subst hlength
  refine .ite (fun _ => .fail ⟨_, _, rfl⟩) fun hlong => ?_
  rw [legacySize, Nat.not_lt] at hlong
  refine .bind (.step (triple_uint32 _ (by omega))) fun metadataSize => ?_
  refine .bind (.step (triple_uint32 _ (by omega))) fun nodeStreamSize => ?_
  have hm := metadataSize.toNat_lt
  have hn := nodeStreamSize.toNat_lt
  refine .sum (by rw [limit]; omega) (.fits (by rw [limit, legacySize]; omega) ?_)
  refine .fits (by rw [limit, versionedSize]; omega) ?_
  rw [sectionsSize]
  cases hfits : versioned? layout bytes.length (metadataSize.toNat + nodeStreamSize.toNat) with
  | none => exact .fail ⟨_, _, rfl⟩
  | some hasVersion =>
      have hlength := length_of_versioned? hfits
      rw [← Nat.add_assoc] at hlength
      cases hasVersion with
      | true =>
          rw [if_pos rfl, versionedSize] at hlength
          refine .bind (.step (triple_someVersion (by omega))) fun version => .assume ?_
          rintro ⟨v, rfl⟩
          exact follows_note ⟨metadataSize, nodeStreamSize, some v⟩ hlength
      | false =>
          have hnone : Follows (ByteStream.OnAt bytes 12) (pure none) (pure none)
              (fun (version : Option Version) s => version = none ∧ s.OnAt bytes 12) Refusal :=
            .pure fun _ hs => ⟨rfl, hs⟩
          refine .bind hnone fun version => .assume ?_
          rintro rfl
          exact follows_note ⟨metadataSize, nodeStreamSize, none⟩ hlength

end Header

end XamlBinary
