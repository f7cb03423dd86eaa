import XamlBinary.Proofs.ByteStream.Located
import XamlBinary.Proofs.File.Extension
import XamlBinary.Proofs.Metadata.Located
import XamlBinary.Proofs.Node.Located

/-!
Every fault of a plain stream points at what is wrong.  Sections are read from
known places of the file, so what is reported in a slice is moved to the place
of the slice; the node that defers to a missing substream is found by adding
up the sizes of all that stands before it.
-/

namespace XamlBinary

open Reader

variable {bytes : List UInt8}

/-- A fault of a slice is one of the file. -/
theorem Reader.Triple.pointsInto {α : Type} {Pre : ByteStream → Prop}
    {Post : α → ByteStream → Prop} {reader : Reader ByteStream α}
    (h : Triple Pre reader Post fun fault s => fault.InSlice bytes ∧ s.On bytes) :
    Triple Pre reader Post fun fault s => fault.PointsInto bytes ∧ s.On bytes :=
  h.mono (fun _ hs => hs) (fun _ _ hs => hs) fun _ _ hfail => ⟨hfail.1.pointsInto, hfail.2⟩

/-! ### Headers -/

namespace Header

theorem triple_readMagic_at {start : Nat} :
    Triple (ByteStream.OnAt bytes start) readMagic (fun _ => ByteStream.OnAt bytes (start + 4))
      fun fault s => (∃ reason, fault = .invalidFormat 0 reason) ∧ s.On bytes := by
  rintro s ⟨hon, rfl⟩
  obtain ⟨hafter, hpull | hpull⟩ := hon.pull 4
  · simp only [run, readMagic, ByteSource.take, hpull]
    by_cases hmagic : s.readable.take 4 = magic
    · rw [if_pos hmagic]
      refine ⟨hafter, ?_⟩
      rw [ByteStream.position_skip, hmagic]
      rfl
    · rw [if_neg hmagic]
      exact ⟨⟨_, rfl⟩, hafter⟩
  · simp only [run, readMagic, ByteSource.take, hpull]
    exact ⟨⟨_, rfl⟩, hafter⟩

/-- With the magic number there are four bytes at least. -/
theorem triple_readMagic :
    Triple (ByteStream.On bytes) readMagic (fun _ s => 4 ≤ bytes.length ∧ s.On bytes)
      fun fault s => fault.PointsInto bytes ∧ s.On bytes := by
  refine ByteStream.triple_on fun start => triple_readMagic_at.mono (fun _ hs => hs) ?_ ?_
  · rintro _ s ⟨hon, hposition⟩
    have hle := hon.position_le
    exact ⟨by omega, hon⟩
  · rintro _ s ⟨⟨reason, rfl⟩, hon⟩
    exact ⟨Nat.zero_le _, hon⟩

theorem keeps_uint32 (what : String) :
    Keeps (ByteStream.On bytes) (Fault.PointsInto bytes) (uint32 what) :=
  Triple.pointsInto (Keeps.uint32 ByteStream.Located.exactly what)

theorem keeps_readVersion :
    Keeps (ByteStream.On bytes) (Fault.PointsInto bytes) readVersion :=
  .position fun _ hs => (keeps_uint32 _).bind fun _ => (keeps_uint32 _).bind fun _ =>
    .ite (fun _ => .pure _) fun _ => .fail hs.offset_le

theorem keeps_measure (offset : Nat) :
    Keeps (ByteStream.On bytes) (Fault.PointsInto bytes) (ByteStream.measure offset) := by
  intro s hs
  obtain ⟨-, -, hseek⟩ := hs.plain
  rw [ByteStream.run_measure hseek]
  exact hs

theorem keeps_read (layout : HeaderLayout) :
    Keeps (ByteStream.On bytes) (Fault.PointsInto bytes) (read layout) := by
  refine Triple.bind triple_readMagic fun _ => Triple.assume fun hmagic => ?_
  refine (keeps_measure 4).bind fun length => .ite (fun _ => .fail hmagic) fun _ => ?_
  refine (keeps_uint32 _).bind fun metadataSize => (keeps_uint32 _).bind fun nodeStreamSize => ?_
  cases versioned? layout length (sectionsSize metadataSize nodeStreamSize) with
  | none => exact .fail hmagic
  | some hasVersion =>
      have hrest (version : Option Version) : Keeps (ByteStream.On bytes) (Fault.PointsInto bytes)
          (note (.header ⟨metadataSize, nodeStreamSize, version⟩) >>= fun _ =>
            pure (Header.mk metadataSize nodeStreamSize version)) :=
        (Keeps.report _).bind fun _ => .pure _
      exact .ite (fun _ => (keeps_readVersion.map some).bind hrest) fun _ =>
        (Keeps.pure none).bind hrest

/-- Behind its header a stream stands at the size of the header. -/
theorem triple_read (layout : HeaderLayout) :
    Triple (ByteStream.OnAt bytes 0) (read layout) (fun header => ByteStream.OnAt bytes header.size)
      fun fault s => fault.PointsInto bytes ∧ s.On bytes := by
  refine (keeps_read layout).refine (fun _ hs => hs.1) fun s header s' log hs hrun hafter => ?_
  obtain ⟨hon, hposition⟩ := hs
  obtain ⟨-, -, hseek⟩ := hon.plain
  obtain ⟨-, -, -, hspan⟩ := (run_read_eq_ok (by simp [hseek])).mp hrun
  have hend := ByteStream.position_of_spans (File.spans_header_iff.mp hspan)
  rw [hposition, Header.length_bytes, Nat.zero_add] at hend
  exact ⟨hafter, hend⟩

end Header

/-! ### Sections -/

theorem Metadata.triple_read (start : Nat) (size : UInt32) :
    Triple (ByteStream.OnAt bytes start) (Metadata.read size)
      (fun _ => ByteStream.OnAt bytes (start + size.toNat))
      fun fault s => fault.InSlice bytes ∧ s.On bytes := by
  refine ByteStream.triple_position ?_
  refine (ByteStream.Located.blockAt _ start _).bind fun slice => Triple.assume fun hslice => ?_
  refine (Triple.report _).bind fun _ => ?_
  exact ByteStream.Located.within Decoder.Located.metadata hslice

namespace Substream

open ByteStream

theorem located_readParts (scope : Scope) (index lineEnd : Nat) (entry : SubstreamEntry) :
    Located bytes (readParts scope index lineEnd entry) := by
  refine triple_on fun start => triple_position ((Triple.report _).bind fun _ => ?_)
  -- the lines begin where the nodes end
  refine (Located.blockAt _ start _).bind fun nodeBytes => Triple.assume fun hnodes => ?_
  refine (Located.within (Decoder.Located.nodes scope) hnodes).bind fun nodes => ?_
  refine (Located.blockAt _ _ _).bind fun lineBytes => Triple.assume fun hlines => ?_
  refine (Located.within Decoder.Located.lineEntries hlines).bind fun lines => ?_
  exact fun s hs => hs.1

theorem located_readEntry (scope : Scope) (bodyStart bodySize index : Nat) (entry : SubstreamEntry)
    (later : List SubstreamEntry) :
    Located bytes (readEntry scope bodyStart bodySize index entry later) := by
  refine Keeps.position fun s hs => .ite (fun _ => Located.malformed hs.offset_le trivial) fun _ => ?_
  refine .ite (fun _ => Located.malformed hs.offset_le trivial) fun _ => ?_
  exact .ite (fun _ => Located.malformed hs.offset_le trivial) fun _ =>
    located_readParts scope index _ entry

theorem located_readAll (scope : Scope) (bodyStart bodySize index : Nat)
    (table : List SubstreamEntry) :
    Located bytes (readAll scope bodyStart bodySize index table) := by
  induction table generalizing index with
  | nil => exact .pure []
  | cons entry later ih =>
      have hentry : Located bytes (readEntry scope bodyStart bodySize index entry later) :=
        located_readEntry scope bodyStart bodySize index entry later
      exact hentry.bind fun _ => (ih (index + 1)).bind fun _ => .pure _

theorem keeps_entry {Inv : ByteStream → Prop} {F : Fault → Prop}
    (hexactly : ∀ what count, Keeps Inv F (exactly what count)) :
    Keeps Inv F SubstreamEntry.read :=
  (Keeps.uint32 hexactly _).bind fun _ => (Keeps.uint32 hexactly _).bind fun _ => .pure _

theorem located_table :
    Located bytes (Reader.table "substream table" SubstreamEntry.read) :=
  Located.table _ (keeps_entry Located.exactly)

theorem located_readSection (scope : Scope) (size : UInt32) :
    Located bytes (readSection scope size) := by
  refine Keeps.position fun s hs => located_table.bind fun table => ?_
  refine Keeps.position fun s' _ => .ite (fun _ => Located.malformed hs.offset_le trivial) fun _ => ?_
  refine (Keeps.report _).bind fun _ => (located_readAll scope _ _ _ _).bind fun substreams => ?_
  refine Keeps.position fun s'' hs'' => ?_
  exact .ite (fun _ => Located.malformed hs''.offset_le trivial) fun _ => .pure _

/-- Behind the table of a section that was read stands a body that its substreams tile. -/
theorem triple_readSection (scope : Scope) (start : Nat) (size : UInt32) :
    Triple (OnAt bytes start) (readSection scope size)
      (fun subs s => (∃ body, Tiled scope body.length 0 subs body ∧ body.length < 2 ^ 32 ∧
        body <+: bytes.drop (start + (4 + 8 * subs.length))) ∧ s.On bytes)
      fun fault s => fault.InSlice bytes ∧ s.On bytes := by
  refine (located_readSection scope size).refine (fun _ hs => hs.1) fun s subs s' log hs hrun hafter => ?_
  obtain ⟨hon, rfl⟩ := hs
  obtain ⟨-, -, hseek⟩ := hon.plain
  obtain ⟨-, body, htiled, hsize, hspan, -⟩ := (run_readSection_eq_ok (by simp [hseek])).mp hrun
  have hlt := size.toNat_lt
  refine ⟨⟨body, htiled, by omega, ?_⟩, hafter⟩
  obtain ⟨⟨rest, hrest⟩, -⟩ := spans_fixed_iff.mp hspan
  rw [ahead_eq, hon.readable_eq, List.append_assoc] at hrest
  have htable : (SubstreamEntry.tableBytes (subs.map (·.entry))).length = 4 + 8 * subs.length := by
    rw [SubstreamEntry.length_tableBytes, List.length_map]
  rw [← List.drop_drop, ← hrest, ← htable, List.drop_left]
  exact List.prefix_append ..

end Substream

end XamlBinary
