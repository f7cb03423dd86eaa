import XamlBinary.Proofs.File.Fit
import XamlBinary.Proofs.File.Read

/-!
Round trip.  A well-formed file is written with the sizes and offsets that it
carries, every 7-bit integer in its shortest spelling; what is written is read
back as the same file.
-/

namespace XamlBinary

open Reader

/-! ### What is well-formed -/

/-- Each node carries the offset at which it is written, counted on from `offset`. -/
def PlacedNode.Laid (offset : Nat) : List PlacedNode → Prop
  | [] => True
  | p :: ps => p.offset.toNat = offset ∧ Laid (offset + p.node.written.bytes.length) ps

namespace Substream

/-- Each entry of the table has the offsets at which the nodes and the lines of its substream
are written, counted on from `start`. -/
def Laid (start : Nat) : List Substream → Prop
  | [] => True
  | s :: later => s.entry.nodeOffset.toNat = start ∧
      s.entry.lineOffset.toNat = start + s.writtenNodes.bytes.length ∧
      Laid (start + s.written.bytes.length) later

/-- The nodes are complete, and valid in the scope; the lines are in the order of their
nodes. -/
structure WellFormed (scope : Scope) (s : Substream) : Prop where
  complete : PlacedNode.Complete s.nodes
  placed : PlacedNode.Laid 0 s.nodes
  nodes : ∀ p ∈ s.nodes, p.node.Valid scope fun _ => True
  lines : ∀ e ∈ s.lines, e.Valid
  ordered : s.lines.IsChain fun e next => e.nodeOffset ≤ next.nodeOffset

end Substream

/-- A reader that expects the layout accepts the header. -/
def HeaderLayout.Admits (header : Header) : HeaderLayout → Prop
  | detect => True
  | legacy => header.version = none
  | versioned => header.version ≠ none

/-- The sizes and offsets of a file are those with which it is written, and all that it refers
to is there. -/
structure File.WellFormed (strict : Bool) (f : File) : Prop where
  version : ∀ v ∈ f.header.version, v.IsSupported
  metadataSize : f.header.metadataSize.toNat = f.metadata.written.bytes.length
  nodeStreamSize :
    f.header.nodeStreamSize.toNat = (Substream.writtenSection f.substreams).bytes.length
  inRange : ∀ r ∈ f.metadata.crossReferences, r.InRange
  placed : Substream.Laid 0 f.substreams
  substreams : ∀ s ∈ f.substreams, s.WellFormed (f.metadata.scope strict)
  deferred : ∀ s ∈ f.substreams, ∀ d ∈ s.runtimeData, d.2.toNat < f.substreams.length

/-! ### Headers -/

theorem Header.valid_of_length {layout : HeaderLayout} {length : Nat} {header : Header}
    (hlayout : layout.Admits header) (hsupported : ∀ v ∈ header.version, v.IsSupported)
    (hlength : length = header.size + sectionsSize header.metadataSize header.nodeStreamSize) :
    header.Valid layout length := by
  refine ⟨?_, hsupported⟩
  obtain ⟨m, n, version⟩ := header
  cases version with
  | none =>
      have hlegacy : length = legacySize + sectionsSize m n := hlength
      cases layout with
      | detect => exact if_pos hlegacy
      | legacy => exact if_pos hlegacy
      | versioned => exact absurd rfl hlayout
  | some v =>
      have hversioned : length = versionedSize + sectionsSize m n := hlength
      -- eight bytes longer, so it is not taken for the shorter layout
      have hlegacy : ¬ length = legacySize + sectionsSize m n := by
        rw [hversioned, versionedSize, legacySize]
        omega
      cases layout with
      | detect => exact (if_neg hlegacy).trans (if_pos hversioned)
      | legacy => cases hlayout
      | versioned => exact if_pos hversioned

/-! ### Substreams -/

theorem PlacedNode.Laid.spelled {offset : Nat} {nodes : List PlacedNode} (h : Laid offset nodes) :
    Spelled offset nodes (Written.bytes (nodes.flatMap (·.node.written))) := by
  induction nodes generalizing offset with
  | nil => exact rfl
  | cons p ps ih =>
      obtain ⟨hplace, hrest⟩ := h
      have hplace : p.offset = UInt32.ofNat offset := by rw [← hplace, UInt32.ofNat_toNat]
      rw [List.flatMap_cons, Written.bytes_append]
      exact ⟨_, _, rfl, hplace, Written.spells_bytes _, ih hrest⟩

namespace LineEntry

theorem ascendFrom_of_isChain_cons {e : LineEntry} {es : List LineEntry}
    (h : (e :: es).IsChain fun e next => e.nodeOffset ≤ next.nodeOffset) :
    AscendFrom e.nodeOffset es := by
  induction es generalizing e with
  | nil => trivial
  | cons next es ih =>
      obtain ⟨hle, hrest⟩ := List.isChain_cons_cons.mp h
      exact ⟨hle, ih hrest⟩

theorem ascendFrom_of_isChain {es : List LineEntry}
    (h : es.IsChain fun e next => e.nodeOffset ≤ next.nodeOffset) : AscendFrom 0 es := by
  cases es with
  | nil => trivial
  | cons e es => exact ⟨UInt32.zero_le, ascendFrom_of_isChain_cons h⟩

end LineEntry

namespace Substream

variable {scope : Scope} {s : Substream} {subs : List Substream}

/-- The nodes of a well-formed substream are decoded from what they are written as. -/
theorem WellFormed.gives_nodes (h : s.WellFormed scope)
    (hlength : s.writtenNodes.bytes.length < 2 ^ 32) :
    (Decoder.nodes scope).Gives s.writtenNodes.bytes s.nodes := by
  refine ⟨_, _, Decoder.run_nodes_eq_ok.mpr
    ⟨h.complete, fun p hp => ?_, h.placed.spelled, rfl, rfl⟩⟩
  have hnode := Written.length_bytes_le_flatMap (fun p => p.node.written) hp
  exact (h.nodes p hp).countable (Nat.lt_of_le_of_lt hnode hlength)

theorem WellFormed.gives_lines (h : s.WellFormed scope) :
    Decoder.lineEntries.Gives s.writtenLines.bytes s.lines := by
  have hascend := LineEntry.ascendFrom_of_isChain h.ordered
  exact ⟨_, _, Decoder.run_lineEntries_eq_ok.mpr
    ⟨hascend, h.lines, Written.spells_bytes _, rfl, rfl⟩⟩

/-- Well-formed substreams tile what they are written as. -/
theorem Laid.tiled {bodySize start : Nat} (h : Laid start subs)
    (hall : ∀ s ∈ subs, s.WellFormed scope)
    (hend : start + (Written.bytes (subs.flatMap written)).length = bodySize)
    (hsize : bodySize < 2 ^ 32) :
    Tiled scope bodySize start subs (Written.bytes (subs.flatMap written)) := by
  -- the offsets are counted on from `start`, as the bytes in front have been laid out
  induction subs generalizing start with
  | nil => exact rfl
  | cons s later ih =>
      obtain ⟨hnode, hline, hlaid⟩ := h
      obtain ⟨hs, hlater⟩ := List.forall_mem_cons.mp hall
      rw [List.flatMap_cons, Written.length_bytes_append] at hend
      have hlength : s.written.bytes.length =
          s.writtenNodes.bytes.length + s.writtenLines.bytes.length :=
        Written.length_bytes_append ..
      rw [hlength, ← Nat.add_assoc] at hlaid
      have htiled := ih hlaid hlater (by omega)
      refine ⟨s.writtenNodes.bytes, s.writtenLines.bytes, _, ?_, hnode, hline, ?_,
        hs.gives_nodes (by omega), hs.gives_lines, htiled⟩
      · rw [List.flatMap_cons, written, Written.bytes_append, Written.bytes_append,
          List.append_assoc]
      · cases later with
        | nil =>
            rw [List.flatMap_nil, Written.bytes_nil, List.length_nil] at hend
            rw [List.map_nil, SubstreamEntry.lineEnd]
            omega
        | cons next later => exact hlaid.1

theorem bytes_writtenSection (subs : List Substream) :
    (writtenSection subs).bytes = SubstreamEntry.tableBytes (subs.map (·.entry)) ++
      Written.bytes (subs.flatMap written) := by
  rw [writtenSection, Written.bytes_append, SubstreamEntry.tableBytes, Written.table,
    Written.table, List.length_map, List.flatMap_map]

end Substream

/-! ### Files -/

namespace File

theorem bytes_eq (f : File) :
    f.bytes = f.front ++ Written.bytes (f.substreams.flatMap Substream.written) := by
  rw [File.bytes, File.written, Written.bytes_append, Written.bytes_append,
    Substream.bytes_writtenSection, front]
  simp only [List.append_assoc]

theorem length_bytes (f : File) :
    f.bytes.length = f.header.size + (f.metadata.written.bytes.length +
      (Substream.writtenSection f.substreams).bytes.length) := by
  rw [File.bytes, File.written, Written.length_bytes_append, Written.length_bytes_append,
    Header.length_bytes, Nat.add_assoc]

/-- A well-formed file can be read from what it is written as. -/
theorem WellFormed.readFrom {settings : Settings} {f : File} (h : f.WellFormed settings.strict)
    (hlayout : settings.layout.Admits f.header) :
    f.ReadFrom settings f.bytes.length
      (Written.bytes (f.substreams.flatMap Substream.written)) := by
  have hmetadata := f.header.metadataSize.toNat_lt
  have hsection := f.header.nodeStreamSize.toNat_lt
  have hlength : (Substream.writtenSection f.substreams).bytes.length =
      4 + 8 * f.substreams.length +
        (Written.bytes (f.substreams.flatMap Substream.written)).length := by
    rw [Substream.bytes_writtenSection, List.length_append, SubstreamEntry.length_tableBytes,
      List.length_map]
  have hdeferrals : ∀ d ∈ deferrals f.header f.substreams,
      d.substream.toNat < f.substreams.length :=
    forall_deferrals_iff (P := fun n => n.toNat < f.substreams.length) |>.mpr h.deferred
  rw [h.metadataSize] at hmetadata
  rw [h.nodeStreamSize] at hsection
  refine ⟨Header.valid_of_length hlayout h.version ?_,
    Metadata.valid_of_length hmetadata h.inRange, h.metadataSize.symm, by omega,
    h.placed.tiled h.substreams (Nat.zero_add _) (by omega), ?_, hdeferrals⟩
  · rw [f.length_bytes, Header.sectionsSize, h.metadataSize, h.nodeStreamSize]
  · rw [h.nodeStreamSize, hlength]

/-- What a well-formed file is written as is read back as that file, from wherever in the
stream, and under every layout that the header admits. -/
theorem read_bytes (settings : Settings) (f : File) (s : ByteStream) (hplain : s.IsPlain)
    (hbytes : s.bytes = f.bytes) (hlayout : settings.layout.Admits f.header)
    (hf : f.WellFormed settings.strict) :
    ∃ log, (read settings).run s = .ok f s log := by
  obtain ⟨hlimit, hclaim, hseek⟩ := hplain
  have hread := hf.readFrom hlayout
  have hlength : s.reportedLength = f.bytes.length := by
    rw [ByteStream.reportedLength, hclaim, Option.getD_none, hbytes]
  rw [← hlength] at hread
  have hreadable : ({ s with position := 0 } : ByteStream).readable = f.bytes := by
    rw [ByteStream.readable, hlimit]
    exact hbytes
  refine ⟨_, run_read_eq_ok.mpr ⟨hseek, rfl, _, hread, ⟨[], ?_⟩, rfl⟩⟩
  rw [List.append_nil, hreadable, f.bytes_eq]

/-- A file with a version, one string, and one substream of two nodes and a line entry. -/
theorem read_bytes_single :
    ∃ f : File, f.header.version = some ⟨2, 1⟩ ∧ f.metadata.strings = #["a"] ∧
      (f.substreams.map (·.nodes.length)) = [2] ∧
      ∃ log, (read {}).run (.ofBytes f.bytes) = .ok f (.ofBytes f.bytes) log := by
  refine ⟨⟨⟨30, 19, some ⟨2, 1⟩⟩, { strings := #["a"] },
    [⟨⟨0, 4⟩, [⟨0, .text ⟨0⟩⟩, ⟨3, .endOfStream⟩], [⟨0, 7, 1⟩]⟩]⟩, rfl, rfl, rfl,
    read_bytes {} _ _ ⟨rfl, rfl, rfl⟩ rfl trivial ⟨?_, ?_, ?_, ?_, ?_, ?_, ?_⟩⟩
  · rintro _ ⟨⟩
    exact .inr rfl
  · decide
  · decide
  · decide
  · exact ⟨rfl, rfl, trivial⟩
  · rintro s (_ | ⟨_, ⟨⟩⟩)
    refine ⟨.inr ⟨by decide, rfl⟩, ⟨rfl, rfl, trivial⟩, ?_, ?_, .singleton _⟩
    · rintro p (_ | ⟨_, _ | ⟨_, ⟨⟩⟩⟩)
      · exact ⟨by decide, by decide⟩
      · trivial
    · rintro e (_ | ⟨_, ⟨⟩⟩)
      exact ⟨by decide, by decide, by decide⟩
  · decide

end File

end XamlBinary
