import XamlBinary.Proofs.Node.Located
import XamlBinary.Proofs.Reader.Checked
import XamlBinary.Proofs.Substream.Steps

/-!
The node-stream section with checked arithmetic, and with slices that have to
be there as a whole.  On plain data the section ends with the bytes, and
before every turn of the loop but the first the stream stands where the entry
before let the next one begin.  So no slice is cut, no computation is stopped,
and only the first substream can be found at another place than the table
gives for it.
-/

namespace XamlBinary

open Reader Checked

variable {bytes slice : List UInt8} {emptyTable : Prop}

/-! ### Nodes -/

namespace Decoder

/-- Nodes up to the end of a slice of that length. -/
def nodesUpToChecked (scope : Scope) (length : Nat) :
    (limit : Nat) → Checked Cursor (List PlacedNode)
  | 0 => do
      let here ← .step position
      .step (malformed here .missingEnd)
  | limit + 1 => do
      let start ← .step position
      let node ← .step (node scope)
      let here ← .step Reader.get
      if node = .endOfStream then
        if here.rest.isEmpty then pure [⟨UInt32.ofNat start, node⟩]
        else
          let left ← difference length here.offset
          .step (malformed here.offset (.bytesAfterEnd left))
      else if here.rest.isEmpty then .step (malformed here.offset .missingEnd)
      else
        let nodes ← nodesUpToChecked scope length limit
        pure (⟨UInt32.ofNat start, node⟩ :: nodes)

def nodesChecked (scope : Scope) : Checked Cursor (List PlacedNode) := do
  let here ← .step Reader.get
  if here.rest.isEmpty then pure [] else nodesUpToChecked scope here.rest.length here.rest.length

theorem follows_nodesUpTo (scope : Scope) (limit : Nat) :
    Follows (Cursor.In slice) (nodesUpToChecked scope slice.length limit) (nodesUpTo scope limit)
      (fun _ => Cursor.In slice) (Fault.OfDecoder slice) := by
  have hfail {start : Nat} {reason : DataFault} (hstart : start ≤ slice.length)
      (hstands : reason.StandsAt (slice.drop start)) (hdecoder : reason.CanArise False) :
      Follows (Cursor.In slice) (.step (malformed start reason)) (malformed start reason)
        (fun (_ : List PlacedNode) => Cursor.In slice) (Fault.OfDecoder slice) :=
    .keeps (Located.malformed hstart hstands hdecoder)
  induction limit with
  | zero => exact .position fun _ hc => hfail hc.offset_le trivial trivial
  | succ limit ih =>
      refine .position fun _ _ => .bind (.keeps (Located.node scope)) fun node => ?_
      refine .get fun here hhere => .ite (fun _ => ?_) fun _ => ?_
      · refine .ite (fun _ => .pure fun _ hc => hc) fun _ => ?_
        have hrest : here.rest.length = slice.length - here.offset := by
          rw [hhere.2, List.length_drop]
        rw [hrest]
        exact .difference hhere.1 (hfail hhere.offset_le trivial trivial)
      · refine .ite (fun _ => hfail hhere.offset_le trivial trivial) fun _ => ?_
        exact ih.bind fun _ => .pure fun _ hc => hc

theorem follows_nodes (scope : Scope) :
    Follows (· = Cursor.start slice) (nodesChecked scope) (nodes scope)
      (fun _ => Cursor.In slice) (Fault.OfDecoder slice) := by
  refine .get fun here hhere => ?_
  subst hhere
  refine .ite (fun _ => .pure ?_) fun _ => ?_
  · rintro _ rfl
    exact Cursor.in_start slice
  · refine (follows_nodesUpTo scope _).restrict ?_
    rintro _ rfl
    exact Cursor.in_start slice

end Decoder

/-! ### Streams -/

namespace ByteStream

variable {α β : Type} {start count : Nat} {Post : β → ByteStream → Prop} {Fail : Fault → Prop}

theorem follows_position {next : Nat → Checked ByteStream β} {next' : Nat → Reader ByteStream β}
    (h : Follows (OnAt bytes start) (next start) (next' start) Post Fail) :
    Follows (OnAt bytes start) (Checked.step Reader.position >>= next) (Reader.position >>= next')
      Post Fail := by
  refine .position fun s hs => ?_
  rw [hs.1.offset_eq, hs.2]
  exact h

/-- Wherever the stream stands in the bytes, it stands at some place. -/
theorem follows_on {program : Checked ByteStream β} {reader : Reader ByteStream β}
    (h : ∀ position ≤ bytes.length, Follows (OnAt bytes position) program reader Post Fail) :
    Follows (On bytes) program reader Post Fail :=
  fun s hs => h s.position hs.position_le s ⟨hs, rfl⟩

/-- A run of bytes that has to be there as a whole. -/
def blockChecked (what : String) (count : Nat) : Checked ByteStream (List UInt8) := fun s =>
  match (block what count).run s with
  | .ok bytes s' log => some (.ok bytes s' log)
  | .fail _ _ _ => none

/-- A run of bytes that ends in the stream is never short. -/
theorem follows_block (what : String) (hroom : start + count ≤ bytes.length) :
    Follows (OnAt bytes start) (blockChecked what count) (block what count)
      (fun found s => found.length = count ∧ s.OnAt bytes (start + count)) Fail := by
  intro s hs
  have hrun := hs.run_block hroom what
  have hlength : (slice bytes start (start + count)).length = count := by
    rw [length_slice hroom, Nat.add_sub_cancel_left]
  rw [Checked.run, blockChecked, hrun]
  exact ⟨rfl, hlength, hs.skip hroom⟩

end ByteStream

namespace Substream

open ByteStream SubstreamEntry

variable {scope : Scope} {bodyStart bodySize index start : Nat} {size : UInt32}
  {entry : SubstreamEntry} {later table : List SubstreamEntry}

def readPartsChecked (scope : Scope) (index lineEnd : Nat) (entry : SubstreamEntry) :
    Checked ByteStream Substream := do
  let start ← .step position
  let nodeSize ← difference entry.lineOffset.toNat entry.nodeOffset.toNat
  let lineSize ← difference lineEnd entry.lineOffset.toNat
  .step (note (.substream index nodeSize lineSize))
  let nodeBytes ← blockChecked "node-stream" nodeSize
  let nodes ← within start nodeBytes (Decoder.nodesChecked scope)
  let lineStart ← sum start nodeSize
  let lineBytes ← blockChecked "line-stream" lineSize
  let lines ← within lineStart lineBytes (.step Decoder.lineEntries)
  pure { entry, nodes, lines }

def readEntryChecked (scope : Scope) (bodyStart bodySize index : Nat) (entry : SubstreamEntry)
    (later : List SubstreamEntry) : Checked ByteStream Substream := do
  let start ← .step position
  let expected ← sum bodyStart entry.nodeOffset.toNat
  let lineEnd := SubstreamEntry.lineEnd bodySize later
  if start ≠ expected then .step (malformed start (.substreamStart index expected))
  else if entry.lineOffset < entry.nodeOffset then
    .step (malformed start (.lineBeforeNode index entry.lineOffset entry.nodeOffset))
  else if lineEnd < entry.lineOffset.toNat ∨ bodySize < lineEnd then
    .step (malformed start (.lineEndOutside index))
  else readPartsChecked scope index lineEnd entry

def readAllChecked (scope : Scope) (bodyStart bodySize : Nat) :
    (index : Nat) → List SubstreamEntry → Checked ByteStream (List Substream)
  | _, [] => pure []
  | index, entry :: later => do
      let substream ← readEntryChecked scope bodyStart bodySize index entry later
      let others ← readAllChecked scope bodyStart bodySize (index + 1) later
      pure (substream :: others)

def readSectionChecked (scope : Scope) (size : UInt32) : Checked ByteStream (List Substream) := do
  let sectionStart ← .step position
  let sectionEnd ← sum sectionStart size.toNat
  let table ← .step (Reader.table "substream table" SubstreamEntry.read)
  let bodyStart ← .step position
  if sectionEnd < bodyStart then
    .step (malformed sectionStart (.substreamTableOverflow table.length size))
  else
    let bodySize ← difference sectionEnd bodyStart
    .step (note (.substreamTable table.length bodyStart))
    let substreams ← readAllChecked scope bodyStart bodySize 0 table
    let here ← .step position
    if here ≠ sectionEnd then .step (malformed here (.substreamsEnd here sectionEnd))
    else pure substreams

/-- Where the stream can stand before entry number `index`: anywhere at first, and later where the
entry before it ended. -/
def AtTurn (bytes : List UInt8) (bodyStart bodySize index : Nat) (table : List SubstreamEntry)
    (s : ByteStream) : Prop :=
  s.On bytes ∧ (index = 0 ∨ s.position = bodyStart + lineEnd bodySize table)

theorem follows_readParts (hfits : bytes.length < Checked.limit)
    (hend : bodyStart + bodySize = bytes.length)
    (h : entry.Fits bodyStart bodySize start later) :
    Follows (OnAt bytes start) (readPartsChecked scope index (lineEnd bodySize later) entry)
      (readParts scope index (lineEnd bodySize later) entry)
      (fun _ => OnAt bytes (bodyStart + lineEnd bodySize later)) (Fault.CanArise emptyTable) := by
  obtain ⟨rfl, hnode, hline, hlast⟩ := h
  have hsize := UInt32.toNat_sub_of_le _ _ (UInt32.le_iff_toNat_le.mpr hnode)
  refine follows_position ?_
  dsimp only
  rw [hsize]
  refine .difference hnode (.difference hline ?_)
  refine .bind (.keeps (.report _)) fun _ => ?_
  -- the lines begin where the nodes end, and end where the next entry begins
  refine .bind (follows_block _ (by omega)) fun nodeBytes => .assume fun hnodeBytes => ?_
  refine .bind (.within (Decoder.follows_nodes scope) (by omega)) fun nodes => ?_
  refine .sum (by omega) ?_
  refine .bind (follows_block _ (by omega)) fun lineBytes => .assume fun hlineBytes => ?_
  refine .bind (.within (.located Decoder.Located.lineEntries) (by omega)) fun lines => ?_
  refine .pure fun s hs => ?_
  have hplace : bodyStart + entry.nodeOffset.toNat +
      (entry.lineOffset.toNat - entry.nodeOffset.toNat) +
        (lineEnd bodySize later - entry.lineOffset.toNat) =
      bodyStart + lineEnd bodySize later := by
    omega
  rwa [hplace] at hs

/-- Only the first substream can be at a place where the table does not have it. -/
theorem follows_readEntry (hfits : bytes.length + 2 ^ 32 < Checked.limit)
    (hend : bodyStart + bodySize = bytes.length)
    (hturn : index = 0 ∨ start = bodyStart + entry.nodeOffset.toNat) :
    Follows (OnAt bytes start) (readEntryChecked scope bodyStart bodySize index entry later)
      (readEntry scope bodyStart bodySize index entry later)
      (fun _ => OnAt bytes (bodyStart + lineEnd bodySize later)) (Fault.CanArise emptyTable) := by
  have hword := entry.nodeOffset.toNat_lt
  refine follows_position (.sum (by omega) (.ite (fun hstart => .fail ?_) fun hstart => ?_))
  · exact hturn.resolve_right hstart
  refine .ite (fun _ => .fail trivial) fun hnode => .ite (fun _ => .fail trivial) fun hline => ?_
  rw [UInt32.not_lt, UInt32.le_iff_toNat_le] at hnode
  rw [not_or, Nat.not_lt, Nat.not_lt] at hline
  exact follows_readParts (by omega) hend ⟨not_not.mp hstart, hnode, hline.1, hline.2⟩

theorem follows_readAll (hfits : bytes.length + 2 ^ 32 < Checked.limit)
    (hend : bodyStart + bodySize = bytes.length) :
    Follows (AtTurn bytes bodyStart bodySize index table)
      (readAllChecked scope bodyStart bodySize index table)
      (readAll scope bodyStart bodySize index table)
      (fun _ s => s.On bytes ∧ (index = 0 ∧ table = [] ∨ s.position = bytes.length))
      (Fault.CanArise emptyTable) := by
  induction table generalizing index with
  | nil =>
      refine .pure fun s hs => ⟨hs.1, ?_⟩
      exact hs.2.imp (fun hindex => ⟨hindex, rfl⟩) fun hplace => hplace.trans hend
  | cons entry later ih =>
      have hentry : Follows (AtTurn bytes bodyStart bodySize index (entry :: later))
          (readEntryChecked scope bodyStart bodySize index entry later)
          (readEntry scope bodyStart bodySize index entry later)
          (fun _ => OnAt bytes (bodyStart + lineEnd bodySize later))
          (Fault.CanArise emptyTable) :=
        fun s hs => follows_readEntry hfits hend hs.2 s ⟨hs.1, rfl⟩
      -- the next turn begins where this one ends
      have hlater := (@ih (index + 1)).restrict
        fun s (hs : s.OnAt bytes (bodyStart + lineEnd bodySize later)) => ⟨hs.1, .inr hs.2⟩
      refine hentry.bind fun _ => hlater.bind fun _ => .pure fun s hs => ⟨hs.1, ?_⟩
      exact .inr (hs.2.resolve_left fun hindex => Nat.succ_ne_zero index hindex.1)

/-- From the start of the body, anything in the table leads to the end of the bytes. -/
theorem follows_readAll_start (hfits : bytes.length + 2 ^ 32 < Checked.limit)
    (hend : bodyStart + bodySize = bytes.length) :
    Follows (OnAt bytes bodyStart) (readAllChecked scope bodyStart bodySize 0 table)
      (readAll scope bodyStart bodySize 0 table)
      (fun _ s => s.On bytes ∧ (table = [] ∨ s.position = bytes.length))
      (Fault.CanArise emptyTable) :=
  (follows_readAll hfits hend).mono (fun _ hs => ⟨hs.1, .inl rfl⟩)
    (fun _ _ hs => ⟨hs.1, hs.2.imp_left And.right⟩) fun _ hfault => hfault

/-- A table is read whole or the fault is one of its bytes. -/
theorem follows_table :
    Follows (OnAt bytes start) (.step (Reader.table "substream table" SubstreamEntry.read))
      (Reader.table "substream table" SubstreamEntry.read)
      (fun table s => (table = [] → [0, 0, 0, 0] <+: bytes.drop start) ∧ s.On bytes)
      (Fault.CanArise emptyTable) := by
  have hexactly (what : String) (count : Nat) :
      Keeps (On bytes) (Fault.CanArise emptyTable) (exactly what count) := by
    refine (keeps_exactly what count).mono ?_
    rintro _ ⟨-, -, rfl⟩
    trivial
  have htable : Keeps (On bytes) (Fault.CanArise emptyTable)
      (Reader.table "substream table" SubstreamEntry.read) :=
    Keeps.counted _ (.int32 hexactly _) (fun _ _ _ => trivial) (keeps_entry hexactly)
  refine .step ((htable.refine (fun _ hs => hs.1) ?_).mono (fun _ hs => hs) (fun _ _ hs => hs)
    fun _ _ hfail => hfail.1)
  rintro s table s' log ⟨hon, rfl⟩ hrun hon'
  refine ⟨?_, hon'⟩
  rintro rfl
  obtain ⟨-, -, hspan⟩ := (reads_quietTable (σ := ByteStream) _ reads_entry ..).mp hrun
  obtain ⟨hahead, -⟩ := spans_fixed_iff.mp (spans_table_iff.mp hspan)
  rwa [ahead_eq, hon.readable_eq] at hahead

theorem follows_readSection (hfits : bytes.length + 2 ^ 32 < Checked.limit)
    (hend : start + size.toNat = bytes.length) :
    Follows (OnAt bytes start) (readSectionChecked scope size) (readSection scope size)
      (fun subs s => 8 * subs.length ≤ size.toNat ∧ s.On bytes)
      (Fault.CanArise ([0, 0, 0, 0] <+: bytes.drop start)) := by
  have hsection : Follows (OnAt bytes start) (readSectionChecked scope size)
      (readSection scope size) (fun _ _ => True)
      (Fault.CanArise ([0, 0, 0, 0] <+: bytes.drop start)) := by
    refine follows_position (.sum (by omega) ?_)
    refine .bind follows_table fun table => .assume fun hempty => ?_
    -- the table ends in the bytes, which end with the section
    refine follows_on fun bodyStart hle => follows_position ?_
    refine .ite (fun hlt => absurd hlt (by omega)) fun _ => .difference (by omega) ?_
    refine .bind (.keeps (.report _)) fun _ => ?_
    have hbody : bodyStart + (start + size.toNat - bodyStart) = bytes.length := by omega
    refine (follows_readAll_start hfits hbody).bind fun substreams s hs => ?_
    refine follows_position ?_ s ⟨hs.1, rfl⟩
    refine .ite (fun hplace => .fail (hempty ?_)) fun _ => .pure fun _ _ => trivial
    exact hs.2.resolve_right fun hlast => hplace (hlast.trans hend.symm)
  refine hsection.refine fun s subs s' log hs hrun => ?_
  obtain ⟨-, body, -, hsize, -, -⟩ :=
    (run_readSection_eq_ok (brokenSeek_ne hs.1.plain.2.2 _)).mp hrun
  exact ⟨by omega, (located_readSection scope size).of_run_eq_ok hs.1 hrun⟩

end Substream

end XamlBinary
