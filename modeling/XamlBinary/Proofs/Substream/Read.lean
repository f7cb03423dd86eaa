import XamlBinary.Proofs.ByteStream.Reading
import XamlBinary.Proofs.Node.Decode
import XamlBinary.Substream.Read
import XamlBinary.Substream.Written

/-!
The node-stream section is read exactly.  Its body is tiled by the slices of
the substreams: each slice begins where the one before it ended, at the place
that the table gives for it, and the last one ends with the body.
-/

namespace XamlBinary

open Reader

namespace Substream

/-- The bytes are the slices of the substreams one after the other, from `start` on in a body
of that size, and each slice gives the nodes or lines of its substream. -/
def Tiled (scope : Scope) (bodySize start : Nat) : List Substream → List UInt8 → Prop
  | [], bytes => bytes = []
  | s :: later, bytes => ∃ nodeBytes lineBytes rest, bytes = nodeBytes ++ (lineBytes ++ rest) ∧
      s.entry.nodeOffset.toNat = start ∧
      s.entry.lineOffset.toNat = start + nodeBytes.length ∧
      SubstreamEntry.lineEnd bodySize (later.map (·.entry)) =
        start + nodeBytes.length + lineBytes.length ∧
      (Decoder.nodes scope).Gives nodeBytes s.nodes ∧
      Decoder.lineEntries.Gives lineBytes s.lines ∧
      Tiled scope bodySize (start + nodeBytes.length + lineBytes.length) later rest

/-- What reading the substreams from number `index` on logs. -/
def readLog (bodySize index : Nat) : List Substream → Log
  | [] => []
  | s :: later =>
      .note (.substream index (s.entry.lineOffset - s.entry.nodeOffset).toNat
        (SubstreamEntry.lineEnd bodySize (later.map (·.entry)) - s.entry.lineOffset.toNat)) ::
      (s.nodes.flatMap (·.node.log) ++ readLog bodySize (index + 1) later)

variable {scope : Scope} {bodyStart bodySize start index lineEnd : Nat}
  {nodeBytes lineBytes : List UInt8} {entry : SubstreamEntry}
  {later table : List SubstreamEntry} {sub : Substream} {subs : List Substream}
  {s s' : ByteStream} {log : Log}

/-- Slices that begin at all end with the body. -/
theorem Tiled.end_eq {bytes : List UInt8} (h : Tiled scope bodySize start (sub :: subs) bytes) :
    start + bytes.length = bodySize := by
  induction subs generalizing sub start bytes with
  | nil =>
      obtain ⟨nodeBytes, lineBytes, rest, rfl, -, -, hend, -, -, hrest⟩ := h
      obtain rfl : rest = [] := hrest
      rw [List.map_nil, SubstreamEntry.lineEnd] at hend
      rw [List.append_nil, List.length_append, hend, Nat.add_assoc]
  | cons next subs ih =>
      obtain ⟨nodeBytes, lineBytes, rest, rfl, -, -, -, -, -, hrest⟩ := h
      have hlength := ih hrest
      rw [List.length_append, List.length_append]
      omega

theorem Tiled.lineEnd_le {bytes : List UInt8} (h : Tiled scope bodySize start subs bytes)
    (hend : SubstreamEntry.lineEnd bodySize (subs.map (·.entry)) = start) : start ≤ bodySize := by
  cases subs with
  | nil => exact Nat.le_of_eq hend.symm
  | cons sub subs =>
      rw [← h.end_eq]
      exact Nat.le_add_right ..

/-- The sizes that are logged are those of the slices. -/
theorem readLog_cons (hnode : sub.entry.nodeOffset.toNat = start)
    (hline : sub.entry.lineOffset.toNat = start + nodeBytes.length)
    (hend : SubstreamEntry.lineEnd bodySize (subs.map (·.entry)) =
      start + nodeBytes.length + lineBytes.length) :
    readLog bodySize index (sub :: subs) =
      .note (.substream index nodeBytes.length lineBytes.length) ::
        (sub.nodes.flatMap (·.node.log) ++ readLog bodySize (index + 1) subs) := by
  have hsize := UInt32.toNat_sub_of_le sub.entry.lineOffset sub.entry.nodeOffset
    (UInt32.le_iff_toNat_le.mpr (by omega))
  rw [readLog, hend, hsize, hnode, hline, Nat.add_sub_cancel_left, Nat.add_sub_cancel_left]

/-! ### One substream -/

/-- A decoder of a slice with the log that goes with what it gives. -/
theorem run_nodes_iff_gives {bytes : List UInt8} {nodes : List PlacedNode} :
    (∃ c, (Decoder.nodes scope).run (Cursor.start bytes) = .ok nodes c log) ↔
      (Decoder.nodes scope).Gives bytes nodes ∧ log = nodes.flatMap (·.node.log) := by
  constructor
  · rintro ⟨c, hrun⟩
    obtain ⟨-, -, -, hlog, -⟩ := Decoder.run_nodes_eq_ok.mp hrun
    exact ⟨⟨c, log, hrun⟩, hlog⟩
  · rintro ⟨⟨c, log', hrun⟩, rfl⟩
    obtain ⟨-, -, -, hlog, -⟩ := Decoder.run_nodes_eq_ok.mp hrun
    exact ⟨c, hlog ▸ hrun⟩

theorem run_lines_iff_gives {bytes : List UInt8} {lines : List LineEntry} :
    (∃ c, Decoder.lineEntries.run (Cursor.start bytes) = .ok lines c log) ↔
      Decoder.lineEntries.Gives bytes lines ∧ log = [] := by
  constructor
  · rintro ⟨c, hrun⟩
    obtain ⟨-, -, -, hlog, -⟩ := Decoder.run_lineEntries_eq_ok.mp hrun
    exact ⟨⟨c, log, hrun⟩, hlog⟩
  · rintro ⟨⟨c, log', hrun⟩, rfl⟩
    obtain ⟨-, -, -, hlog, -⟩ := Decoder.run_lineEntries_eq_ok.mp hrun
    exact ⟨c, hlog ▸ hrun⟩

theorem run_readParts_eq_ok :
    (readParts scope index lineEnd entry).run s = .ok sub s' log ↔
      sub.entry = entry ∧ ∃ nodeBytes lineBytes,
        nodeBytes.length = (entry.lineOffset - entry.nodeOffset).toNat ∧
        lineBytes.length = lineEnd - entry.lineOffset.toNat ∧
        (Decoder.nodes scope).Gives nodeBytes sub.nodes ∧
        Decoder.lineEntries.Gives lineBytes sub.lines ∧
        Spans [.fixed (nodeBytes ++ lineBytes)] s s' ∧
        log = .note (.substream index nodeBytes.length lineBytes.length) ::
          sub.nodes.flatMap (·.node.log) := by
  rw [readParts, run_position_bind]
  dsimp only
  rw [run_note_bind_eq_ok]
  constructor
  · rintro ⟨_, h, rfl⟩
    obtain ⟨nodeBytes, s₁, _, _, hblock, h₁, rfl⟩ := run_bind_eq_ok.mp h
    obtain ⟨hnodeLength, rfl, hnodeSpan⟩ := (ByteStream.reads_block ..).mp hblock
    obtain ⟨nodes, s₂, _, _, hwithin, h₂, rfl⟩ := run_bind_eq_ok.mp h₁
    obtain ⟨rfl, hrun⟩ := run_within_eq_ok.mp hwithin
    obtain ⟨hnodes, rfl⟩ := run_nodes_iff_gives.mp hrun
    obtain ⟨lineBytes, s₃, _, _, hblock', h₃, rfl⟩ := run_bind_eq_ok.mp h₂
    obtain ⟨hlineLength, rfl, hlineSpan⟩ := (ByteStream.reads_block ..).mp hblock'
    obtain ⟨lines, s₄, _, _, hwithin', h₄, rfl⟩ := run_bind_eq_ok.mp h₃
    obtain ⟨rfl, hrun'⟩ := run_within_eq_ok.mp hwithin'
    obtain ⟨hlines, rfl⟩ := run_lines_iff_gives.mp hrun'
    obtain ⟨rfl, rfl, rfl⟩ := run_pure_eq_ok.mp h₄
    refine ⟨rfl, nodeBytes, lineBytes, hnodeLength, hlineLength, hnodes, hlines, ?_, ?_⟩
    · exact spans_fixed_append_iff.mpr ⟨_, hnodeSpan, hlineSpan⟩
    · simp [hnodeLength, hlineLength]
  · rintro ⟨rfl, nodeBytes, lineBytes, hnodeLength, hlineLength, hnodes, hlines, hspan, rfl⟩
    obtain ⟨s₁, hnodeSpan, hlineSpan⟩ := spans_fixed_append_iff.mp hspan
    have hnodeBlock := (ByteStream.reads_block "node-stream" _ ..).mpr ⟨hnodeLength, rfl, hnodeSpan⟩
    have hlineBlock := (ByteStream.reads_block "line-stream" _ ..).mpr ⟨hlineLength, rfl, hlineSpan⟩
    obtain ⟨c, hnodes⟩ := run_nodes_iff_gives.mpr ⟨hnodes, rfl⟩
    obtain ⟨c', hlines⟩ := run_lines_iff_gives.mpr ⟨hlines, rfl⟩
    refine ⟨sub.nodes.flatMap (·.node.log), ?_, ?_⟩
    · rw [run_bind_ok hnodeBlock, Outcome.after_nil,
        run_bind_ok (run_within_eq_ok.mpr ⟨rfl, c, hnodes⟩), run_bind_ok hlineBlock,
        Outcome.after_nil, run_bind_ok (run_within_eq_ok.mpr ⟨rfl, c', hlines⟩)]
      simp [Outcome.after]
    · rw [hnodeLength, hlineLength]

theorem run_readEntry_eq_ok (htell : s.brokenSeek ≠ some .fromCurrent) :
    (readEntry scope bodyStart bodySize index entry later).run s = .ok sub s' log ↔
      s.position = bodyStart + entry.nodeOffset.toNat ∧
        entry.nodeOffset.toNat ≤ entry.lineOffset.toNat ∧
        entry.lineOffset.toNat ≤ SubstreamEntry.lineEnd bodySize later ∧
        SubstreamEntry.lineEnd bodySize later ≤ bodySize ∧
        (readParts scope index (SubstreamEntry.lineEnd bodySize later) entry).run s =
          .ok sub s' log := by
  rw [readEntry, ByteStream.run_position_bind_of_tell htell]
  dsimp only
  split
  · rename_i hstart
    exact iff_of_false (by simp) fun h => hstart h.1
  · rename_i hstart
    split
    · rename_i hline
      refine iff_of_false (by simp) fun h => ?_
      exact absurd h.2.1 (Nat.not_le.mpr (UInt32.lt_iff_toNat_lt.mp hline))
    · rename_i hline
      split
      · rename_i hend
        refine iff_of_false (by simp) fun h => ?_
        omega
      · rename_i hend
        rw [UInt32.not_lt, UInt32.le_iff_toNat_le] at hline
        constructor
        · exact fun h => ⟨not_not.mp hstart, hline, by omega, by omega, h⟩
        · exact fun h => h.2.2.2.2

/-- An entry is read at its place, from two slices that are as long as the table says. -/
theorem run_readEntry_iff_gives (htell : s.brokenSeek ≠ some .fromCurrent)
    (hposition : s.position = bodyStart + start) :
    (readEntry scope bodyStart bodySize index entry later).run s = .ok sub s' log ↔
      sub.entry = entry ∧ ∃ nodeBytes lineBytes,
        entry.nodeOffset.toNat = start ∧
        entry.lineOffset.toNat = start + nodeBytes.length ∧
        SubstreamEntry.lineEnd bodySize later = start + nodeBytes.length + lineBytes.length ∧
        SubstreamEntry.lineEnd bodySize later ≤ bodySize ∧
        (Decoder.nodes scope).Gives nodeBytes sub.nodes ∧
        Decoder.lineEntries.Gives lineBytes sub.lines ∧
        Spans [.fixed (nodeBytes ++ lineBytes)] s s' ∧
        log = .note (.substream index nodeBytes.length lineBytes.length) ::
          sub.nodes.flatMap (·.node.log) := by
  rw [run_readEntry_eq_ok htell, run_readParts_eq_ok]
  constructor
  · rintro ⟨hplace, hnode, hline, hend, hentry, nodeBytes, lineBytes, hnodeLength, hlineLength, h⟩
    have hsize := UInt32.toNat_sub_of_le _ _ (UInt32.le_iff_toNat_le.mpr hnode)
    exact ⟨hentry, nodeBytes, lineBytes, by omega, by omega, by omega, hend, h⟩
  · rintro ⟨hentry, nodeBytes, lineBytes, hnode, hline, hlineEnd, hend, h⟩
    have hsize := UInt32.toNat_sub_of_le entry.lineOffset entry.nodeOffset
      (UInt32.le_iff_toNat_le.mpr (by omega))
    exact ⟨by omega, by omega, by omega, hend, hentry, nodeBytes, lineBytes, by omega, by omega, h⟩

/-! ### All of them -/

/-- One more substream ahead of the others. -/
theorem run_readAll_cons_eq_ok :
    (readAll scope bodyStart bodySize index (entry :: later)).run s = .ok subs s' log ↔
      ∃ sub others m first second,
        (readEntry scope bodyStart bodySize index entry later).run s = .ok sub m first ∧
        (readAll scope bodyStart bodySize (index + 1) later).run m = .ok others s' second ∧
        subs = sub :: others ∧ log = first ++ second := by
  rw [readAll, run_bind_eq_ok]
  constructor
  · rintro ⟨sub, m, first, _, hentry, hrest, rfl⟩
    obtain ⟨others, m', second, _, hothers, hpure, rfl⟩ := run_bind_eq_ok.mp hrest
    obtain ⟨rfl, rfl, rfl⟩ := run_pure_eq_ok.mp hpure
    exact ⟨sub, others, m, first, second, hentry, hothers, rfl, by rw [List.append_nil]⟩
  · rintro ⟨sub, others, m, first, second, hentry, hothers, rfl, rfl⟩
    refine ⟨sub, m, first, second, hentry, ?_, rfl⟩
    rw [run_bind_ok hothers, run_pure, Outcome.after, List.append_nil]

/-- The loop over the table.  What carries it is that the stream stands where the slices of
the substreams so far have ended. -/
theorem run_readAll_eq_ok (htell : s.brokenSeek ≠ some .fromCurrent)
    (hposition : s.position = bodyStart + start) :
    (readAll scope bodyStart bodySize index table).run s = .ok subs s' log ↔
      subs.map (·.entry) = table ∧ log = readLog bodySize index subs ∧
        ∃ bytes, Tiled scope bodySize start subs bytes ∧ Spans [.fixed bytes] s s' := by
  -- what carries the loop is where the stream stands, which is why `start` is generalized
  induction table generalizing s s' index start subs log with
  | nil =>
      rw [readAll, run_pure_eq_ok, List.map_eq_nil_iff]
      constructor
      · rintro ⟨rfl, rfl, rfl⟩
        exact ⟨rfl, rfl, [], rfl, spans_fixed_iff.mpr ⟨List.nil_prefix, rfl⟩⟩
      · rintro ⟨rfl, rfl, bytes, rfl, hspan⟩
        exact ⟨rfl, (spans_fixed_iff.mp hspan).2, rfl⟩
  | cons entry later ih =>
      have hskip (n : Nat) : (s.skip n).position = bodyStart + (start + n) := by
        rw [ByteStream.position_skip, hposition, Nat.add_assoc]
      rw [run_readAll_cons_eq_ok]
      constructor
      · rintro ⟨sub, others, m, first, second, hentry, hothers, rfl, rfl⟩
        obtain ⟨rfl, nodeBytes, lineBytes, hnode, hline, hlineEnd, -, hnodes, hlines, hspan, rfl⟩ :=
          (run_readEntry_iff_gives htell hposition).mp hentry
        obtain ⟨-, rfl⟩ := spans_fixed_iff.mp hspan
        obtain ⟨rfl, rfl, rest, htiled, hspan'⟩ := (ih (s := s.skip _) htell (hskip _)).mp hothers
        rw [List.length_append, ← Nat.add_assoc] at htiled
        have htiled : Tiled scope bodySize start (sub :: others)
            (nodeBytes ++ (lineBytes ++ rest)) :=
          ⟨nodeBytes, lineBytes, rest, rfl, hnode, hline, hlineEnd, hnodes, hlines, htiled⟩
        refine ⟨rfl, ?_, _, htiled, ?_⟩
        · rw [readLog_cons hnode hline hlineEnd, List.cons_append]
        · rw [← List.append_assoc]
          exact spans_fixed_append_iff.mpr ⟨_, hspan, hspan'⟩
      · rintro ⟨hmap, rfl, bytes, htiled, hspan⟩
        cases subs with
        | nil => cases hmap
        | cons sub others =>
            obtain ⟨rfl, rfl⟩ := List.cons.inj hmap
            obtain ⟨nodeBytes, lineBytes, rest, rfl, hnode, hline, hlineEnd, hnodes, hlines,
              htiled⟩ := htiled
            have hend : SubstreamEntry.lineEnd bodySize (others.map (·.entry)) ≤ bodySize := by
              rw [hlineEnd]
              exact htiled.lineEnd_le hlineEnd
            rw [← List.append_assoc] at hspan
            obtain ⟨m, hparts, hrest⟩ := spans_fixed_append_iff.mp hspan
            obtain ⟨-, rfl⟩ := spans_fixed_iff.mp hparts
            rw [Nat.add_assoc, ← List.length_append] at htiled
            have hentry : (readEntry scope bodyStart bodySize index sub.entry
                (others.map (·.entry))).run s =
                  .ok sub (s.skip (nodeBytes ++ lineBytes).length) _ :=
              (run_readEntry_iff_gives htell hposition).mpr ⟨rfl, nodeBytes, lineBytes, hnode,
                hline, hlineEnd, hend, hnodes, hlines, hparts, rfl⟩
            have hothers : (readAll scope bodyStart bodySize (index + 1)
                (others.map (·.entry))).run (s.skip (nodeBytes ++ lineBytes).length) =
                  .ok others s' _ :=
              (ih (s := s.skip _) htell (hskip _)).mpr ⟨rfl, rfl, rest, htiled, hrest⟩
            refine ⟨sub, others, _, _, _, hentry, hothers, rfl, ?_⟩
            rw [readLog_cons hnode hline hlineEnd, List.cons_append]

/-! ### The section -/

theorem reads_entry :
    Reads SubstreamEntry.read SubstreamEntry.written (fun _ => True) fun _ => [] := by
  refine Reads.pair (reads_uint32 _) (reads_uint32 _) ?_ (fun _ _ => rfl) fun _ _ => rfl
  exact fun e => iff_of_true trivial ⟨e.nodeOffset, trivial, e.lineOffset, trivial, rfl⟩

end Substream

namespace SubstreamEntry

/-- The bytes of a table. -/
def tableBytes (table : List SubstreamEntry) : List UInt8 :=
  Written.bytes (.table SubstreamEntry.written table)

theorem spells_table_iff {table : List SubstreamEntry} {bytes : List UInt8} :
    Written.Spells (.table SubstreamEntry.written table) bytes ↔ bytes = tableBytes table :=
  (Written.isFixed_table (fun _ => by simp [SubstreamEntry.written]) table).spells_iff

@[simp] theorem length_tableBytes (table : List SubstreamEntry) :
    (tableBytes table).length = 4 + 8 * table.length := by
  rw [tableBytes, Written.table, Written.bytes_append, Written.bytes_flatMap, List.length_append,
    Written.length_bytes_word32]
  induction table with
  | nil => rfl
  | cons e table ih =>
      rw [List.flatMap_cons, List.length_append, SubstreamEntry.written, Written.bytes_append,
        List.length_append, Written.length_bytes_word32, Written.length_bytes_word32,
        List.length_cons]
      omega

theorem spans_table_iff {table : List SubstreamEntry} {s s' : ByteStream} :
    Spans (.table SubstreamEntry.written table) s s' ↔ Spans [.fixed (tableBytes table)] s s' := by
  simp only [Spans, spells_table_iff, Written.spells_fixed_iff]

end SubstreamEntry

namespace Substream

/-- A node-stream section is accepted when its body, behind the table, is tiled by the slices
of the substreams, which are then the result. -/
theorem run_readSection_eq_ok {size : UInt32} (htell : s.brokenSeek ≠ some .fromCurrent) :
    (readSection scope size).run s = .ok subs s' log ↔
      subs.length < 2 ^ 31 ∧ ∃ body, Tiled scope body.length 0 subs body ∧
        4 + 8 * subs.length + body.length = size.toNat ∧
        Spans [.fixed (SubstreamEntry.tableBytes (subs.map (·.entry)) ++ body)] s s' ∧
        log = .note (.substreamTable subs.length (s.position + (4 + 8 * subs.length))) ::
          readLog body.length 0 subs := by
  have htable := reads_quietTable (σ := ByteStream) "substream table" reads_entry
  rw [readSection, ByteStream.run_position_bind_of_tell htell, run_bind_eq_ok]
  constructor
  · rintro ⟨table, m, first, second, hrun, hrest, rfl⟩
    obtain ⟨⟨hcount, -⟩, rfl, hspan⟩ := (htable ..).mp hrun
    rw [SubstreamEntry.spans_table_iff] at hspan
    obtain ⟨-, rfl⟩ := spans_fixed_iff.mp hspan
    rw [ByteStream.skip_eq, ByteStream.run_position_bind_skip htell,
      SubstreamEntry.length_tableBytes] at hrest
    split at hrest
    · cases hrest
    · rename_i hroom
      obtain ⟨_, hbody, rfl⟩ := run_note_bind_eq_ok.mp hrest
      obtain ⟨subs', m', _, _, hall, hend, rfl⟩ := run_bind_eq_ok.mp hbody
      -- the stream stands behind the table, where the body begins
      have hstart : (s.skip (4 + 8 * table.length)).position =
          s.position + (4 + 8 * table.length) + 0 := rfl
      obtain ⟨rfl, rfl, body, htiled, hspan'⟩ :=
        (run_readAll_eq_ok (s := s.skip _) htell hstart).mp hall
      obtain ⟨-, rfl⟩ := spans_fixed_iff.mp hspan'
      rw [ByteStream.skip_eq, ByteStream.skip_skip, ByteStream.run_position_bind_skip htell] at hend
      split at hend
      · cases hend
      · rename_i hhere
        obtain ⟨rfl, rfl, rfl⟩ := run_pure_eq_ok.mp hend
        rw [List.length_map] at hroom hhere hcount
        -- that the section ends here gives the size of the body
        have hsize : s.position + size.toNat - (s.position + (4 + 8 * subs.length)) =
            body.length := by omega
        rw [List.length_map, hsize] at htiled
        rw [List.length_map, hsize, List.append_nil]
        refine ⟨hcount, body, htiled, by omega, ?_, rfl⟩
        have hstate : s.skip (4 + 8 * subs.length + body.length) =
            (s.skip (SubstreamEntry.tableBytes (subs.map (·.entry))).length).skip body.length := by
          rw [ByteStream.skip_skip, SubstreamEntry.length_tableBytes, List.length_map]
        rw [hstate]
        rw [← SubstreamEntry.length_tableBytes] at hspan'
        exact spans_fixed_append_iff.mpr ⟨_, hspan, hspan'⟩
  · rintro ⟨hcount, body, htiled, hlength, hspan, rfl⟩
    obtain ⟨m, hspanTable, hspanBody⟩ := spans_fixed_append_iff.mp hspan
    obtain ⟨-, rfl⟩ := spans_fixed_iff.mp hspanTable
    obtain ⟨-, rfl⟩ := spans_fixed_iff.mp hspanBody
    have hrun := (htable ..).mpr ⟨⟨by rwa [List.length_map], fun _ _ => trivial⟩, rfl,
      SubstreamEntry.spans_table_iff.mpr hspanTable⟩
    have hbody : s.position + size.toNat - (s.position + (4 + 8 * subs.length)) =
        body.length := by omega
    refine ⟨subs.map (·.entry), _, _, _, hrun, ?_, rfl⟩
    rw [ByteStream.skip_eq, ByteStream.run_position_bind_skip htell,
      SubstreamEntry.length_tableBytes, List.length_map, if_neg (by omega), hbody,
      run_note_bind_eq_ok]
    rw [ByteStream.skip_eq, SubstreamEntry.length_tableBytes, List.length_map] at hspanBody
    have hstart : (s.skip (4 + 8 * subs.length)).position =
        s.position + (4 + 8 * subs.length) + 0 := rfl
    have hall : (readAll scope (s.position + (4 + 8 * subs.length)) body.length 0
        (subs.map (·.entry))).run (s.skip (4 + 8 * subs.length)) = .ok subs _ _ :=
      (run_readAll_eq_ok (s := s.skip _) htell hstart).mpr ⟨rfl, rfl, body, htiled, hspanBody⟩
    refine ⟨readLog body.length 0 subs, ?_, rfl⟩
    rw [run_bind_ok hall, ByteStream.skip_eq, ByteStream.skip_skip,
      ByteStream.run_position_bind_skip htell, if_neg (by omega), run_pure, Outcome.after,
      List.append_nil]

end Substream

end XamlBinary
