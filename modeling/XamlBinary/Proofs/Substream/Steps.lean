import XamlBinary.Proofs.ByteStream.Agree
import XamlBinary.Proofs.File.Located

/-!
The loop over a table, one entry after the other.  `Steps` says that the loop
has come from one turn to a later one; what the loop does from there on is
what it does as a whole.  Where the entry of a turn passes its checks, the
two slices of the substream lie in the file, and a slice that its decoder
refuses ends the loop.
-/

namespace XamlBinary

open Reader

/-- The entry of a substream that begins at `position` passes its checks. -/
structure SubstreamEntry.Fits (bodyStart bodySize position : Nat) (entry : SubstreamEntry)
    (later : List SubstreamEntry) : Prop where
  start : position = bodyStart + entry.nodeOffset.toNat
  node_le : entry.nodeOffset.toNat ≤ entry.lineOffset.toNat
  line_le : entry.lineOffset.toNat ≤ lineEnd bodySize later
  end_le : lineEnd bodySize later ≤ bodySize

namespace Substream

open ByteStream SubstreamEntry

/-- Where the loop over a table stands: the number of the next entry, the entries that are left,
and the stream. -/
structure Turn where
  index : Nat
  table : List SubstreamEntry
  stream : ByteStream

variable {scope : Scope} {bodyStart bodySize stop : Nat} {bytes : List UInt8} {a b c : Turn}
  {log : Log} {t : ByteStream}

/-- One turn of the loop: the next entry is read. -/
inductive Step (scope : Scope) (bodyStart bodySize : Nat) : Turn → Turn → Log → Prop
  | read {index : Nat} {entry : SubstreamEntry} {later : List SubstreamEntry} {s s' : ByteStream}
      {sub : Substream} {log : Log} :
      (readEntry scope bodyStart bodySize index entry later).run s = .ok sub s' log →
        Step scope bodyStart bodySize ⟨index, entry :: later, s⟩ ⟨index + 1, later, s'⟩ log

/-- Any number of turns, with what they log. -/
inductive Steps (scope : Scope) (bodyStart bodySize : Nat) : Turn → Turn → Log → Prop
  | refl (a : Turn) : Steps scope bodyStart bodySize a a []
  | head {a b c : Turn} {log log' : Log} : Step scope bodyStart bodySize a b log →
      Steps scope bodyStart bodySize b c log' → Steps scope bodyStart bodySize a c (log ++ log')

/-! ### What a turn takes -/

theorem Step.exists_skip (h : Step scope bodyStart bodySize a b log)
    (hseek : a.stream.brokenSeek = none) : ∃ count, b.stream = a.stream.skip count := by
  cases h with
  | read hrun =>
      obtain ⟨-, -, -, -, hparts⟩ := (run_readEntry_eq_ok (brokenSeek_ne hseek _)).mp hrun
      obtain ⟨-, nodeBytes, lineBytes, -, -, -, -, hspan, -⟩ := run_readParts_eq_ok.mp hparts
      exact ⟨_, (spans_fixed_iff.mp hspan).2⟩

/-- The turns of a loop leave a stream further on. -/
theorem Steps.exists_skip (h : Steps scope bodyStart bodySize a b log)
    (hseek : a.stream.brokenSeek = none) : ∃ count, b.stream = a.stream.skip count := by
  induction h with
  | refl a => exact ⟨0, rfl⟩
  | head hstep _ ih =>
      obtain ⟨first, hfirst⟩ := hstep.exists_skip hseek
      obtain ⟨rest, hrest⟩ := ih (by rw [hfirst]; exact hseek)
      exact ⟨first + rest, by rw [hrest, hfirst, skip_skip]⟩

theorem Steps.position_le (h : Steps scope bodyStart bodySize a b log)
    (hseek : a.stream.brokenSeek = none) : a.stream.position ≤ b.stream.position := by
  obtain ⟨count, hcount⟩ := h.exists_skip hseek
  rw [hcount]
  exact Nat.le_add_right ..

theorem Steps.on (h : Steps scope bodyStart bodySize a b log) (ha : a.stream.On bytes) :
    b.stream.On bytes := by
  induction h with
  | refl a => exact ha
  | head hstep _ ih =>
      cases hstep with
      | read hrun =>
          exact ih (Triple.of_run_eq_ok (located_readEntry scope bodyStart bodySize _ _ _) ha hrun)

/-- A turn does not see the bytes behind the place where it ends. -/
theorem Step.agree (h : Step scope bodyStart bodySize a b log) (hagree : a.stream.Agree stop t)
    (hstop : b.stream.position ≤ stop) :
    ∃ t', Step scope bodyStart bodySize { a with stream := t } { b with stream := t' } log ∧
      b.stream.Agree stop t' := by
  cases h with
  | read hrun =>
      have hseek := hagree.plain.2.2
      have hseek' := hagree.plain_right.2.2
      obtain ⟨hposition, hnode, hline, hend, hparts⟩ :=
        (run_readEntry_eq_ok (brokenSeek_ne hseek _)).mp hrun
      obtain ⟨hentry, nodeBytes, lineBytes, hnodeLength, hlineLength, hnodes, hlines, hspan,
        hlog⟩ := run_readParts_eq_ok.mp hparts
      obtain ⟨t', hspan', hagree'⟩ := hagree.spans hspan hstop
      have hparts' := run_readParts_eq_ok.mpr
        ⟨hentry, nodeBytes, lineBytes, hnodeLength, hlineLength, hnodes, hlines, hspan', hlog⟩
      rw [hagree.position] at hposition
      exact ⟨t', .read ((run_readEntry_eq_ok (brokenSeek_ne hseek' _)).mpr
        ⟨hposition, hnode, hline, hend, hparts'⟩), hagree'⟩

theorem Steps.agree (h : Steps scope bodyStart bodySize a c log) (hagree : a.stream.Agree stop t)
    (hstop : c.stream.position ≤ stop) :
    ∃ t', Steps scope bodyStart bodySize { a with stream := t } { c with stream := t' } log ∧
      c.stream.Agree stop t' := by
  induction h generalizing t with
  | refl a => exact ⟨t, .refl _, hagree⟩
  | head hstep hrest ih =>
      obtain ⟨first, hfirst⟩ := hstep.exists_skip hagree.plain.2.2
      -- the first turn ends no later than the last one
      have hle := hrest.position_le (by rw [hfirst]; exact hagree.plain.2.2)
      obtain ⟨m, hstep', hagree'⟩ := hstep.agree hagree (Nat.le_trans hle hstop)
      obtain ⟨t', hrest', hagree''⟩ := ih hagree' hstop
      exact ⟨t', .head hstep' hrest', hagree''⟩

/-! ### What ends the loop -/

/-- A fault at some turn of the loop is the end of the whole loop. -/
theorem Steps.run_readAll_fail (h : Steps scope bodyStart bodySize a b log) {fault : Fault}
    {m : ByteStream} {found : Log}
    (hfail : (readAll scope bodyStart bodySize b.index b.table).run b.stream =
      .fail fault m found) :
    (readAll scope bodyStart bodySize a.index a.table).run a.stream =
      .fail fault m (log ++ found) := by
  induction h with
  | refl a => exact hfail
  | head hstep _ ih =>
      cases hstep with
      | read hrun =>
          rw [readAll, run_bind_ok hrun, run_bind_fail (ih hfail), Outcome.after, List.append_assoc]

/-- The loop over the table is the end of the section when it fails. -/
theorem run_readSection_of_readAll {size : UInt32} {s m m' : ByteStream}
    {table : List SubstreamEntry} {first found : Log} {fault : Fault} (hs : s.brokenSeek = none)
    (hm : m.brokenSeek = none)
    (htable : (Reader.table "substream table" SubstreamEntry.read).run s = .ok table m first)
    (hend : m.position + bodySize = s.position + size.toNat)
    (hfail : (readAll scope m.position bodySize 0 table).run m = .fail fault m' found) :
    ∃ log, (readSection scope size).run s = .fail fault m' log ∧
      log.warnings = (first ++ found).warnings := by
  have hsize : s.position + size.toNat - m.position = bodySize := by omega
  rw [readSection, run_position_bind_of_tell (brokenSeek_ne hs _), run_bind_ok htable,
    run_position_bind_of_tell (brokenSeek_ne hm _), if_neg (by omega), run_bind_ok (run_note ..),
    hsize, run_bind_fail hfail]
  refine ⟨_, rfl, ?_⟩
  rw [Log.warnings_append, Log.warnings_append, Log.warnings_append]
  rfl

section Entry

variable {index start middle last lineEnd : Nat} {entry : SubstreamEntry}
  {later : List SubstreamEntry}
  {s : ByteStream} {fault : Fault} {c c' : Cursor} {found nodeLog : Log} {nodes : List PlacedNode}

theorem run_readEntry_of_fits (hseek : s.brokenSeek ≠ some .fromCurrent)
    (h : entry.Fits bodyStart bodySize s.position later) :
    (readEntry scope bodyStart bodySize index entry later).run s =
      (readParts scope index (SubstreamEntry.lineEnd bodySize later) entry).run s := by
  obtain ⟨hstart, hnode, hline, hend⟩ := h
  have hnode : ¬ entry.lineOffset < entry.nodeOffset := by
    rw [UInt32.lt_iff_toNat_lt]
    omega
  rw [readEntry, run_position_bind_of_tell hseek]
  dsimp only
  rw [if_neg (by simpa using hstart), if_neg hnode, if_neg (by omega)]

/-- A decoder that refuses its slice ends the run at the place of the slice. -/
theorem run_within_fail {α : Type} {decoder : Decoder α} {base : Nat} {slice : List UInt8}
    (h : decoder.run (.start slice) = .fail fault c found) :
    (within base slice decoder).run s = .fail (fault.rebase base) s found := by
  simp only [run] at h
  simp only [run, within, h]

/-- The slice of the nodes is refused. -/
theorem run_readParts_of_nodes (hs : s.OnAt bytes start)
    (hmiddle : start + (entry.lineOffset - entry.nodeOffset).toNat = middle)
    (hroom : middle ≤ bytes.length)
    (h : (Decoder.nodes scope).run (.start (slice bytes start middle)) = .fail fault c found) :
    ∃ m log, (readParts scope index lineEnd entry).run s = .fail (fault.rebase start) m log ∧
      log.warnings = found.warnings := by
  subst hmiddle
  have hblock := hs.run_block hroom "node-stream"
  obtain ⟨hon, rfl⟩ := hs
  rw [readParts, run_position_bind, hon.offset_eq]
  dsimp only
  rw [run_bind_ok (run_note ..), run_bind_ok hblock, run_bind_fail (run_within_fail h)]
  exact ⟨_, _, rfl, rfl⟩

/-- The slice of the lines is refused, behind nodes that are not. -/
theorem run_readParts_of_lines (hs : s.OnAt bytes start)
    (hmiddle : start + (entry.lineOffset - entry.nodeOffset).toNat = middle)
    (hlast : middle + (lineEnd - entry.lineOffset.toNat) = last) (hroom : last ≤ bytes.length)
    (hnodes : (Decoder.nodes scope).run (.start (slice bytes start middle)) =
      .ok nodes c' nodeLog)
    (h : Decoder.lineEntries.run (.start (slice bytes middle last)) = .fail fault c found) :
    ∃ m log, (readParts scope index lineEnd entry).run s = .fail (fault.rebase middle) m log ∧
      log.warnings = (nodeLog ++ found).warnings := by
  subst hmiddle hlast
  have hle := Nat.le_trans (Nat.le_add_right ..) hroom
  have hblock := hs.run_block hle "node-stream"
  have hbehind := hs.skip hle
  have hblock' := hbehind.run_block hroom "line-stream"
  obtain ⟨hon, rfl⟩ := hs
  rw [readParts, run_position_bind, hon.offset_eq]
  dsimp only
  rw [run_bind_ok (run_note ..), run_bind_ok hblock,
    run_bind_ok (run_within_eq_ok.mpr ⟨rfl, c', hnodes⟩), run_bind_ok hblock',
    run_bind_fail (run_within_fail h)]
  exact ⟨_, _, rfl, rfl⟩

end Entry

end Substream

end XamlBinary
