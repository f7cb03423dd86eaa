import XamlBinary.Proofs.Node.Decode

/-!
Line-streams are the lists of entries that never go back to an earlier node.
Each entry is compared with the one before it only, and that puts the whole
list in order.  The three fields of an entry can be spelled in any way that a
7-bit integer can be; the first entry that goes back is refused where it
begins, and nothing behind it matters.
-/

namespace XamlBinary

open Reader

namespace LineEntry

/-- No entry leads to a node before that of an earlier entry. -/
def InOrder (es : List LineEntry) : Prop :=
  es.Pairwise fun e later => e.nodeOffset ≤ later.nodeOffset

instance (es : List LineEntry) : Decidable (InOrder es) := by unfold InOrder; infer_instance

/-- Comparing neighbours is enough. -/
theorem ascendFrom_iff {previous : UInt32} {es : List LineEntry} :
    AscendFrom previous es ↔ (∀ e ∈ es, previous ≤ e.nodeOffset) ∧ InOrder es := by
  induction es generalizing previous with
  | nil => simp [AscendFrom, InOrder]
  | cons e es ih =>
      have hcons : InOrder (e :: es) ↔
          (∀ later ∈ es, e.nodeOffset ≤ later.nodeOffset) ∧ InOrder es := List.pairwise_cons
      rw [AscendFrom, ih, List.forall_mem_cons, hcons]
      constructor
      · rintro ⟨hle, hfrom, horder⟩
        exact ⟨⟨hle, fun later hlater => UInt32.le_trans hle (hfrom later hlater)⟩, hfrom, horder⟩
      · rintro ⟨⟨hle, -⟩, hfrom, horder⟩
        exact ⟨hle, hfrom, horder⟩

theorem ascendFrom_zero_iff {es : List LineEntry} : AscendFrom 0 es ↔ InOrder es := by
  rw [ascendFrom_iff]
  exact and_iff_right fun e _ => UInt32.zero_le

end LineEntry

namespace Decoder

open LineEntry

variable {c : Cursor} {e : LineEntry} {spelling rest : List UInt8}

/-- One entry, however it is spelled: it is refused where it begins, or the entries behind it
are read from its node on. -/
theorem run_lineEntriesUpTo_entry (hvalid : e.Valid) (hspells : e.written.Spells spelling)
    (hrest : c.rest = spelling ++ rest) (previous : UInt32) (limit : Nat) :
    (lineEntriesUpTo previous (limit + 1)).run c =
      if e.nodeOffset < previous then
        .fail (.malformed c.offset (.lineOrder e.nodeOffset previous))
          ⟨c.offset + spelling.length, rest⟩ []
      else
        (lineEntriesUpTo e.nodeOffset limit >>= fun es => pure (e :: es)).run
          ⟨c.offset + spelling.length, rest⟩ := by
  have hentry := (reads_lineEntry c e ⟨c.offset + spelling.length, rest⟩ []).mpr
    ⟨hvalid, rfl, Cursor.spans_iff.mpr ⟨spelling, hspells, hrest, rfl⟩⟩
  have hmore : ¬ c.rest.isEmpty = true := by
    rw [hrest, List.isEmpty_iff]
    exact List.append_ne_nil_of_left_ne_nil (lineEntry_ne_nil hspells) rest
  rw [lineEntriesUpTo, run_get_bind, if_neg hmore, run_bind_ok hentry, Outcome.after_nil]
  split
  · rfl
  · rfl

/-- Entries in order, and then one that goes back from the last of them. -/
theorem failsWith_lineEntriesUpTo {es : List LineEntry} {previous : UInt32} {limit : Nat}
    {front : List UInt8} (hlimit : c.rest.length ≤ limit)
    (hrest : c.rest = front ++ (spelling ++ rest)) (hascend : AscendFrom previous es)
    (hvalids : ∀ e ∈ es, e.Valid) (hspelled : Written.Spells (es.flatMap LineEntry.written) front)
    (hvalid : e.Valid) (hspells : e.written.Spells spelling)
    (hback : e.nodeOffset < (es.map nodeOffset).getLastD previous) :
    (lineEntriesUpTo previous limit).FailsWith c
      (.malformed (c.offset + front.length)
        (.lineOrder e.nodeOffset ((es.map nodeOffset).getLastD previous))) := by
  -- the induction is on the entries in order; the last of them is what `e` is compared with
  induction es generalizing c previous limit front with
  | nil =>
      obtain rfl := Written.spells_nil_iff.mp hspelled
      have hpos := List.length_pos_iff.mpr (lineEntry_ne_nil hspells)
      rw [List.nil_append] at hrest
      rw [hrest, List.length_append] at hlimit
      obtain ⟨limit, rfl⟩ : ∃ n, limit = n + 1 := ⟨limit - 1, by omega⟩
      refine ⟨⟨c.offset + spelling.length, rest⟩, [], ?_⟩
      rw [run_lineEntriesUpTo_entry hvalid hspells hrest]
      exact if_pos hback
  | cons first es ih =>
      obtain ⟨hfirst, hvalids⟩ := List.forall_mem_cons.mp hvalids
      obtain ⟨horder, hascend⟩ := hascend
      rw [List.flatMap_cons] at hspelled
      obtain ⟨bytes, front, rfl, hbytes, hspelled⟩ := Written.spells_append_iff.mp hspelled
      have hpos := List.length_pos_iff.mpr (lineEntry_ne_nil hbytes)
      rw [List.append_assoc] at hrest
      rw [hrest, List.length_append] at hlimit
      obtain ⟨limit, rfl⟩ : ∃ n, limit = n + 1 := ⟨limit - 1, by omega⟩
      rw [List.map_cons, List.getLastD_cons] at hback ⊢
      have hlimit : (front ++ (spelling ++ rest)).length ≤ limit := by omega
      obtain ⟨c', log, hrun⟩ := ih (c := ⟨c.offset + bytes.length, front ++ (spelling ++ rest)⟩)
        hlimit rfl hascend hvalids hspelled hback
      refine ⟨c', log, ?_⟩
      rw [run_lineEntriesUpTo_entry hfirst hbytes hrest, if_neg (UInt32.not_lt.mpr horder),
        run_bind_fail hrun, List.length_append, Nat.add_assoc]

/-- A slice is accepted as a line-stream exactly when it spells, up to its last byte, entries of
31-bit fields in the order of their nodes, which are then the result.  Where entries in order are
followed by one that goes back from the last of them, the slice is malformed at the first byte
of that one, whatever stands behind it. -/
theorem lineEntries_inOrder (slice : List UInt8) :
    (∀ es c log, lineEntries.run (Cursor.start slice) = .ok es c log ↔
      (InOrder es ∧ (∀ e ∈ es, e.Valid) ∧
        Written.Spells (es.flatMap LineEntry.written) slice) ∧
        log = [] ∧ c = ⟨slice.length, []⟩) ∧
    ∀ (es : List LineEntry) (last e : LineEntry) (front spelling rest : List UInt8),
      slice = front ++ (spelling ++ rest) →
      InOrder es → (∀ e ∈ es, e.Valid) → Written.Spells (es.flatMap LineEntry.written) front →
      es.getLast? = some last → e.Valid → e.written.Spells spelling →
      e.nodeOffset < last.nodeOffset →
        lineEntries.FailsWith (Cursor.start slice)
          (.malformed front.length (.lineOrder e.nodeOffset last.nodeOffset)) := by
  refine ⟨fun es c log => ?_, ?_⟩
  · rw [run_lineEntries_eq_ok, ascendFrom_zero_iff, and_assoc, and_assoc]
  · intro es last e front spelling rest hslice horder hvalids hspelled hlast hvalid hspells hback
    have hprevious : (es.map nodeOffset).getLastD 0 = last.nodeOffset := by
      rw [List.getLastD_eq_getLast?, List.getLast?_map, hlast]
      rfl
    rw [← hprevious] at hback
    have hfails := failsWith_lineEntriesUpTo (c := Cursor.start slice) (le_refl _) hslice
      (ascendFrom_zero_iff.mpr horder) hvalids hspelled hvalid hspells hback
    rw [hprevious] at hfails
    simpa [FailsWith, lineEntries, run_get_bind, Cursor.start] using hfails

/-- Two entries of one node, the first offset in three bytes where one would do; and behind them
an entry that goes back. -/
theorem lineEntries_inOrder_padded :
    lineEntries.run (Cursor.start [0x81, 0x80, 0, 2, 3, 1, 0, 5]) =
        .ok [⟨1, 2, 3⟩, ⟨1, 0, 5⟩] ⟨8, []⟩ [] ∧
      lineEntries.FailsWith (Cursor.start [0x81, 0x80, 0, 2, 3, 1, 0, 5, 0, 1, 1, 0xFF])
        (.malformed 8 (.lineOrder 0 1)) := by
  have hvalids : ∀ e ∈ [LineEntry.mk 1 2 3, ⟨1, 0, 5⟩], e.Valid := by
    simp [LineEntry.valid_iff]
  have hpadded : Varint.Spells [0x81, 0x80, 0] 1 :=
    ⟨by simp [Varint.Closed], by decide, by decide⟩
  have hspelled : Written.Spells ([LineEntry.mk 1 2 3, ⟨1, 0, 5⟩].flatMap LineEntry.written)
      [0x81, 0x80, 0, 2, 3, 1, 0, 5] :=
    Written.Spells.varint hpadded
      (Written.spells_bytes (.natural 2 ++ .natural 3 ++ LineEntry.written ⟨1, 0, 5⟩))
  constructor
  · exact ((lineEntries_inOrder _).1 _ _ _).mpr ⟨⟨by decide, hvalids, hspelled⟩, rfl, rfl⟩
  · exact (lineEntries_inOrder _).2 _ ⟨1, 0, 5⟩ ⟨0, 1, 1⟩ _ [0, 1, 1] [0xFF] rfl (by decide) hvalids
      hspelled rfl ⟨by decide, by decide, by decide⟩ (Written.spells_bytes _) (by decide)

end Decoder

end XamlBinary
