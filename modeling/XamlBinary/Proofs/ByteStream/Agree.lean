import XamlBinary.Proofs.ByteStream.Located
import XamlBinary.Proofs.Substream.Partition

/-!
Plain streams that agree up to a place of their bytes.  A run that ends well
has taken exactly the bytes of its value, so on a stream that agrees with the
first one up to where the run ends it runs in the same way, and the two agree
afterwards as well.
-/

namespace XamlBinary

open Reader

namespace ByteStream

variable {s s' t : ByteStream} {bytes : List UInt8} {start count stop : Nat}

/-- The next bytes are a slice of all of them. -/
theorem OnAt.spans_slice (h : s.OnAt bytes start) (hroom : start + count ≤ bytes.length) :
    Spans [.fixed (slice bytes start (start + count))] s (s.skip count) := by
  obtain ⟨hon, rfl⟩ := h
  refine spans_fixed_iff.mpr ⟨?_, ?_⟩
  · rw [ahead_eq, hon.readable_eq, drop_eq_slice_append (Nat.le_add_right ..)]
    exact List.prefix_append ..
  · rw [skip_eq, length_slice hroom, Nat.add_sub_cancel_left]

/-- A run of bytes that ends in the stream is read whole. -/
theorem OnAt.run_block (h : s.OnAt bytes start) (hroom : start + count ≤ bytes.length)
    (what : String) :
    (block what count).run s = .ok (slice bytes start (start + count)) (s.skip count) [] := by
  have hlength : (slice bytes start (start + count)).length = count := by
    rw [length_slice hroom, Nat.add_sub_cancel_left]
  exact (reads_block what count ..).mpr ⟨hlength, rfl, h.spans_slice hroom⟩

theorem OnAt.skip (h : s.OnAt bytes start) (hroom : start + count ≤ bytes.length) :
    (s.skip count).OnAt bytes (start + count) := by
  obtain ⟨hon, rfl⟩ := h
  exact ⟨⟨hon.plain, hon.bytes_eq, hroom⟩, rfl⟩

/-- So is a value that ends in the stream. -/
theorem triple_exactly {Fail : Fault → ByteStream → Prop} (what : String)
    (hroom : start + count ≤ bytes.length) :
    Triple (OnAt bytes start) (exactly what count) (fun _ => OnAt bytes (start + count)) Fail := by
  intro s hs
  have hlength : (slice bytes start (start + count)).length = count := by
    rw [length_slice hroom, Nat.add_sub_cancel_left]
  rw [(reads_exactly what count ..).mpr ⟨hlength, rfl, hs.spans_slice hroom⟩]
  exact hs.skip hroom

theorem brokenSeek_ne (h : s.brokenSeek = none) (origin : SeekOrigin) :
    s.brokenSeek ≠ some origin := by
  rw [h]
  exact (Option.some_ne_none origin).symm

theorem position_le_of_spans {w : Written} (h : Spans w s s') : s.position ≤ s'.position := by
  obtain ⟨bytes, -, -, rfl⟩ := h
  exact Nat.le_add_right ..

/-- Plain streams of one length that stand at the same place and have the same bytes up to
`stop`. -/
structure Agree (stop : Nat) (s t : ByteStream) : Prop where
  plain : s.IsPlain
  plain_right : t.IsPlain
  position : s.position = t.position
  length : s.bytes.length = t.bytes.length
  take : s.bytes.take stop = t.bytes.take stop

namespace Agree

theorem offset (h : s.Agree stop t) : s.offset = t.offset := by
  rw [offset_of_tell (brokenSeek_ne h.plain.2.2 _),
    offset_of_tell (brokenSeek_ne h.plain_right.2.2 _), h.position]

theorem reportedLength (h : s.Agree stop t) : s.reportedLength = t.reportedLength := by
  rw [ByteStream.reportedLength, ByteStream.reportedLength, h.plain.2.1, h.plain_right.2.1]
  exact h.length

theorem slice (h : s.Agree stop t) (start : Nat) :
    slice s.bytes start stop = slice t.bytes start stop := by
  rw [XamlBinary.slice, XamlBinary.slice, h.take]

/-- Slices that end further up agree as well. -/
theorem mono {stop' : Nat} (h : s.Agree stop t) (hstop : stop' ≤ stop) : s.Agree stop' t where
  plain := h.plain
  plain_right := h.plain_right
  position := h.position
  length := h.length
  take := by rw [← Nat.min_eq_left hstop, ← List.take_take, ← List.take_take, h.take]

theorem skip (h : s.Agree stop t) (count : Nat) : (s.skip count).Agree stop (t.skip count) where
  plain := h.plain
  plain_right := h.plain_right
  position := congrArg (· + count) h.position
  length := h.length
  take := h.take

/-- Bytes ahead of the one stream that end before `stop` are ahead of the other. -/
theorem prefix_readable (h : s.Agree stop t) (hbytes : bytes <+: s.readable)
    (hstop : s.position + bytes.length ≤ stop) : bytes <+: t.readable := by
  rw [readable_of_limit h.plain.1] at hbytes
  rw [readable_of_limit h.plain_right.1, ← h.position]
  have hends (l : List UInt8) : (l.drop s.position).take bytes.length =
      ((l.take stop).drop s.position).take bytes.length := by
    rw [List.drop_take, List.take_take, Nat.min_eq_left (by omega)]
  rw [List.prefix_iff_eq_take, hends, h.take, ← hends] at hbytes
  rw [hbytes]
  exact List.take_prefix ..

theorem spans {w : Written} (h : s.Agree stop t) (hspan : Spans w s s')
    (hstop : s'.position ≤ stop) : ∃ t', Spans w t t' ∧ s'.Agree stop t' := by
  obtain ⟨bytes, hspells, hahead, rfl⟩ := hspan
  exact ⟨t.skip bytes.length, ⟨bytes, hspells, h.prefix_readable hahead hstop, rfl⟩, h.skip _⟩

end Agree

end ByteStream

/-- An exact reader ends well on both streams or on neither, as long as it stays in front of the
place up to which they agree. -/
theorem Reader.Reads.agree {α : Type} {reader : Reader ByteStream α} {w : α → Written}
    {P : α → Prop} {l : α → Log} (hreads : Reads reader w P l) {s s' t : ByteStream} {stop : Nat}
    {a : α} {log : Log} (h : s.Agree stop t) (hrun : reader.run s = .ok a s' log)
    (hstop : s'.position ≤ stop) :
    ∃ t', reader.run t = .ok a t' log ∧ s'.Agree stop t' := by
  obtain ⟨ha, rfl, hspan⟩ := (hreads ..).mp hrun
  obtain ⟨t', hspan', hagree⟩ := h.spans hspan hstop
  exact ⟨t', (hreads ..).mpr ⟨ha, rfl, hspan'⟩, hagree⟩

end XamlBinary
