import XamlBinary.Proofs.ByteStream.Reading
import XamlBinary.Proofs.Cursor.Located
import XamlBinary.Proofs.Written.Shortest

/-!
Lists whose items pay for themselves.  A reader consumes when it never puts
bytes back and takes at least one wherever it ends well.  A list of items that
consume completes no more of them than it takes bytes, whatever its count says
and wherever it stops.
-/

namespace XamlBinary

namespace Reader

open LawfulByteSource

variable {σ α β : Type}

/-- How many of `count` items are read before one of them fails. -/
def completed (item : Reader σ α) : Nat → σ → Nat
  | 0, _ => 0
  | count + 1, s =>
      match item.run s with
      | .ok _ s' _ => completed item count s' + 1
      | .fail .. => 0

/-- How many items a counted list has read when it ends, well or not. -/
def completedOf (count : Reader σ Int32) (item : Reader σ α) (s : σ) : Nat :=
  match count.run s with
  | .ok n s' _ => if n < 0 then 0 else completed item n.toNatClampNeg s'
  | .fail .. => 0

theorem completed_succ_of_ok {item : Reader σ α} {s s' : σ} {a : α} {log : Log}
    (h : item.run s = .ok a s' log) (count : Nat) :
    completed item (count + 1) s = completed item count s' + 1 := by
  rw [completed, h]

theorem completed_succ_of_fail {item : Reader σ α} {s s' : σ} {fault : Fault} {log : Log}
    (h : item.run s = .fail fault s' log) (count : Nat) : completed item (count + 1) s = 0 := by
  rw [completed, h]

/-- A list that is read has all the items that were completed. -/
theorem completed_of_run_listOf {item : Reader σ α} {count : Nat} {s s' : σ} {items : List α}
    {log : Log} (h : (listOf item count).run s = .ok items s' log) :
    completed item count s = items.length := by
  induction count generalizing s s' items log with
  | zero =>
      obtain ⟨rfl, -, -⟩ := run_pure_eq_ok.mp h
      rfl
  | succ count ih =>
      rw [listOf_succ, run_bind_eq_ok] at h
      obtain ⟨head, m, first, second, hhead, hrest, -⟩ := h
      obtain ⟨tail, m', third, last, htail, hpure, -⟩ := run_bind_eq_ok.mp hrest
      obtain ⟨rfl, -, -⟩ := run_pure_eq_ok.mp hpure
      rw [completed_succ_of_ok hhead, ih htail, List.length_cons]

theorem state_map (f : α → β) (reader : Reader σ α) (s : σ) :
    ((f <$> reader).run s).state = (reader.run s).state := by
  rw [run_map]
  cases reader.run s <;> rfl

variable [ByteSource σ]

theorem completedOf_of_run_counted {what : String} {count : Reader σ Int32} {item : Reader σ α}
    {s s' : σ} {items : List α} {log : Log}
    (h : (counted what count item).run s = .ok items s' log) :
    completedOf count item s = items.length := by
  rw [counted, run_position_bind] at h
  obtain ⟨n, m, first, second, hcount, hitems, -⟩ := run_bind_eq_ok.mp h
  rw [completedOf, hcount]
  by_cases hneg : n < 0
  · simp [hneg] at hitems
  · rw [if_neg hneg] at hitems
    simp only [if_neg hneg]
    exact completed_of_run_listOf hitems

theorem state_exactly (what : String) (count : Nat) (s : σ) :
    ((exactly what count).run s).state = (ByteSource.take count s).2 := by
  rw [run, exactly]
  rcases ByteSource.take count s with ⟨taken, s'⟩
  cases taken <;> rfl

variable [LawfulByteSource σ]

/-- The number of bytes that can still be taken. -/
def room (s : σ) : Nat := (ahead s).length

/-- The reader never ends with more bytes ahead than there were. -/
def Forward (reader : Reader σ α) : Prop :=
  ∀ s, room (reader.run s).state ≤ room s

/-- Besides, it takes a byte where it ends well. -/
def Consumes (reader : Reader σ α) : Prop :=
  Forward reader ∧ ∀ s a s' log, reader.run s = .ok a s' log → room s' < room s

/-- What is read in a spelling of some length takes that many bytes. -/
theorem room_of_spans {w : Written} {s s' : σ} (h : Spans w s s') :
    room s' + w.bytes.length ≤ room s := by
  obtain ⟨bytes, hbytes, hahead, rfl⟩ := h
  have hspelling := hbytes.length_bytes_le
  have hlength := hahead.length_le
  rw [room, room, ahead_skip, List.length_drop]
  omega

/-- A reader consumes when nothing that it reads is written in no bytes. -/
theorem Forward.consumes {reader : Reader σ α} {w : α → Written} {P : α → Prop} {l : α → Log}
    (h : Forward reader) (hreads : Reads reader w P l) (hw : ∀ a, 1 ≤ (w a).bytes.length) :
    Consumes reader := by
  refine ⟨h, fun s a s' log hrun => ?_⟩
  obtain ⟨-, -, hspan⟩ := (hreads s a s' log).mp hrun
  have hroom := room_of_spans hspan
  have hbyte := hw a
  omega

/-- Each item that is completed is paid for with a byte. -/
theorem Consumes.completed_le {item : Reader σ α} (h : Consumes item) (count : Nat) (s : σ) :
    completed item count s + room ((listOf item count).run s).state ≤ room s := by
  induction count generalizing s with
  | zero => exact Nat.le_of_eq (Nat.zero_add _)
  | succ count ih =>
      rw [listOf_succ]
      cases hitem : item.run s with
      | fail fault m log =>
          have hforward := h.1 s
          rw [hitem] at hforward
          rw [completed_succ_of_fail hitem, run_bind_fail hitem, Nat.zero_add]
          exact hforward
      | ok a m log =>
          -- the byte that this item took makes up for counting it
          have hbyte := h.2 s a m log hitem
          have hrest := ih m
          rw [completed_succ_of_ok hitem, run_bind_ok hitem, Outcome.state_after, bind_pure_comp,
            state_map]
          omega

theorem Consumes.completedOf_le {item : Reader σ α} (h : Consumes item) {count : Reader σ Int32}
    (hcount : Forward count) (what : String) (s : σ) :
    completedOf count item s + room ((counted what count item).run s).state ≤ room s := by
  have hforward := hcount s
  rw [counted, run_position_bind, completedOf]
  cases hrun : count.run s with
  | fail fault m log =>
      rw [hrun] at hforward
      rw [run_bind_fail hrun]
      exact Nat.le_trans (Nat.le_of_eq (Nat.zero_add _)) hforward
  | ok n m log =>
      rw [hrun] at hforward
      rw [run_bind_ok hrun, Outcome.state_after]
      by_cases hneg : n < 0
      · simp only [if_pos hneg, run_malformed]
        exact Nat.le_trans (Nat.le_of_eq (Nat.zero_add _)) hforward
      · simp only [if_neg hneg]
        exact Nat.le_trans (h.completed_le _ m) hforward

/-- A list that completes no more items than it takes bytes, and gives those that it completed. -/
structure PaysFor (what : String) (count : Reader σ Int32) (item : Reader σ α) : Prop where
  completed_le (s : σ) :
    completedOf count item s + room ((counted what count item).run s).state ≤ room s
  length_eq (s : σ) (items : List α) (s' : σ) (log : Log) :
    (counted what count item).run s = .ok items s' log → items.length = completedOf count item s

theorem Consumes.paysFor {item : Reader σ α} (h : Consumes item) {count : Reader σ Int32}
    (hcount : Forward count) (what : String) : PaysFor what count item where
  completed_le := h.completedOf_le hcount what
  length_eq _ _ _ _ hrun := (completedOf_of_run_counted hrun).symm

/-! ### Going forward -/

/-- Going forward is an invariant, so the rules for those apply. -/
theorem forward_iff_keeps {reader : Reader σ α} :
    Forward reader ↔ ∀ n, Keeps (fun s => room s ≤ n) (fun _ => True) reader := by
  constructor
  · intro h n s hs
    have hroom := Nat.le_trans (h s) hs
    cases hrun : reader.run s with
    | ok a s' log =>
        rw [hrun] at hroom
        exact hroom
    | fail fault s' log =>
        rw [hrun] at hroom
        exact ⟨trivial, hroom⟩
  · exact fun h s => (h (room s)).state Nat.le.refl

end Reader

namespace ByteStream

open Reader

theorem room_skip_le (s : ByteStream) (count : Nat) : room (s.skip count) ≤ room s := by
  show (s.skip count).readable.length ≤ s.readable.length
  rw [readable_skip, List.length_drop]
  exact Nat.sub_le _ _

/-- A value that is cut takes what there is of it. -/
theorem take_snd (s : ByteStream) (count : Nat) :
    (ByteSource.take count s).2 = s.skip (s.readable.take count).length := by
  simp only [ByteSource.take, pull_eq (rfl : s.readable.take count = _)]
  by_cases hlength : (s.readable.take count).length = count
  · rw [if_pos hlength]
  · rw [if_neg hlength]
    cases (s.skip (s.readable.take count).length).shortage with
    | endOfBytes => rfl
    | stopped effect => cases effect <;> rfl

theorem forward_exactly (what : String) (count : Nat) :
    Forward (exactly what count : Reader ByteStream _) := by
  intro s
  rw [state_exactly, take_snd]
  exact s.room_skip_le _

theorem room_exactly (n : Nat) (what : String) (count : Nat) :
    Keeps (fun s : ByteStream => room s ≤ n) (fun _ => True) (exactly what count) :=
  forward_iff_keeps.mp (forward_exactly what count) n

end ByteStream

namespace Decoder

open Reader

/-- A decoder that keeps to every slice goes forward in it: what is behind it could be anything,
so it cannot come to stand there. -/
theorem Located.forward {α : Type} {decoder : Decoder α} (h : ∀ slice, Located slice decoder) :
    Forward decoder := by
  rintro ⟨offset, rest⟩
  have hslice (b : UInt8) :
      ((decoder.run ⟨offset, rest⟩).state).In (List.replicate offset b ++ rest) :=
    (h _).state (by simp [Cursor.In])
  generalize (decoder.run ⟨offset, rest⟩).state = c at hslice
  obtain ⟨hoffset, hzeros⟩ := hslice 0
  obtain ⟨-, hones⟩ := hslice 1
  have hle : offset ≤ c.offset := by
    refine Nat.le_of_not_lt fun hlt => ?_
    have hbehind (b : UInt8) : c.offset ≤ (List.replicate offset b).length := by
      rw [List.length_replicate]
      exact Nat.le_of_lt hlt
    have hsucc : offset - c.offset = offset - c.offset - 1 + 1 := by omega
    rw [List.drop_append_of_le_length (hbehind _), List.drop_replicate, hsucc,
      List.replicate_succ, List.cons_append] at hzeros hones
    rw [hzeros] at hones
    cases hones
  show c.rest.length ≤ rest.length
  rw [hzeros, List.length_drop, List.length_append, List.length_replicate]
  omega

theorem Located.consumes {α : Type} {decoder : Decoder α} {w : α → Written} {P : α → Prop}
    {l : α → Log} (h : ∀ slice, Located slice decoder) (hreads : Reads decoder w P l)
    (hw : ∀ a, 1 ≤ (w a).bytes.length) : Consumes decoder :=
  (Located.forward h).consumes hreads hw

end Decoder

end XamlBinary
