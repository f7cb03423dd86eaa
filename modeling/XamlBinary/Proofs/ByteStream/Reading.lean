import XamlBinary.ByteStream.Reading
import XamlBinary.Proofs.Reader.Primitive

/-!
Streams give out the bytes that can be read in order, whatever else is wrong
with them.  Reading moves nothing but the position.
-/

namespace XamlBinary

open Reader

namespace ByteStream

/-- The stream that many bytes further on. -/
def skip (s : ByteStream) (count : Nat) : ByteStream := { s with position := s.position + count }

@[simp] theorem position_skip (s : ByteStream) (count : Nat) :
    (s.skip count).position = s.position + count := rfl

@[simp] theorem brokenSeek_skip (s : ByteStream) (count : Nat) :
    (s.skip count).brokenSeek = s.brokenSeek := rfl

@[simp] theorem reportedLength_skip (s : ByteStream) (count : Nat) :
    (s.skip count).reportedLength = s.reportedLength := rfl

@[simp] theorem skip_skip (s : ByteStream) (m n : Nat) : (s.skip m).skip n = s.skip (m + n) := by
  simp only [skip, Nat.add_assoc]

theorem readable_skip (s : ByteStream) (count : Nat) :
    (s.skip count).readable = s.readable.drop count := by
  cases hlimit : s.limit with
  | none => simp [readable, skip, hlimit]
  | some limit => simp [readable, skip, hlimit]

theorem readable_of_limit {s : ByteStream} (h : s.limit = none) :
    s.readable = s.bytes.drop s.position := by
  rw [readable, h]

/-- Without a limit all that a read can meet is the end of the bytes. -/
theorem shortage_of_limit {s : ByteStream} (h : s.limit = none) : s.shortage = .endOfBytes := by
  rw [shortage, h]

/-- A pull delivers what is readable of the bytes it asks for, and stands behind them. -/
theorem pull_eq {s : ByteStream} {count : Nat} {bytes : List UInt8}
    (h : s.readable.take count = bytes) :
    s.pull count = (bytes, if bytes.length = count then none
      else some (s.skip bytes.length).shortage, s.skip bytes.length) := by
  subst h
  rw [pull]
  split
  · rfl
  · rfl

/-- A pull that is not short delivers the bytes ahead. -/
theorem pull_eq_none_iff {s s' : ByteStream} {count : Nat} {bytes : List UInt8} :
    s.pull count = (bytes, none, s') ↔
      bytes.length = count ∧ bytes <+: s.readable ∧ s' = s.skip count := by
  rw [pull]
  constructor
  · intro h
    split at h
    · rename_i hlength
      cases h
      exact ⟨hlength, List.take_prefix .., by rw [hlength, skip]⟩
    · cases h
  · rintro ⟨rfl, hprefix, rfl⟩
    have htake := List.prefix_iff_eq_take.mp hprefix
    rw [← htake, if_pos rfl]
    rfl

instance : LawfulByteSource ByteStream where
  ahead := readable
  skip := skip
  skip_zero s := rfl
  skip_skip := skip_skip
  ahead_skip := readable_skip
  take_eq_all s s' count bytes := by
    rw [← pull_eq_none_iff]
    simp only [ByteSource.take]
    constructor
    · intro h
      split at h
      · rename_i hpull
        cases h
        exact hpull
      · cases h
      · cases h
    · intro h
      rw [h]

@[simp] theorem ahead_eq (s : ByteStream) : LawfulByteSource.ahead s = s.readable := rfl

@[simp] theorem skip_eq (s : ByteStream) (count : Nat) :
    LawfulByteSource.skip s count = s.skip count := rfl

theorem brokenSeek_of_spans {w : Written} {s s' : ByteStream} (h : Spans w s s') :
    s'.brokenSeek = s.brokenSeek := by
  obtain ⟨bytes, -, -, rfl⟩ := h
  rfl

theorem position_of_spans {bytes : List UInt8} {s s' : ByteStream}
    (h : Spans [.fixed bytes] s s') : s'.position = s.position + bytes.length := by
  obtain ⟨-, rfl⟩ := spans_fixed_iff.mp h
  rfl

theorem reads_block (what : String) (count : Nat) :
    Reads (block what count) (fun bytes => [.fixed bytes]) (fun bytes => bytes.length = count)
      fun _ => [] := by
  intro s bytes s' log
  rw [spans_fixed_iff, ahead_eq, skip_eq]
  have hpull : s.pull count = (bytes, none, s') ↔ _ := pull_eq_none_iff
  simp only [block, run]
  constructor
  · intro h
    split at h
    · rename_i bytes' after heq
      cases h
      obtain ⟨rfl, hahead, hafter⟩ := hpull.mp heq
      exact ⟨rfl, rfl, hahead, hafter⟩
    · cases h
    · cases h
    · cases h
  · rintro ⟨rfl, rfl, hahead, rfl⟩
    rw [hpull.mpr ⟨rfl, hahead, rfl⟩]

/-! ### Seeking -/

theorem offset_of_tell {s : ByteStream} (h : s.brokenSeek ≠ some .fromCurrent) :
    s.offset = s.position := by
  rw [offset, tell, if_neg h]

section Position

variable {α : Type} {next : Nat → Reader ByteStream α} {s : ByteStream}

theorem run_position_bind_of_tell (h : s.brokenSeek ≠ some .fromCurrent) :
    (Reader.position >>= next).run s = (next s.position).run s := by
  rw [run_position_bind, offset_eq, offset_of_tell h]

/-- Behind bytes that have been taken the stream knows as well where it stands. -/
theorem run_position_bind_skip (h : s.brokenSeek ≠ some .fromCurrent) (count : Nat) :
    (Reader.position >>= next).run (s.skip count) =
      (next (s.position + count)).run (s.skip count) :=
  run_position_bind_of_tell (s := s.skip count) h

end Position

theorem run_goTo_eq_ok {what : String} {offset : Nat} {s s' : ByteStream} {log : Log} :
    (goTo what offset).run s = .ok () s' log ↔
      s.brokenSeek ≠ some .fromStart ∧ s' = { s with position := offset } ∧ log = [] := by
  simp only [goTo, run, seekTo]
  constructor
  · intro h
    split at h
    · rename_i there heq
      split at heq
      · cases heq
      · rename_i hseek
        cases heq
        cases h
        exact ⟨hseek, rfl, rfl⟩
    · cases h
  · rintro ⟨hseek, rfl, rfl⟩
    rw [if_neg hseek]

/-- The length can be asked for, and asking for it moves nothing, when all seeks work. -/
theorem run_measure {s : ByteStream} (h : s.brokenSeek = none) (offset : Nat) :
    (measure offset).run s = .ok s.reportedLength s [] := by
  obtain ⟨bytes, position, limit, claimed, broken⟩ := s
  obtain rfl : broken = none := h
  rw [run, measure, length]
  by_cases hend : position = claimed.getD bytes.length
  · simp [tell, seekToEnd, reportedLength, ← hend]
  · simp [tell, seekToEnd, seekTo, reportedLength, hend]

theorem brokenSeek_of_measure {s s' : ByteStream} {offset length : Nat} {log : Log}
    (h : (measure offset).run s = .ok length s' log) :
    s.brokenSeek ≠ some .fromCurrent ∧ s.brokenSeek ≠ some .fromEnd := by
  constructor
  · intro hbroken
    simp [measure, run, ByteStream.length, tell, hbroken] at h
  · intro hbroken
    simp [measure, run, ByteStream.length, tell, seekToEnd, hbroken] at h

/-! ### Returning to where the stream stood -/

variable {α : Type} {body : Reader ByteStream α} {s s' : ByteStream} {a : α} {log : Log}

theorem result_restore (position : Nat) (o : Outcome ByteStream α) :
    (restore position o).result = o.result := by
  cases o with
  | ok a s log =>
      rw [restore]
      split <;> rfl
  | fail fault s log =>
      rw [restore]
      split <;> rfl

/-- Where the position can be asked for, returning to it does not change how the run ends. -/
theorem result_keepingPosition (h : s.brokenSeek ≠ some .fromCurrent) :
    ((keepingPosition body).run s).result = (body.run s).result := by
  have htell : s.tell = .ok s.position := by rw [tell, if_neg h]
  simp only [run, keepingPosition, htell]
  exact result_restore s.position _

/-- Returning never turns a failure into a success. -/
theorem exists_of_run_keepingPosition (h : (keepingPosition body).run s = .ok a s' log) :
    ∃ m first, body.run s = .ok a m first := by
  rw [run, keepingPosition] at h
  split at h
  · cases h
  · cases hrun : body.run s with
    | fail fault m first =>
        rw [hrun, restore] at h
        split at h <;> cases h
    | ok b m first =>
        rw [hrun, restore] at h
        split at h
        · cases h
          exact ⟨_, _, rfl⟩
        · cases h
          exact ⟨_, _, rfl⟩

/-- Where seeks work, before the run and after it, only the position is put back. -/
theorem run_keepingPosition (hnone : s.brokenSeek = none) {m : ByteStream}
    (hrun : body.run s = .ok a m log) (hkeep : m.brokenSeek = s.brokenSeek) :
    (keepingPosition body).run s = .ok a { m with position := s.position } log := by
  have htell : s.tell = .ok s.position := by rw [tell, if_neg (by simp [hnone])]
  have hback : m.seekTo s.position = .ok { m with position := s.position } := by
    rw [seekTo, if_neg (by simp [hkeep, hnone])]
  simp only [run, keepingPosition, htell] at hrun ⊢
  rw [hrun, restore, hback]

end ByteStream

end XamlBinary
