import XamlBinary.Proofs.ByteStream.Coupled
import XamlBinary.Proofs.ByteStream.Reading

/-!
A stream and the same stream cut short, so that reads fail from an offset on.
As long as no read fails the two deliver the same bytes, and a read fails
exactly when it would take a byte from behind the cut.
-/

namespace XamlBinary

namespace ByteStream

/-- The stream with reads that fail from `offset` on. -/
def cut (s : ByteStream) (offset : Nat) : ByteStream := { s with limit := some ⟨offset, .failure⟩ }

section Cut

variable {s : ByteStream} {offset count : Nat}

theorem readable_cut (s : ByteStream) (offset : Nat) :
    (s.cut offset).readable = (s.bytes.take offset).drop s.position := rfl

theorem shortage_cut (s : ByteStream) (offset : Nat) : (s.cut offset).shortage =
    if offset ≤ s.position ∧ s.position < s.bytes.length then .stopped .failure
    else .endOfBytes := rfl

theorem skip_cut (s : ByteStream) (offset count : Nat) :
    (s.cut offset).skip count = (s.skip count).cut offset := rfl

/-- The two streams have the same bytes ahead, and behind these bytes neither of them meets the
cut. -/
theorem pull_cut_of_take_eq (hfree : s.limit = none)
    (hbytes : (s.cut offset).readable.take count = s.readable.take count)
    (hclear : (s.readable.take count).length = count ∨
      ¬ (offset ≤ s.position + (s.readable.take count).length ∧
        s.position + (s.readable.take count).length < s.bytes.length)) :
    ∃ bytes shortage s', (s.cut offset).pull count = (bytes, shortage, s'.cut offset) ∧
      s.pull count = (bytes, shortage, s') ∧ s'.limit = none := by
  have hpull := pull_eq (rfl : s.readable.take count = _)
  have hcut := pull_eq hbytes
  rw [skip_cut] at hcut
  refine ⟨_, _, _, hcut, ?_, hfree⟩
  rw [hpull]
  rcases hclear with hlength | hclear
  · rw [if_pos hlength, if_pos hlength]
  · rw [shortage_of_limit (s := s.skip _) hfree, shortage_cut]
    congr 2
    split
    · rfl
    · exact congrArg some (if_neg hclear).symm

/-- A read of the stream that is cut fails, or it does what it does without the cut. -/
theorem pull_cut (hfree : s.limit = none) (offset count : Nat) :
    (∃ bytes s', (s.cut offset).pull count = (bytes, some (.stopped .failure), s')) ∨
      ∃ bytes shortage s', (s.cut offset).pull count = (bytes, shortage, s'.cut offset) ∧
        s.pull count = (bytes, shortage, s') ∧ s'.limit = none := by
  have hreadable := readable_of_limit hfree
  have hcut := readable_cut s offset
  have hlength : (s.readable.take count).length = min count (s.bytes.length - s.position) := by
    rw [hreadable, List.length_take, List.length_drop]
  by_cases hahead : s.position + count ≤ offset
  · -- the whole read lies ahead of the cut
    have hbytes : (s.cut offset).readable.take count = s.readable.take count := by
      rw [hcut, hreadable, List.drop_take, List.take_take, Nat.min_eq_left (by omega)]
    exact .inr (pull_cut_of_take_eq hfree hbytes (by omega))
  · by_cases hend : s.bytes.length ≤ offset ∨ s.bytes.length ≤ s.position
    · -- there is nothing behind the cut that could be missed
      have hbytes : (s.cut offset).readable = s.readable := by
        rw [hcut, hreadable]
        rcases hend with hend | hend
        · rw [List.take_of_length_le hend]
        · have htake : (s.bytes.take offset).length ≤ s.position := by
            rw [List.length_take]
            omega
          rw [List.drop_of_length_le hend, List.drop_of_length_le htake]
      exact .inr (pull_cut_of_take_eq hfree (by rw [hbytes]) (by omega))
    · by_cases hzero : count = 0
      · subst hzero
        exact .inr (pull_cut_of_take_eq hfree (by simp) (.inl (by simp)))
      · -- the read comes to stand at the cut or behind it, with bytes left
        have hshort : ((s.cut offset).readable.take count).length = offset - s.position := by
          rw [hcut, List.length_take, List.length_drop, List.length_take]
          omega
        have hstands : offset ≤ (s.skip (offset - s.position)).position ∧
            (s.skip (offset - s.position)).position < (s.skip (offset - s.position)).bytes.length := by
          rw [position_skip]
          exact ⟨by omega, by show _ < s.bytes.length; omega⟩
        have hpull := pull_eq (rfl : (s.cut offset).readable.take count = _)
        rw [hshort, if_neg (by omega), skip_cut, shortage_cut, if_pos hstands] at hpull
        exact .inl ⟨_, _, hpull⟩

/-- Asking for the length takes no byte, so the cut does not matter. -/
theorem length_cut (s : ByteStream) (offset : Nat) :
    (s.cut offset).length = (s.length.1, s.length.2.cut offset) ∧ s.length.2.limit = s.limit := by
  obtain ⟨bytes, position, limit, claimed, broken⟩ := s
  by_cases hend : position = claimed.getD bytes.length
  · cases broken with
    | none => simp [length, tell, seekToEnd, reportedLength, cut, ← hend]
    | some origin => cases origin <;> simp [length, tell, seekToEnd, reportedLength, cut, ← hend]
  · cases broken with
    | none => simp [length, tell, seekToEnd, seekTo, reportedLength, cut, hend]
    | some origin =>
        cases origin <;> simp [length, tell, seekToEnd, seekTo, reportedLength, cut, hend]

end Cut

end ByteStream

/-- A stream that is cut beside the same stream without the cut.  Where a read fails, the
first one goes its own way. -/
def Coupling.cut (offset : Nat) : Coupling ByteStream ByteStream where
  states s t := t.limit = none ∧ s = t.cut offset
  faults := Eq
  escapes fault := fault.cause? = some .readFailure

theorem Coupling.sound_cut (offset : Nat) : (Coupling.cut offset).Sound where
  refl _ := rfl
  tell := by
    rintro s t ⟨-, rfl⟩
    rfl
  seekTo := by
    rintro s t position ⟨hfree, rfl⟩
    by_cases hbroken : t.brokenSeek = some .fromStart
    · exact .inl ⟨.seekFailure, if_pos hbroken, if_pos hbroken⟩
    · exact .inr ⟨_, _, if_neg hbroken, if_neg hbroken, hfree, rfl⟩
  length := by
    rintro s t ⟨hfree, rfl⟩
    obtain ⟨hlength, hlimit⟩ := ByteStream.length_cut t offset
    exact ⟨_, _, _, hlength, rfl, hlimit.trans hfree, rfl⟩
  pull := by
    rintro s t count ⟨hfree, rfl⟩
    rcases ByteStream.pull_cut hfree offset count with
      ⟨bytes, s', hs⟩ | ⟨bytes, shortage, t', hs, ht, h'⟩
    · exact .inl ⟨bytes, s', hs, fun _ _ => rfl⟩
    · exact .inr ⟨bytes, shortage, _, t', hs, ht, h', rfl⟩

end XamlBinary
