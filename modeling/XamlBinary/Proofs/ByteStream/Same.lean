import XamlBinary.Proofs.ByteStream.Coupled
import XamlBinary.Proofs.Reader.Same

/-!
Reading a stream moves its position and nothing else, so going back makes it
the stream that it was.  A coupling of a stream with itself is sound for every
invariant that does not depend on where the stream stands.
-/

namespace XamlBinary

namespace ByteStream

variable {s s' : ByteStream}

/-- The two streams stand at different places, at most. -/
def Moved (s s' : ByteStream) : Prop := ∃ position, s' = { s with position }

theorem Moved.refl (s : ByteStream) : s.Moved s := ⟨s.position, rfl⟩

theorem Moved.trans {s'' : ByteStream} (h : s.Moved s') (h' : s'.Moved s'') : s.Moved s'' := by
  obtain ⟨position, rfl⟩ := h
  obtain ⟨position', rfl⟩ := h'
  exact ⟨position', rfl⟩

theorem moved_of_seekTo {position : Nat} (h : s.seekTo position = .ok s') : s.Moved s' := by
  rw [seekTo] at h
  split at h
  · cases h
  · cases h
    exact ⟨position, rfl⟩

theorem moved_of_seekToEnd (h : s.seekToEnd = .ok s') : s.Moved s' := by
  rw [seekToEnd] at h
  split at h
  · cases h
  · cases h
    exact ⟨s.reportedLength, rfl⟩

theorem moved_length (s : ByteStream) : s.Moved s.length.2 := by
  rw [length]
  split
  · exact .refl s
  · split
    · exact .refl s
    · rename_i atEnd hend
      have hend := moved_of_seekToEnd hend
      split
      · exact hend
      · split
        · exact hend
        · rename_i hback
          exact hend.trans (moved_of_seekTo hback)

theorem moved_pull (s : ByteStream) (count : Nat) : s.Moved (s.pull count).2.2 := by
  rw [pull]
  split
  · exact ⟨_, rfl⟩
  · exact ⟨_, rfl⟩

/-! ### Going back -/

section Restore

variable {α : Type} {o : Outcome ByteStream α}

theorem seekTo_eq (position : Nat) (h : s.brokenSeek ≠ some .fromStart) :
    s.seekTo position = .ok { s with position } := if_neg h

theorem restore_of_seekTo {position : Nat} {back : ByteStream}
    (h : o.state.seekTo position = .ok back) :
    (restore position o).state = back ∧ (restore position o).log = o.log := by
  cases o with
  | ok a m log =>
      have h : m.seekTo position = .ok back := h
      rw [restore, h]
      exact ⟨rfl, rfl⟩
  | fail fault m log =>
      have h : m.seekTo position = .ok back := h
      rw [restore, h]
      exact ⟨rfl, rfl⟩

/-- A stream that was only moved is the same again when it is back at its place. -/
theorem restore_of_moved (hmoved : s.Moved o.state) (h : s.brokenSeek ≠ some .fromStart) :
    (restore s.position o).state = s ∧ (restore s.position o).log = o.log := by
  refine restore_of_seekTo ?_
  obtain ⟨position, hstate⟩ := hmoved
  rw [hstate]
  exact seekTo_eq s.position h

end Restore

end ByteStream

open ByteStream

/-- Whatever calls are made, the two runs stay in one state of the invariant. -/
theorem Coupling.sound_same {Inv : ByteStream → Prop} {escapes : Fault → Prop}
    (hmoved : ∀ s s', s.Moved s' → Inv s → Inv s') : (Coupling.same Inv escapes).Sound where
  refl _ := rfl
  tell := by
    rintro s _ ⟨rfl, -⟩
    rfl
  seekTo := by
    rintro s _ position ⟨rfl, hinv⟩
    cases h : s.seekTo position with
    | error cause => exact .inl ⟨cause, rfl, rfl⟩
    | ok s' => exact .inr ⟨s', s', rfl, rfl, rfl, hmoved s s' (moved_of_seekTo h) hinv⟩
  length := by
    rintro s _ ⟨rfl, hinv⟩
    exact ⟨_, _, _, rfl, rfl, rfl, hmoved s _ (moved_length s) hinv⟩
  pull := by
    rintro s _ count ⟨rfl, hinv⟩
    exact .inr ⟨_, _, _, _, rfl, rfl, rfl, hmoved s _ (moved_pull s count) hinv⟩

end XamlBinary
