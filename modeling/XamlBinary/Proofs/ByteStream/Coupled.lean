import XamlBinary.ByteStream.Reading
import XamlBinary.Proofs.Reader.Coupled

/-!
Two streams side by side.  A coupling of streams is sound when the calls that
touch a stream cannot tell the two apart, except that a read of the first one
may fail where the coupling lets it escape.  Whatever is made of these calls
is then coupled, too.
-/

namespace XamlBinary

open Reader

/-- Seeks and reads take coupled streams to coupled streams and report the same. -/
structure Coupling.Sound (K : Coupling ByteStream ByteStream) : Prop where
  refl : ∀ fault, K.faults fault fault
  tell : ∀ {s t}, K.states s t → s.tell = t.tell
  seekTo : ∀ {s t} (position : Nat), K.states s t →
    (∃ cause, s.seekTo position = .error cause ∧ t.seekTo position = .error cause) ∨
      ∃ s' t', s.seekTo position = .ok s' ∧ t.seekTo position = .ok t' ∧ K.states s' t'
  length : ∀ {s t}, K.states s t →
    ∃ result s' t', s.length = (result, s') ∧ t.length = (result, t') ∧ K.states s' t'
  pull : ∀ {s t} (count : Nat), K.states s t →
    (∃ bytes s', s.pull count = (bytes, some (.stopped .failure), s') ∧
        ∀ offset what, K.escapes (.device offset what .readFailure)) ∨
      ∃ bytes shortage s' t', s.pull count = (bytes, shortage, s') ∧
        t.pull count = (bytes, shortage, t') ∧ K.states s' t'

namespace Coupling.Sound

variable {K : Coupling ByteStream ByteStream}

theorem offset (hK : K.Sound) {s t : ByteStream} (h : K.states s t) : s.offset = t.offset := by
  rw [ByteStream.offset, ByteStream.offset, hK.tell h]

theorem position (hK : K.Sound) :
    Coupled K (Reader.position : Reader ByteStream Nat) Reader.position :=
  .position fun _ _ => hK.offset

theorem exactly (hK : K.Sound) (what : String) (count : Nat) :
    Coupled K (Reader.exactly what count : Reader ByteStream _) (Reader.exactly what count) := by
  intro s t h
  have hoffset := hK.offset h
  simp only [run, Reader.exactly, ByteSource.take, ByteStream.offset_eq, hoffset]
  rcases hK.pull count h with ⟨bytes, s', hs, hescape⟩ | ⟨bytes, shortage, s', t', hs, ht, h'⟩
  · rw [hs]
    exact .escape (hescape ..)
  · rw [hs, ht]
    cases shortage with
    | none => exact .ok h' rfl
    | some shortage =>
        cases shortage with
        | endOfBytes => exact .fail (hK.refl _) h' rfl
        | stopped effect => cases effect <;> exact .fail (hK.refl _) h' rfl

theorem uint32 (hK : K.Sound) (what : String) :
    Coupled K (Reader.uint32 what : Reader ByteStream _) (Reader.uint32 what) :=
  (hK.exactly what 4).bind fun _ => .pure _

theorem int32 (hK : K.Sound) (what : String) :
    Coupled K (Reader.int32 what : Reader ByteStream _) (Reader.int32 what) :=
  (hK.uint32 what).bind fun _ => .pure _

theorem table (hK : K.Sound) {α : Type} {item : Reader ByteStream α} (what : String)
    (hitem : Coupled K item item) :
    Coupled K (Reader.table what item) (Reader.table what item) :=
  .counted what hK.position hK.refl (hK.int32 what) hitem

theorem block (hK : K.Sound) (what : String) (count : Nat) :
    Coupled K (ByteStream.block what count) (ByteStream.block what count) := by
  intro s t h
  have hoffset := hK.offset h
  simp only [run, ByteStream.block, hoffset]
  rcases hK.pull count h with ⟨bytes, s', hs, hescape⟩ | ⟨bytes, shortage, s', t', hs, ht, h'⟩
  · rw [hs]
    exact .escape (hescape ..)
  · rw [hs, ht]
    cases shortage with
    | none => exact .ok h' rfl
    | some shortage =>
        cases shortage with
        | endOfBytes => exact .fail (hK.refl _) h' rfl
        | stopped effect => cases effect <;> exact .fail (hK.refl _) h' rfl

theorem goTo (hK : K.Sound) (what : String) (offset : Nat) :
    Coupled K (ByteStream.goTo what offset) (ByteStream.goTo what offset) := by
  intro s t h
  simp only [run, ByteStream.goTo]
  rcases hK.seekTo offset h with ⟨cause, hs, ht⟩ | ⟨s', t', hs, ht, h'⟩
  · rw [hs, ht]
    exact .fail (hK.refl _) h rfl
  · rw [hs, ht]
    exact .ok h' rfl

theorem measure (hK : K.Sound) (offset : Nat) :
    Coupled K (ByteStream.measure offset) (ByteStream.measure offset) := by
  intro s t h
  obtain ⟨result, s', t', hs, ht, h'⟩ := hK.length h
  simp only [run, ByteStream.measure, hs, ht]
  cases result with
  | ok length => exact .ok h' rfl
  | error cause => exact .fail (hK.refl _) h' rfl

/-- Going back afterwards logs the same warning on both sides, where it logs one. -/
theorem restore (hK : K.Sound) {α : Type} {o p : Outcome ByteStream α} (position : Nat)
    (h : o.Coupled K p) :
    (ByteStream.restore position o).Coupled K (ByteStream.restore position p) := by
  cases h with
  | ok hstates hlog =>
      simp only [ByteStream.restore]
      rcases hK.seekTo position hstates with ⟨cause, hs, ht⟩ | ⟨s', t', hs, ht, h'⟩
      · rw [hs, ht]
        exact .ok hstates (by rw [Log.warnings_append, Log.warnings_append, hlog])
      · rw [hs, ht]
        exact .ok h' hlog
  | fail hfaults hstates hlog =>
      simp only [ByteStream.restore]
      rcases hK.seekTo position hstates with ⟨cause, hs, ht⟩ | ⟨s', t', hs, ht, h'⟩
      · rw [hs, ht]
        exact .fail hfaults hstates (by rw [Log.warnings_append, Log.warnings_append, hlog])
      · rw [hs, ht]
        exact .fail hfaults h' hlog
  | escape hescape =>
      rw [ByteStream.restore]
      split
      · exact .escape hescape
      · exact .escape hescape

theorem keepingPosition (hK : K.Sound) {α : Type} {body other : Reader ByteStream α}
    (h : Coupled K body other) :
    Coupled K (ByteStream.keepingPosition body) (ByteStream.keepingPosition other) := by
  intro s t hstates
  simp only [run, ByteStream.keepingPosition, hK.tell hstates]
  cases t.tell with
  | error cause => exact .fail (hK.refl _) hstates rfl
  | ok position => exact hK.restore position (h s t hstates)

end Coupling.Sound

end XamlBinary
