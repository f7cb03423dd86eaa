import XamlBinary.Proofs.Cursor.Located

/-!
Checked arithmetic on offsets.  Readers compute offsets with numbers that have
no end, while an offset is a word of 64 bits.  A checked reader is stopped by
a sum that no word can hold and by a difference that would be negative, and
then it does not end at all, not even with a fault.  `Follows` says that a
checked reader is not stopped and ends as a reader does, and how that is.
-/

namespace XamlBinary

open Reader

/-- A reader that can be stopped by its arithmetic. -/
def Checked (σ α : Type) : Type := σ → Option (Outcome σ α)

namespace Checked

variable {σ α β : Type}

def run (program : Checked σ α) (s : σ) : Option (Outcome σ α) := program s

/-- A step that computes no offset. -/
def step (reader : Reader σ α) : Checked σ α := fun s => some (reader.run s)

protected def bind (program : Checked σ α) (next : α → Checked σ β) : Checked σ β := fun s =>
  match program.run s with
  | some (.ok a s' log) => ((next a).run s').map (Outcome.after log)
  | some (.fail fault s' log) => some (.fail fault s' log)
  | none => none

instance : Monad (Checked σ) where
  pure a := step (pure a)
  bind := Checked.bind

theorem run_bind (program : Checked σ α) (next : α → Checked σ β) (s : σ) :
    (program >>= next).run s =
      match program.run s with
      | some (.ok a s' log) => ((next a).run s').map (Outcome.after log)
      | some (.fail fault s' log) => some (.fail fault s' log)
      | none => none := rfl

/-- Words are smaller. -/
def limit : Nat := 2 ^ 64

/-- Goes on if the offset is a word. -/
def fits (offset : Nat) : Checked σ Unit := fun s =>
  if offset < limit then some (.ok () s []) else none

def sum (a b : Nat) : Checked σ Nat := fun s =>
  if a + b < limit then some (.ok (a + b) s []) else none

def difference (a b : Nat) : Checked σ Nat := fun s =>
  if b ≤ a then some (.ok (a - b) s []) else none

/-- Runs a decoder over a slice that was read from offset `base`.  Where its fault lies in the
whole is a sum. -/
def within (base : Nat) (slice : List UInt8) (decoder : Checked Cursor α) : Checked σ α := fun s =>
  match decoder.run (.start slice) with
  | some (.ok a _ log) => some (.ok a s log)
  | some (.fail fault _ log) =>
      if ∀ offset ∈ fault.offset?, base + offset < limit then some (.fail (fault.rebase base) s log)
      else none
  | none => none

/-- From states of `Pre` the program is not stopped; it ends as the reader does, with a value and
a state of `Post` or with a fault of `Fail`. -/
def Follows (Pre : σ → Prop) (program : Checked σ α) (reader : Reader σ α) (Post : α → σ → Prop)
    (Fail : Fault → Prop) : Prop :=
  ∀ s, Pre s → program.run s = some (reader.run s) ∧
    (reader.run s).Meets Post fun fault _ => Fail fault

namespace Follows

variable {Pre Pre' : σ → Prop} {Mid : α → σ → Prop} {Post Post' : β → σ → Prop}
  {Fail Fail' : Fault → Prop} {program other : Checked σ β} {reader reader' : Reader σ β}

theorem step (h : Triple Pre reader Post fun fault _ => Fail fault) :
    Follows Pre (Checked.step reader) reader Post Fail :=
  fun s hs => ⟨rfl, h s hs⟩

theorem keeps {Inv : σ → Prop} (h : Keeps Inv Fail reader) :
    Follows Inv (Checked.step reader) reader (fun _ => Inv) Fail :=
  .step (Triple.mono h (fun _ hs => hs) (fun _ _ hs => hs) fun _ _ hfail => hfail.1)

theorem fail {fault : Fault} (h : Fail fault) :
    Follows Pre (Checked.step (Reader.fail fault)) (Reader.fail fault) Post Fail :=
  .step fun _ _ => h

theorem pure {b : β} (h : ∀ s, Pre s → Post b s) :
    Follows Pre (Pure.pure b) (Pure.pure b) Post Fail :=
  .step h

theorem bind {first : Checked σ α} {first' : Reader σ α} {next : α → Checked σ β}
    {next' : α → Reader σ β} (h : Follows Pre first first' Mid Fail)
    (hnext : ∀ a, Follows (Mid a) (next a) (next' a) Post Fail) :
    Follows Pre (first >>= next) (first' >>= next') Post Fail := by
  intro s hs
  obtain ⟨hrun, hmeets⟩ := h s hs
  rw [Checked.run_bind, hrun, Reader.run_bind]
  generalize first'.run s = o at hmeets ⊢
  cases o with
  | ok a s' log =>
      obtain ⟨hrun', hmeets'⟩ := hnext a s' hmeets
      exact ⟨by simp only [hrun', Option.map_some], Outcome.meets_after.mpr hmeets'⟩
  | fail fault s' log => exact ⟨rfl, hmeets⟩

theorem mono (h : Follows Pre program reader Post Fail)
    (hpre : ∀ s, Pre' s → Pre s) (hpost : ∀ a s, Post a s → Post' a s)
    (hfail : ∀ fault, Fail fault → Fail' fault) : Follows Pre' program reader Post' Fail' := by
  intro s hs
  obtain ⟨hrun, hmeets⟩ := h s (hpre s hs)
  refine ⟨hrun, ?_⟩
  generalize reader.run s = o at hmeets ⊢
  cases o with
  | ok a s' log => exact hpost a s' hmeets
  | fail fault s' log => exact hfail fault hmeets

/-- A program may be used from fewer states than it has been looked at from. -/
theorem restrict (h : Follows Pre program reader Post Fail) (hpre : ∀ s, Pre' s → Pre s) :
    Follows Pre' program reader Post Fail :=
  h.mono hpre (fun _ _ hs => hs) fun _ hfault => hfault

/-- What the faults are can be forgotten. -/
theorem forget (h : Follows Pre program reader Post Fail) :
    Follows Pre program reader Post fun _ => True :=
  h.mono (fun _ hs => hs) (fun _ _ hs => hs) fun _ _ => trivial

/-- More may be known of a run that ends well. -/
theorem refine (h : Follows Pre program reader Post Fail)
    (hok : ∀ s b s' log, Pre s → reader.run s = .ok b s' log → Post' b s') :
    Follows Pre program reader Post' Fail := by
  intro s hs
  obtain ⟨hrun, hmeets⟩ := h s hs
  refine ⟨hrun, ?_⟩
  cases hend : reader.run s with
  | ok b s' log => exact hok s b s' log hs hend
  | fail fault s' log =>
      rw [hend] at hmeets
      exact hmeets

/-- What does not depend on the state is assumed once and for all. -/
theorem assume {p : Prop} (h : p → Follows Pre program reader Post Fail) :
    Follows (fun s => p ∧ Pre s) program reader Post Fail :=
  fun s hs => h hs.1 s hs.2

/-- Looking at the state: the rest is run from the state that was seen. -/
theorem get {next : σ → Checked σ β} {next' : σ → Reader σ β}
    (h : ∀ s, Pre s → Follows Pre (next s) (next' s) Post Fail) :
    Follows Pre (Checked.step Reader.get >>= next) (Reader.get >>= next') Post Fail := by
  have hseen : Follows Pre (Checked.step Reader.get) Reader.get (fun s t => t = s ∧ Pre t) Fail :=
    .step fun s hs => ⟨rfl, hs⟩
  refine hseen.bind fun s t ht => ?_
  obtain ⟨rfl, hs⟩ := ht
  exact h t hs t hs

theorem position [ByteSource σ] {next : Nat → Checked σ β} {next' : Nat → Reader σ β}
    (h : ∀ s, Pre s →
      Follows Pre (next (ByteSource.offset s)) (next' (ByteSource.offset s)) Post Fail) :
    Follows Pre (Checked.step Reader.position >>= next) (Reader.position >>= next') Post Fail := by
  have hasked : Follows Pre (Checked.step Reader.position) Reader.position
      (fun start t => start = ByteSource.offset t ∧ Pre t) Fail :=
    .step fun s hs => ⟨rfl, hs⟩
  refine hasked.bind fun start t ht => ?_
  obtain ⟨rfl, hs⟩ := ht
  exact h t hs t hs

theorem ite {p : Prop} [Decidable p] (hthen : p → Follows Pre program reader Post Fail)
    (helse : ¬ p → Follows Pre other reader' Post Fail) :
    Follows Pre (if p then program else other) (if p then reader else reader') Post Fail := by
  split
  · exact hthen ‹p›
  · exact helse ‹¬ p›

/-! ### Arithmetic -/

/-- A computation that is not stopped gives its number and nothing else. -/
theorem gives {first : Checked σ α} {next : α → Checked σ β} {a : α}
    (hrun : ∀ s, first.run s = some (.ok a s [])) (h : Follows Pre (next a) reader Post Fail) :
    Follows Pre (first >>= next) reader Post Fail := by
  intro s hs
  obtain ⟨hnext, hmeets⟩ := h s hs
  refine ⟨?_, hmeets⟩
  rw [Checked.run_bind, hrun]
  simp only [hnext, Option.map_some, Outcome.after_nil]

variable {a b : Nat}

theorem fits {next : Unit → Checked σ β} (hfits : a < limit)
    (h : Follows Pre (next ()) reader Post Fail) :
    Follows Pre (Checked.fits a >>= next) reader Post Fail :=
  gives (fun _ => if_pos hfits) h

theorem sum {next : Nat → Checked σ β} (hfits : a + b < limit)
    (h : Follows Pre (next (a + b)) reader Post Fail) :
    Follows Pre (Checked.sum a b >>= next) reader Post Fail :=
  gives (fun _ => if_pos hfits) h

theorem difference {next : Nat → Checked σ β} (hle : b ≤ a)
    (h : Follows Pre (next (a - b)) reader Post Fail) :
    Follows Pre (Checked.difference a b >>= next) reader Post Fail :=
  gives (fun _ => if_pos hle) h

/-- A decoder is told where its slice begins.  If the slice ends at an offset, all its faults lie
at offsets. -/
theorem within {decoder : Checked Cursor α} {plain : Decoder α} {base : Nat} {slice : List UInt8}
    {State : σ → Prop} {End : α → Cursor → Prop} {emptyTable : Prop}
    (h : Follows (· = Cursor.start slice) decoder plain End (Fault.OfDecoder slice))
    (hfits : base + slice.length < limit) :
    Follows State (Checked.within base slice decoder) (Reader.within base slice plain)
      (fun _ => State) (Fault.CanArise emptyTable) := by
  intro s hs
  obtain ⟨hrun, hmeets⟩ := h _ rfl
  simp only [run, Reader.run] at hrun hmeets
  simp only [run, Reader.run, Checked.within, Reader.within, hrun]
  cases hplain : plain (Cursor.start slice) with
  | ok a c log => exact ⟨rfl, hs⟩
  | fail fault c log =>
      rw [hplain] at hmeets
      obtain ⟨hslice, hdecoder⟩ := hmeets
      have hoffset : ∀ offset ∈ fault.offset?, base + offset < limit := fun offset hmem => by
        have hle := hslice.offset_le offset hmem
        omega
      refine ⟨?_, (hdecoder.rebase base).mono False.elim⟩
      dsimp only
      rw [if_pos hoffset]

/-- A located decoder computes no offset. -/
theorem located {decoder : Decoder α} {slice : List UInt8} (h : Decoder.Located slice decoder) :
    Follows (· = Cursor.start slice) (Checked.step decoder) decoder (fun _ => Cursor.In slice)
      (Fault.OfDecoder slice) := by
  refine (keeps h).restrict ?_
  rintro _ rfl
  exact Cursor.in_start slice

end Follows

end Checked

end XamlBinary
