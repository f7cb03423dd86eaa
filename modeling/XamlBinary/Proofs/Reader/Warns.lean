import XamlBinary.Cursor.Basic

/-!
What a reader warns of, however its run ends.  A run logs the warnings of its
steps one after the other, so a property of all warnings is passed on from
the parts of a reader to the whole.
-/

namespace XamlBinary

namespace Reader

variable {σ α β : Type}

/-- Every warning that the reader logs satisfies `P`. -/
def Warns (P : Warning → Prop) (reader : Reader σ α) : Prop :=
  ∀ s, ∀ w ∈ (reader.run s).log.warnings, P w

namespace Warns

variable {P : Warning → Prop} {reader other : Reader σ α} {next : α → Reader σ β}

/-- A reader that logs nothing warns of nothing. -/
theorem quiet (h : ∀ s, (reader.run s).log = []) : Warns P reader := by
  intro s w hw
  rw [h s] at hw
  exact absurd hw List.not_mem_nil

theorem pure (a : α) : Warns P (Pure.pure a : Reader σ α) :=
  quiet fun _ => rfl

theorem fail (fault : Fault) : Warns P (Reader.fail fault : Reader σ α) :=
  quiet fun _ => rfl

theorem get : Warns P (Reader.get : Reader σ σ) :=
  quiet fun _ => rfl

theorem note (n : Note) : Warns P (Reader.note n : Reader σ Unit) :=
  fun _ _ hw => absurd hw List.not_mem_nil

theorem warn {warning : Warning} (h : P warning) :
    Warns P (Reader.warn warning : Reader σ Unit) := by
  intro s w hw
  obtain rfl := List.mem_singleton.mp hw
  exact h

theorem bind (h : Warns P reader) (hnext : ∀ a, Warns P (next a)) : Warns P (reader >>= next) := by
  intro s w hw
  have hfirst := h s
  rw [run_bind] at hw
  cases hrun : reader.run s with
  | fail fault s' log =>
      rw [hrun] at hw hfirst
      exact hfirst w hw
  | ok a s' log =>
      rw [hrun] at hw hfirst
      dsimp only at hw
      rw [Outcome.log_after, Log.warnings_append] at hw
      rcases List.mem_append.mp hw with hw | hw
      · exact hfirst w hw
      · exact hnext a s' w hw

theorem map (f : α → β) (h : Warns P reader) : Warns P (f <$> reader) := by
  rw [← bind_pure_comp]
  exact h.bind fun a => .pure (f a)

theorem ite {p : Prop} [Decidable p] (hthen : Warns P reader) (helse : Warns P other) :
    Warns P (if p then reader else other) := by
  split
  · exact hthen
  · exact helse

theorem listOf (h : Warns P reader) (count : Nat) : Warns P (Reader.listOf reader count) := by
  induction count with
  | zero => exact .pure []
  | succ count ih => exact h.bind fun head => ih.bind fun tail => .pure (head :: tail)

/-- A decoder of a slice logs what it logs. -/
theorem within {decoder : Decoder α} (h : Warns P decoder) (base : Nat) (slice : List UInt8) :
    Warns P (Reader.within base slice decoder : Reader σ α) := by
  intro s w hw
  have hslice := h (Cursor.start slice)
  simp only [run, Reader.within] at hw hslice
  cases hrun : decoder (Cursor.start slice) with
  | ok a c log =>
      rw [hrun] at hw hslice
      exact hslice w hw
  | fail fault c log =>
      rw [hrun] at hw hslice
      exact hslice w hw

variable [ByteSource σ]

theorem position : Warns P (Reader.position : Reader σ Nat) :=
  quiet fun _ => rfl

theorem exactly (what : String) (count : Nat) :
    Warns P (Reader.exactly what count : Reader σ _) := by
  refine quiet fun s => ?_
  rw [run, Reader.exactly]
  split <;> rfl

theorem uint16 (what : String) : Warns P (Reader.uint16 what : Reader σ _) :=
  (exactly what 2).bind fun _ => .pure _

theorem int16 (what : String) : Warns P (Reader.int16 what : Reader σ _) :=
  (uint16 what).bind fun _ => .pure _

theorem uint32 (what : String) : Warns P (Reader.uint32 what : Reader σ _) :=
  (exactly what 4).bind fun _ => .pure _

theorem int32 (what : String) : Warns P (Reader.int32 what : Reader σ _) :=
  (uint32 what).bind fun _ => .pure _

theorem single (what : String) : Warns P (Reader.single what : Reader σ _) :=
  (uint32 what).bind fun _ => .pure _

theorem counted {count : Reader σ Int32} (what : String) (hcount : Warns P count)
    (h : Warns P reader) : Warns P (Reader.counted what count reader) :=
  position.bind fun _ => hcount.bind fun n => .ite (.fail _) (h.listOf n.toNatClampNeg)

theorem table (what : String) (h : Warns P reader) : Warns P (Reader.table what reader) :=
  counted what (int32 what) h

end Warns

end Reader

end XamlBinary
