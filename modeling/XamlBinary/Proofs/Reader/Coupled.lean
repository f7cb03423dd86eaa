import XamlBinary.Cursor.Basic

/-!
Two runs side by side.  A coupling says in which states the two can stand at
the same time, with which faults both can end, and which faults let the first
run go its own way.  Readers are coupled when their runs from coupled states
end alike: both with the same value, or both with coupled faults, and with the
same warnings, unless the first one escapes.

Notes are not compared, since they tell where in a stream things were found.
-/

namespace XamlBinary

/-- How two runs that are compared may differ. -/
structure Coupling (σ τ : Type) where
  /-- The states in which the two runs can stand at the same time. -/
  states : σ → τ → Prop
  /-- The faults with which both can end. -/
  faults : Fault → Fault → Prop
  /-- The faults of the first run after which nothing is said of the second. -/
  escapes : Fault → Prop

variable {σ τ α β : Type}

/-- Two runs that end alike, unless the first one escapes. -/
inductive Outcome.Coupled (K : Coupling σ τ) : Outcome σ α → Outcome τ α → Prop where
  | ok {a : α} {s : σ} {t : τ} {l m : Log} :
      K.states s t → l.warnings = m.warnings → Coupled K (.ok a s l) (.ok a t m)
  | fail {e e' : Fault} {s : σ} {t : τ} {l m : Log} :
      K.faults e e' → K.states s t → l.warnings = m.warnings →
        Coupled K (.fail e s l) (.fail e' t m)
  | escape {e : Fault} {s : σ} {l : Log} {o : Outcome τ α} :
      K.escapes e → Coupled K (.fail e s l) o

/-- What was logged before is the same on both sides, too. -/
theorem Outcome.Coupled.after {K : Coupling σ τ} {o : Outcome σ α} {p : Outcome τ α} {l m : Log}
    (h : o.Coupled K p) (hlog : l.warnings = m.warnings) : (o.after l).Coupled K (p.after m) := by
  cases h with
  | ok hstates hrest =>
      refine .ok hstates ?_
      rw [Log.warnings_append, Log.warnings_append, hlog, hrest]
  | fail hfaults hstates hrest =>
      refine .fail hfaults hstates ?_
      rw [Log.warnings_append, Log.warnings_append, hlog, hrest]
  | escape hescape => exact .escape hescape

namespace Reader

/-- From coupled states the two readers end alike, unless the first one escapes. -/
def Coupled (K : Coupling σ τ) (reader : Reader σ α) (other : Reader τ α) : Prop :=
  ∀ s t, K.states s t → (reader.run s).Coupled K (other.run t)

namespace Coupled

variable {K : Coupling σ τ} {reader : Reader σ α} {other : Reader τ α}

theorem pure (a : α) : Coupled K (Pure.pure a : Reader σ α) (Pure.pure a) :=
  fun _ _ hstates => .ok hstates rfl

theorem fail {e e' : Fault} (h : K.faults e e') :
    Coupled K (Reader.fail e : Reader σ α) (Reader.fail e') :=
  fun _ _ hstates => .fail h hstates rfl

theorem bind {next : α → Reader σ β} {next' : α → Reader τ β} (h : Coupled K reader other)
    (hnext : ∀ a, Coupled K (next a) (next' a)) : Coupled K (reader >>= next) (other >>= next') := by
  intro s t hstates
  have hfirst := h s t hstates
  rw [run_bind, run_bind]
  generalize reader.run s = o at hfirst ⊢
  generalize other.run t = p at hfirst ⊢
  cases hfirst with
  | ok hstates' hlog => exact (hnext _ _ _ hstates').after hlog
  | fail hfaults hstates' hlog => exact .fail hfaults hstates' hlog
  | escape hescape => exact .escape hescape

theorem map (f : α → β) (h : Coupled K reader other) : Coupled K (f <$> reader) (f <$> other) := by
  rw [← bind_pure_comp, ← bind_pure_comp]
  exact h.bind fun a => .pure (f a)

theorem note (n n' : Note) : Coupled K (Reader.note n : Reader σ Unit) (Reader.note n') :=
  fun _ _ hstates => .ok hstates rfl

theorem ite {p : Prop} [Decidable p] {reader₂ : Reader σ α} {other₂ : Reader τ α}
    (hthen : p → Coupled K reader other) (helse : ¬ p → Coupled K reader₂ other₂) :
    Coupled K (if p then reader else reader₂) (if p then other else other₂) := by
  split
  · exact hthen ‹p›
  · exact helse ‹¬ p›

theorem listOf (h : Coupled K reader other) (count : Nat) :
    Coupled K (Reader.listOf reader count) (Reader.listOf other count) := by
  induction count with
  | zero => exact .pure []
  | succ count ih => exact h.bind fun head => ih.bind fun tail => .pure (head :: tail)

/-- A slice is decoded without looking at the state. -/
theorem within (hfaults : ∀ e, K.faults e e) (base : Nat) (slice : List UInt8)
    (decoder : Decoder α) :
    Coupled K (Reader.within base slice decoder : Reader σ α)
      (Reader.within base slice decoder) := by
  intro s t hstates
  simp only [run, Reader.within]
  cases decoder (Cursor.start slice) with
  | ok a c log => exact .ok hstates rfl
  | fail fault c log => exact .fail (hfaults _) hstates rfl

variable [ByteSource σ] [ByteSource τ]

/-- Sources that stand at the same offset. -/
theorem position (h : ∀ s t, K.states s t → ByteSource.offset s = ByteSource.offset t) :
    Coupled K (Reader.position : Reader σ Nat) Reader.position := by
  intro s t hstates
  rw [run_position, run_position, h s t hstates]
  exact .ok hstates rfl

theorem counted {count : Reader σ Int32} {count' : Reader τ Int32} (what : String)
    (hposition : Coupled K (Reader.position : Reader σ Nat) Reader.position)
    (hfaults : ∀ e, K.faults e e) (hcount : Coupled K count count') (h : Coupled K reader other) :
    Coupled K (Reader.counted what count reader) (Reader.counted what count' other) :=
  hposition.bind fun _ => hcount.bind fun n =>
    .ite (fun _ => .fail (hfaults _)) fun _ => h.listOf n.toNatClampNeg

end Coupled

end Reader

end XamlBinary
