import XamlBinary.Cursor.Basic
import XamlBinary.Proofs.Reader.Reads

/-!
What every run of a reader leaves behind, whether it ends well or with a
fault.  `Triple Pre reader Post Fail` says that from a state of `Pre` the
reader ends with a value and a state of `Post`, or with a fault and a state of
`Fail`.  Most readers keep to one invariant: then the states need not be
mentioned again, and what is left of the judgment is how faults come about.
-/

namespace XamlBinary

variable {σ α β : Type}

/-- An end with a value and a state of one kind, or with a fault and a state of the other. -/
def Outcome.Meets (Post : α → σ → Prop) (Fail : Fault → σ → Prop) : Outcome σ α → Prop
  | ok a s _ => Post a s
  | fail fault s _ => Fail fault s

@[simp] theorem Outcome.meets_after {Post : α → σ → Prop} {Fail : Fault → σ → Prop}
    {earlier : Log} {o : Outcome σ α} :
    (o.after earlier).Meets Post Fail ↔ o.Meets Post Fail := by
  cases o <;> exact Iff.rfl

theorem Outcome.Meets.fail {Post : α → σ → Prop} {Fail : Fault → Prop} {o : Outcome σ α}
    (h : o.Meets Post fun fault _ => Fail fault) {fault : Fault}
    (hfault : o.result = .error fault) : Fail fault := by
  cases o with
  | ok a s log => cases hfault
  | fail found s log =>
      cases hfault
      exact h

namespace Reader

/-- From a state of `Pre` the reader can only end as `Post` and `Fail` tell. -/
def Triple (Pre : σ → Prop) (reader : Reader σ α) (Post : α → σ → Prop)
    (Fail : Fault → σ → Prop) : Prop :=
  ∀ s, Pre s → (reader.run s).Meets Post Fail

/-- A reader that keeps an invariant and ends with no fault but those of `Fail`. -/
def Keeps (Inv : σ → Prop) (Fail : Fault → Prop) (reader : Reader σ α) : Prop :=
  Triple Inv reader (fun _ => Inv) fun fault s => Fail fault ∧ Inv s

variable {Pre Pre' Inv : σ → Prop} {Mid : α → σ → Prop} {Post Post' : β → σ → Prop}
  {Fail Fail' : Fault → σ → Prop} {F F' : Fault → Prop} {reader other : Reader σ α}
  {next : α → Reader σ β}

namespace Triple

theorem bind (h : Triple Pre reader Mid Fail) (hnext : ∀ a, Triple (Mid a) (next a) Post Fail) :
    Triple Pre (reader >>= next) Post Fail := by
  intro s hs
  have hfirst := h s hs
  rw [run_bind]
  generalize reader.run s = o at hfirst ⊢
  cases o with
  | ok a s' log => exact Outcome.meets_after.mpr (hnext a s' hfirst)
  | fail fault s' log => exact hfirst

theorem mono {reader : Reader σ β} (h : Triple Pre reader Post Fail) (hpre : ∀ s, Pre' s → Pre s)
    (hpost : ∀ a s, Post a s → Post' a s) (hfail : ∀ fault s, Fail fault s → Fail' fault s) :
    Triple Pre' reader Post' Fail' := by
  intro s hs
  have hrun := h s (hpre s hs)
  generalize reader.run s = o at hrun ⊢
  cases o with
  | ok a s' log => exact hpost a s' hrun
  | fail fault s' log => exact hfail fault s' hrun

/-- The fault of a run, without the state in which it ended. -/
theorem exists_of_result {reader : Reader σ β} (h : Triple Pre reader Post Fail) {s : σ}
    (hs : Pre s) {fault : Fault} (hfault : (reader.run s).result = .error fault) :
    ∃ s', Fail fault s' := by
  have hend := h s hs
  cases hrun : reader.run s with
  | ok a s' log =>
      rw [hrun] at hfault
      cases hfault
  | fail fault' s' log =>
      rw [hrun] at hfault hend
      cases hfault
      exact ⟨s', hend⟩

theorem of_run_eq_ok {reader : Reader σ β} (h : Triple Pre reader Post Fail) {s s' : σ}
    (hs : Pre s) {a : β} {log : Log} (hrun : reader.run s = .ok a s' log) : Post a s' := by
  have hend := h s hs
  rw [hrun] at hend
  exact hend

/-- What does not depend on the state is assumed once and for all. -/
theorem assume {p : Prop} {reader : Reader σ β} (h : p → Triple Pre reader Post Fail) :
    Triple (fun s => p ∧ Pre s) reader Post Fail :=
  fun s hs => h hs.1 s hs.2

theorem report (message : Message) :
    Triple Pre (Reader.report message) (fun _ => Pre) Fail :=
  fun _ hs => hs

end Triple

namespace Keeps

/-- More may be known of where the reader begins, and then of where it ends well. -/
theorem refine {Post : α → σ → Prop} (h : Keeps Inv F reader) (hpre : ∀ s, Pre s → Inv s)
    (hok : ∀ s a s' log, Pre s → reader.run s = .ok a s' log → Inv s' → Post a s') :
    Triple Pre reader Post fun fault s => F fault ∧ Inv s := by
  intro s hs
  have hend := h s (hpre s hs)
  cases hrun : reader.run s with
  | ok a s' log =>
      rw [hrun] at hend
      exact hok s a s' log hs hrun hend
  | fail fault s' log =>
      rw [hrun] at hend
      exact hend

/-- The invariant holds at the end, whatever the end is. -/
theorem state (h : Keeps Inv F reader) {s : σ} (hs : Inv s) : Inv (reader.run s).state := by
  have hend := h s hs
  cases hrun : reader.run s with
  | ok a s' log =>
      rw [hrun] at hend
      exact hend
  | fail fault s' log =>
      rw [hrun] at hend
      exact hend.2

theorem pure (a : α) : Keeps Inv F (Pure.pure a : Reader σ α) :=
  fun _ hs => hs

theorem fail {fault : Fault} (h : F fault) : Keeps Inv F (Reader.fail fault : Reader σ α) :=
  fun _ hs => ⟨h, hs⟩

theorem bind (h : Keeps Inv F reader) (hnext : ∀ a, Keeps Inv F (next a)) :
    Keeps Inv F (reader >>= next) :=
  Triple.bind h hnext

theorem map (f : α → β) (h : Keeps Inv F reader) : Keeps Inv F (f <$> reader) := by
  rw [← bind_pure_comp]
  exact h.bind fun a => .pure (f a)

theorem report (message : Message) : Keeps Inv F (Reader.report message : Reader σ Unit) :=
  fun _ hs => hs

theorem ite {p : Prop} [Decidable p] (hthen : p → Keeps Inv F reader)
    (helse : ¬ p → Keeps Inv F other) : Keeps Inv F (if p then reader else other) := by
  split
  · exact hthen ‹p›
  · exact helse ‹¬ p›

theorem mono (h : Keeps Inv F reader) (hfaults : ∀ fault, F fault → F' fault) :
    Keeps Inv F' reader :=
  Triple.mono h (fun _ hs => hs) (fun _ _ hs => hs) fun fault _ hfail =>
    ⟨hfaults fault hfail.1, hfail.2⟩

theorem listOf (h : Keeps Inv F reader) (count : Nat) : Keeps Inv F (Reader.listOf reader count) := by
  induction count with
  | zero => exact .pure []
  | succ count ih => exact h.bind fun head => ih.bind fun tail => .pure (head :: tail)

/-- Looking at the state: the rest is run from the state that was seen. -/
theorem get {next : σ → Reader σ β} (h : ∀ s, Inv s → Keeps Inv F (next s)) :
    Keeps Inv F (Reader.get >>= next) := by
  intro s hs
  rw [run_get_bind]
  exact h s hs s hs

variable [ByteSource σ]

theorem position {next : Nat → Reader σ β}
    (h : ∀ s, Inv s → Keeps Inv F (next (ByteSource.offset s))) :
    Keeps Inv F (Reader.position >>= next) := by
  intro s hs
  rw [run_position_bind]
  exact h s hs s hs

/-- Something is read, and then the rest, knowing where it was read. -/
theorem lead {next : Nat → α → Reader σ β} (h : Keeps Inv F reader)
    (hnext : ∀ s a s' log, Inv s → reader.run s = .ok a s' log →
      Keeps Inv F (next (ByteSource.offset s) a)) :
    Keeps Inv F (Reader.position >>= fun start => reader >>= next start) := by
  intro s hs
  rw [run_position_bind, run_bind]
  have hfirst := h s hs
  cases hrun : reader.run s with
  | ok a s' log =>
      rw [hrun] at hfirst
      exact Outcome.meets_after.mpr (hnext s a s' log hs hrun s' hfirst)
  | fail fault s' log =>
      rw [hrun] at hfirst
      exact hfirst

theorem counted {count : Reader σ Int32} (what : String) (hcount : Keeps Inv F count)
    (hnegative : ∀ s n, Inv s → F (.malformed (ByteSource.offset s) (.negativeCount what n)))
    (h : Keeps Inv F reader) : Keeps Inv F (Reader.counted what count reader) :=
  .position fun s hs => hcount.bind fun n =>
    .ite (fun _ => .fail (hnegative s n hs)) fun _ => h.listOf n.toNatClampNeg

section Words

variable (hexactly : ∀ what count, Keeps Inv F (Reader.exactly what count : Reader σ _))

include hexactly

theorem uint16 (what : String) : Keeps Inv F (Reader.uint16 what : Reader σ _) :=
  (hexactly what 2).bind fun _ => .pure _

theorem int16 (what : String) : Keeps Inv F (Reader.int16 what : Reader σ _) :=
  (uint16 hexactly what).bind fun _ => .pure _

theorem uint32 (what : String) : Keeps Inv F (Reader.uint32 what : Reader σ _) :=
  (hexactly what 4).bind fun _ => .pure _

theorem int32 (what : String) : Keeps Inv F (Reader.int32 what : Reader σ _) :=
  (uint32 hexactly what).bind fun _ => .pure _

theorem single (what : String) : Keeps Inv F (Reader.single what : Reader σ _) :=
  (uint32 hexactly what).bind fun _ => .pure _

end Words

end Keeps

end Reader

end XamlBinary
