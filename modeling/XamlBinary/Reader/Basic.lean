import XamlBinary.Log

/-!
Readers: programs that take values off a state of type `σ`, log messages on
the way, and either return a value or stop at the first fault.  The state and
the log are kept in both cases.  The log of a run holds only what that run
reported, so the log of a sequence is the concatenation of the logs of its
steps.
-/

namespace XamlBinary

/-- The end of a run. -/
inductive Outcome (σ α : Type) where
  | ok (value : α) (state : σ) (log : Log)
  | fail (fault : Fault) (state : σ) (log : Log)
deriving DecidableEq, Repr

namespace Outcome

variable {σ α : Type}

def state : Outcome σ α → σ
  | ok _ s _ => s
  | fail _ s _ => s

def log : Outcome σ α → Log
  | ok _ _ l => l
  | fail _ _ l => l

/-- The value or the fault, without state and log. -/
def result : Outcome σ α → Except Fault α
  | ok a _ _ => .ok a
  | fail e _ _ => .error e

/-- The same end, after a step that logged `earlier`. -/
def after (earlier : Log) : Outcome σ α → Outcome σ α
  | ok a s l => ok a s (earlier ++ l)
  | fail e s l => fail e s (earlier ++ l)

@[simp] theorem state_after (earlier : Log) (o : Outcome σ α) :
    (o.after earlier).state = o.state := by cases o <;> rfl

@[simp] theorem log_after (earlier : Log) (o : Outcome σ α) :
    (o.after earlier).log = earlier ++ o.log := by cases o <;> rfl

@[simp] theorem result_after (earlier : Log) (o : Outcome σ α) :
    (o.after earlier).result = o.result := by cases o <;> rfl

@[simp] theorem after_nil (o : Outcome σ α) : o.after [] = o := by cases o <;> rfl

@[simp] theorem after_after (first second : Log) (o : Outcome σ α) :
    (o.after second).after first = o.after (first ++ second) := by
  cases o <;> simp [after]

end Outcome

/-- A program that reads a value of type `α` from a state of type `σ`. -/
def Reader (σ α : Type) : Type := σ → Outcome σ α

namespace Reader

variable {σ α β : Type}

def run (reader : Reader σ α) (s : σ) : Outcome σ α := reader s

protected def pure (a : α) : Reader σ α := fun s => .ok a s []

protected def bind (reader : Reader σ α) (next : α → Reader σ β) : Reader σ β := fun s =>
  match reader s with
  | .ok a s' log => (next a s').after log
  | .fail fault s' log => .fail fault s' log

instance : Monad (Reader σ) where
  pure := Reader.pure
  bind := Reader.bind

@[simp] theorem run_pure (a : α) (s : σ) : (pure a : Reader σ α).run s = .ok a s [] := rfl

theorem run_bind (reader : Reader σ α) (next : α → Reader σ β) (s : σ) :
    (reader >>= next).run s =
      match reader.run s with
      | .ok a s' log => ((next a).run s').after log
      | .fail fault s' log => .fail fault s' log := rfl

theorem run_bind_ok {reader : Reader σ α} {s s' : σ} {a : α} {log : Log}
    (h : reader.run s = .ok a s' log)
    (next : α → Reader σ β) :
    (reader >>= next).run s = ((next a).run s').after log := by
  rw [run_bind, h]

theorem run_bind_fail {reader : Reader σ α} {s s' : σ} {fault : Fault} {log : Log}
    (h : reader.run s = .fail fault s' log)
    (next : α → Reader σ β) :
    (reader >>= next).run s = .fail fault s' log := by
  rw [run_bind, h]

@[ext] theorem ext {first second : Reader σ α} (h : ∀ s, first.run s = second.run s) :
    first = second := funext h

protected theorem id_map (reader : Reader σ α) : id <$> reader = reader := by
  ext s
  show (match reader s with
    | .ok a s' log => Outcome.after log (.ok a s' [])
    | .fail fault s' log => .fail fault s' log) = reader s
  cases reader s <;> simp [Outcome.after]

protected theorem pure_bind (a : α) (next : α → Reader σ β) : pure a >>= next = next a := by
  ext s
  show ((next a) s).after [] = (next a) s
  simp

protected theorem bind_assoc {γ : Type} (reader : Reader σ α) (next : α → Reader σ β)
    (last : β → Reader σ γ) :
    reader >>= next >>= last = reader >>= fun a => next a >>= last := by
  ext s
  simp only [run_bind]
  cases reader.run s with
  | fail fault s' log => rfl
  | ok a s' log =>
      dsimp only
      cases (next a).run s' with
      | fail fault s'' log' => rfl
      | ok b s'' log' =>
          dsimp only [Outcome.after]
          exact (Outcome.after_after log log' _).symm

instance : LawfulMonad (Reader σ) :=
  LawfulMonad.mk' (Reader σ) Reader.id_map Reader.pure_bind Reader.bind_assoc

/-- Stops with a fault. -/
def fail (fault : Fault) : Reader σ α := fun s => .fail fault s []

def malformed (offset : Nat) (reason : DataFault) : Reader σ α := fail (.malformed offset reason)

def invalidFormat (offset : Nat) (reason : FormatFault) : Reader σ α :=
  fail (.invalidFormat offset reason)

def indexOutOfRange (table : Table) (index length : Nat) : Reader σ α :=
  fail (.indexOutOfRange table index length)

def report (message : Message) : Reader σ Unit := fun s => .ok () s [message]

def warn (warning : Warning) : Reader σ Unit := report (.warning warning)

def note (note : Note) : Reader σ Unit := report (.note note)

/-- The current state. -/
def get : Reader σ σ := fun s => .ok s s []

@[simp] theorem run_fail (fault : Fault) (s : σ) :
    (fail fault : Reader σ α).run s = .fail fault s [] := rfl

@[simp] theorem run_malformed (offset : Nat) (reason : DataFault) (s : σ) :
    (malformed offset reason : Reader σ α).run s = .fail (.malformed offset reason) s [] := rfl

@[simp] theorem run_indexOutOfRange (table : Table) (index length : Nat) (s : σ) :
    (indexOutOfRange table index length : Reader σ α).run s =
      .fail (.indexOutOfRange table index length) s [] := rfl

@[simp] theorem run_warn (warning : Warning) (s : σ) :
    (warn warning : Reader σ Unit).run s = .ok () s [.warning warning] := rfl

@[simp] theorem run_note (n : Note) (s : σ) :
    (note n : Reader σ Unit).run s = .ok () s [.note n] := rfl

@[simp] theorem run_get (s : σ) : (get : Reader σ σ).run s = .ok s s [] := rfl

/-- Reads `count` items, one after the other. -/
def listOf (item : Reader σ α) : Nat → Reader σ (List α)
  | 0 => pure []
  | count + 1 => do
      let head ← item
      let tail ← listOf item count
      pure (head :: tail)

@[simp] theorem listOf_zero (item : Reader σ α) : listOf item 0 = pure [] := rfl

theorem listOf_succ (item : Reader σ α) (count : Nat) :
    listOf item (count + 1) = (do
      let head ← item
      let tail ← listOf item count
      pure (head :: tail)) := rfl

end Reader

end XamlBinary
