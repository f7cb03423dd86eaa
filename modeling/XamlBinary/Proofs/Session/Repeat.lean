import XamlBinary.Proofs.ByteStream.Agree
import XamlBinary.Proofs.File.Behind
import XamlBinary.Proofs.File.Equality
import XamlBinary.Proofs.File.Position
import XamlBinary.Session

/-!
Parsing twice.  As long as nothing but the position of the stream has changed,
a session answers the second time what it answered the first time.  Only the
comparison of the second file with the first has something new to tell: they
are the same file, so it is the comparison of a file with itself.
-/

namespace XamlBinary

namespace File

/-- A parse of a stream whose seeks work is one from its start. -/
theorem run_read_of_start {s : ByteStream} (settings : Settings) (hseeks : s.brokenSeek = none) :
    ((read settings).run s).result =
        ((readSections settings).run { s with position := 0 }).result ∧
      ((read settings).run s).log = ((readSections settings).run { s with position := 0 }).log := by
  have hne := ByteStream.brokenSeek_ne hseeks
  have hsections : (readSections settings).run s =
      (readSections settings).run { s with position := 0 } := by
    rw [run_readSections settings (hne .fromStart)]
    exact (run_readSections (s := { s with position := 0 }) settings (hne .fromStart)).symm
  rw [← hsections]
  exact ⟨ByteStream.result_keepingPosition (hne .fromCurrent),
    (run_read_of_seeks settings (hne .fromCurrent) (hne .fromStart)).2⟩

end File

/-- A single read moves the stream, and no more. -/
theorem ByteStream.moved_read (s : ByteStream) (count : Nat) : s.Moved (s.read count).2 := by
  rw [read]
  split
  · split <;> exact .refl s
  · exact ⟨_, rfl⟩

namespace Session

/-- What a parse of the session would end with now. -/
def reading (session : Session) : Outcome ByteStream File :=
  (File.read session.settings).run session.stream

/-- The session after the steps. -/
def after (session : Session) : List Step → Session
  | [] => session
  | first :: later => (session.step first).2.after later

@[simp] theorem after_nil (session : Session) : session.after [] = session := rfl

@[simp] theorem after_cons (session : Session) (first : Step) (later : List Step) :
    session.after (first :: later) = (session.step first).2.after later := rfl

@[simp] theorem step_parse (session : Session) : session.step .parse = session.parse := rfl

/-- The answer to a step that stands among others. -/
theorem getElem?_run (session : Session) (before later : List Step) (step : Step) :
    (session.run (before ++ step :: later))[before.length]? =
      some ((session.after before).step step) := by
  induction before generalizing session with
  | nil => rfl
  | cons first before ih => exact ih (session.step first).2

theorem after_append (session : Session) (first later : List Step) :
    session.after (first ++ later) = (session.after first).after later := by
  induction first generalizing session with
  | nil => rfl
  | cons step first ih => exact ih (session.step step).2

/-- Steps that leave the bytes, the limit and the settings alone. -/
def Step.isQuiet : Step → Bool
  | .showSettings | .showText | .parse | .render | .read _ | .seek _ => true
  | .configure _ | .patch _ _ | .append _ | .truncate _ | .limit _ => false

/-! ### A parse -/

section Parse

variable {session : Session} (hseeks : session.stream.brokenSeek = none)
include hseeks

/-- A parse puts the stream back. -/
theorem state_reading : session.reading.state = session.stream :=
  have hne := ByteStream.brokenSeek_ne hseeks
  (File.run_read_of_seeks session.settings (hne .fromCurrent) (hne .fromStart)).1

theorem parse_of_ok {file : File} (h : session.reading.result = .ok file) :
    session.parse = (.file file (session.last.map (file == ·)) session.reading.log,
      { session with last := some file }) := by
  have hstate := state_reading hseeks
  have hrun : (File.read session.settings).run session.stream = session.reading := rfl
  rw [parse, hrun]
  cases hreading : session.reading with
  | ok f s log =>
      rw [hreading] at h hstate
      cases h
      cases hstate
      rfl
  | fail fault s log =>
      rw [hreading] at h
      cases h

theorem parse_of_error {fault : Fault} (h : session.reading.result = .error fault) :
    session.parse = (.fault fault session.reading.log, session) := by
  have hstate := state_reading hseeks
  have hrun : (File.read session.settings).run session.stream = session.reading := rfl
  rw [parse, hrun]
  cases hreading : session.reading with
  | ok f s log =>
      rw [hreading] at h
      cases h
  | fail found s log =>
      rw [hreading] at h hstate
      cases h
      cases hstate
      rfl

end Parse

/-! ### What steps keep -/

/-- Two sessions on one and the same data: only the place of the stream and the file that was
read last may differ. -/
structure Alike (a b : Session) : Prop where
  stream : a.stream.Moved b.stream
  settings : b.settings = a.settings

namespace Alike

variable {a b c : Session}

theorem refl (a : Session) : a.Alike a := ⟨.refl a.stream, rfl⟩

theorem trans (h : a.Alike b) (h' : b.Alike c) : a.Alike c :=
  ⟨h.stream.trans h'.stream, h'.settings.trans h.settings⟩

theorem brokenSeek (h : a.Alike b) : b.stream.brokenSeek = a.stream.brokenSeek := by
  obtain ⟨position, hstream⟩ := h.stream
  rw [hstream]

theorem reading (h : a.Alike b) (hseeks : a.stream.brokenSeek = none) :
    b.reading.result = a.reading.result ∧ b.reading.log = a.reading.log := by
  have hb := File.run_read_of_start b.settings (h.brokenSeek.trans hseeks)
  have ha := File.run_read_of_start a.settings hseeks
  obtain ⟨position, hstream⟩ := h.stream
  rw [h.settings, hstream] at hb
  rw [Session.reading, Session.reading, h.settings, hstream]
  exact ⟨hb.1.trans ha.1.symm, hb.2.trans ha.2.symm⟩

end Alike

/-- A parse changes nothing but the file that is remembered. -/
theorem alike_parse {session : Session} (hseeks : session.stream.brokenSeek = none) :
    session.Alike session.parse.2 := by
  cases hresult : session.reading.result with
  | ok file =>
      rw [parse_of_ok hseeks hresult]
      exact ⟨.refl session.stream, rfl⟩
  | error fault =>
      rw [parse_of_error hseeks hresult]
      exact .refl session

theorem step_read (session : Session) (count : Nat) :
    (session.step (.read count)).2 =
      { session with stream := (session.stream.read count).2 } := by
  rw [step]
  split <;> simp [*]

theorem alike_step {session : Session} (hseeks : session.stream.brokenSeek = none) {step : Step}
    (hquiet : step.isQuiet) : session.Alike (session.step step).2 := by
  cases step with
  | parse => exact alike_parse hseeks
  | read count =>
      rw [step_read]
      exact ⟨ByteStream.moved_read session.stream count, rfl⟩
  | seek position => exact ⟨⟨position, rfl⟩, rfl⟩
  | showSettings | showText | render => exact .refl session
  | configure | patch | append | truncate | limit => cases hquiet

/-- No step breaks the seeks of a stream. -/
theorem brokenSeek_step {session : Session} (hseeks : session.stream.brokenSeek = none)
    (step : Step) : (session.step step).2.stream.brokenSeek = none := by
  cases hquiet : step.isQuiet with
  | true => exact (alike_step hseeks hquiet).brokenSeek.trans hseeks
  | false =>
      cases step with
      | configure | patch | append | truncate | limit => exact hseeks
      | parse | read | seek | showSettings | showText | render => cases hquiet

theorem brokenSeek_after {session : Session} (hseeks : session.stream.brokenSeek = none)
    (steps : List Step) : (session.after steps).stream.brokenSeek = none := by
  induction steps generalizing session with
  | nil => exact hseeks
  | cons first later ih => exact ih (brokenSeek_step hseeks first)

/-- A file that was read last stays so, since a parse reads it again. -/
theorem last_step {session : Session} (hseeks : session.stream.brokenSeek = none) {step : Step}
    (hquiet : step.isQuiet) {file : File} (hresult : session.reading.result = .ok file)
    (hlast : session.last = some file) : (session.step step).2.last = some file := by
  cases step with
  | parse => exact congrArg (·.2.last) (parse_of_ok hseeks hresult)
  | read count =>
      rw [step_read]
      exact hlast
  | seek | showSettings | showText | render => exact hlast
  | configure | patch | append | truncate | limit => cases hquiet

/-- Quiet steps leave the data as it was.  A file that was read before them is still the one
that was read last, since every parse among them reads it again. -/
theorem after_quiet {session : Session} (hseeks : session.stream.brokenSeek = none)
    {steps : List Step} (hquiet : ∀ step ∈ steps, step.isQuiet) :
    session.Alike (session.after steps) ∧
      ∀ file, session.reading.result = .ok file → session.last = some file →
        (session.after steps).last = some file := by
  induction steps generalizing session with
  | nil => exact ⟨.refl session, fun file _ hlast => hlast⟩
  | cons first later ih =>
      have hfirst := alike_step hseeks (hquiet first List.mem_cons_self)
      have hlater := ih (brokenSeek_step hseeks first) fun step hstep =>
        hquiet step (List.mem_cons_of_mem first hstep)
      refine ⟨hfirst.trans hlater.1, fun file hresult hlast => hlater.2 file ?_ ?_⟩
      · exact (hfirst.reading hseeks).1.trans hresult
      · exact last_step hseeks (hquiet first List.mem_cons_self) hresult hlast

/-! ### Two parses -/

/-- What a parse answers where an earlier one has given the other answer: the same fault or
the same file, with the same log.  A file that comes again is compared with itself. -/
inductive Answer.Repeats : Answer → Answer → Prop
  | fault (fault : Fault) (log : Log) : Repeats (.fault fault log) (.fault fault log)
  | file (file : File) (earlier : Option Bool) (equals : Bool) (log : Log)
      (hequals : equals = true ↔ ∀ x ∈ file.floats, x.isNaN = false) :
      Repeats (.file file (some equals) log) (.file file earlier log)

theorem repeats_parse {session later : Session} (hseeks : session.stream.brokenSeek = none)
    (halike : session.parse.2.Alike later)
    (hlast : ∀ file, session.reading.result = .ok file → later.last = some file) :
    Answer.Repeats later.parse.1 session.parse.1 := by
  have hparse := alike_parse hseeks
  have hlater : later.stream.brokenSeek = none :=
    halike.brokenSeek.trans (hparse.brokenSeek.trans hseeks)
  obtain ⟨hresult, hlog⟩ := (hparse.trans halike).reading hseeks
  cases hfirst : session.reading.result with
  | ok file =>
      rw [parse_of_ok hseeks hfirst, parse_of_ok hlater (hresult.trans hfirst), hlog,
        hlast file hfirst]
      exact .file file _ (file == file) _ file.beq_self_iff
  | error fault =>
      rw [parse_of_error hseeks hfirst, parse_of_error hlater (hresult.trans hfirst), hlog]
      exact .fault fault _

/-- Two parses of a session with nothing but quiet steps between them agree: the second one
ends as the first one did, with the same log, wherever the stream stood before each of them.
Of a file that both have read, the second copy equals the first exactly if none of its floats
is a NaN. -/
theorem parse_repeats (session : Session) (before between later : List Step)
    (hseeks : session.stream.brokenSeek = none) (hquiet : ∀ step ∈ between, step.isQuiet) :
    ∃ first second : Answer × Session,
      (session.run (before ++ .parse :: (between ++ .parse :: later)))[before.length]? =
        some first ∧
      (session.run (before ++ .parse :: (between ++ .parse :: later)))[
        before.length + 1 + between.length]? = some second ∧
      second.1.Repeats first.1 := by
  have hbefore := brokenSeek_after hseeks before
  have hparse := alike_parse hbefore
  obtain ⟨halike, hlast⟩ := after_quiet (hparse.brokenSeek.trans hbefore) hquiet
  refine ⟨_, _, getElem?_run session before _ .parse, ?_, repeats_parse hbefore halike ?_⟩
  · have hsecond := getElem?_run session (before ++ .parse :: between) later .parse
    simpa [after_append, Nat.add_right_comm, Nat.add_assoc] using hsecond
  · intro file hresult
    refine hlast file ((hparse.reading hbefore).1.trans hresult) ?_
    rw [parse_of_ok hbefore hresult]

/-- A file whose only literal is a NaN. -/
def unequal : List UInt8 :=
  [0x58, 0x42, 0x46, 0, 24, 0, 0, 0, 19, 0, 0, 0] ++ List.replicate 24 0 ++
    [1, 0, 0, 0, 0, 0, 0, 0, 7, 0, 0, 0, 0x06, 5, 0, 0, 0xC0, 0x7F, 0x09]

/-- It is read twice, from different places, and its second copy is not equal to the first. -/
theorem unequal_repeats :
    (ByteStream.ofBytes unequal).brokenSeek = none ∧
      (∀ step ∈ [Step.read 4, .showText], step.isQuiet) ∧
      (({ stream := .ofBytes unequal } : Session).run
        [.seek 30, .parse, .read 4, .showText, .parse])[4]?.any
          (·.1 matches .file _ (some false) _) ∧
      ∃ first second : Answer × Session,
        (({ stream := .ofBytes unequal } : Session).run
          [.seek 30, .parse, .read 4, .showText, .parse])[1]? = some first ∧
        (({ stream := .ofBytes unequal } : Session).run
          [.seek 30, .parse, .read 4, .showText, .parse])[4]? = some second ∧
        second.1.Repeats first.1 :=
  ⟨rfl, by decide, by decide +kernel,
    parse_repeats { stream := .ofBytes unequal } [.seek 30] [.read 4, .showText] [] rfl
      (by decide)⟩

end Session

end XamlBinary
