import XamlBinary.Proofs.Written.Spelling
import XamlBinary.Reader.Primitive

/-!
What a reader accepts.  `Reads reader written Valid log` says that the runs of
a reader that end well are known exactly: they give the valid values, take
one of the spellings of what they give, and log what `log` tells.  One
equivalence carries both directions, that writing can be read back and that
whatever was read was written so.

There is a rule for each way to build a reader, and the rules compose, so a
statement about a decoder follows the shape of its definition.  `Reads.field`
is the rule for the steps of a record: each step reads one field of the value
that comes out at the end.
-/

namespace XamlBinary

/-- Sources of which the bytes ahead are known, and that give them out in order. -/
class LawfulByteSource (σ : Type) [ByteSource σ] where
  /-- The bytes that can still be taken. -/
  ahead : σ → List UInt8
  /-- The source behind that many of them. -/
  skip : σ → Nat → σ
  skip_zero (s : σ) : skip s 0 = s
  skip_skip (s : σ) (m n : Nat) : skip (skip s m) n = skip s (m + n)
  ahead_skip (s : σ) (n : Nat) : ahead (skip s n) = (ahead s).drop n
  take_eq_all (s s' : σ) (n : Nat) (bytes : List UInt8) :
    ByteSource.take n s = (.all bytes, s') ↔
      bytes.length = n ∧ bytes <+: ahead s ∧ s' = skip s n

namespace Reader

/-! ### Runs that end well -/

section Runs

variable {σ α β : Type} {s s' : σ} {log : Log}

theorem run_pure_eq_ok {a b : α} :
    (pure a : Reader σ α).run s = .ok b s' log ↔ b = a ∧ s' = s ∧ log = [] := by
  rw [run_pure]
  constructor
  · rintro ⟨⟩
    exact ⟨rfl, rfl, rfl⟩
  · rintro ⟨rfl, rfl, rfl⟩
    rfl

theorem run_bind_eq_ok {reader : Reader σ α} {next : α → Reader σ β} {b : β} :
    (reader >>= next).run s = .ok b s' log ↔
      ∃ a m first second, reader.run s = .ok a m first ∧
        (next a).run m = .ok b s' second ∧ log = first ++ second := by
  constructor
  · intro h
    cases hfirst : reader.run s with
    | fail fault m first => simp [run_bind_fail hfirst] at h
    | ok a m first =>
        rw [run_bind_ok hfirst] at h
        cases hsecond : (next a).run m with
        | fail fault m' second => simp [hsecond, Outcome.after] at h
        | ok b' m' second =>
            rw [hsecond] at h
            cases h
            exact ⟨a, m, first, second, rfl, hsecond, rfl⟩
  · rintro ⟨a, m, first, second, hfirst, hsecond, rfl⟩
    rw [run_bind_ok hfirst, hsecond]
    rfl

/-- What is done with the value of a run does not change how it ends. -/
theorem run_map (f : α → β) (reader : Reader σ α) (s : σ) :
    (f <$> reader).run s =
      match reader.run s with
      | .ok a s' log => .ok (f a) s' log
      | .fail fault s' log => .fail fault s' log := by
  rw [← bind_pure_comp, run_bind]
  cases reader.run s with
  | ok a s' log => simp [Outcome.after]
  | fail fault s' log => rfl

theorem run_report_bind_eq_ok {message : Message} {next : Unit → Reader σ β} {b : β} :
    (report message >>= next).run s = .ok b s' log ↔
      ∃ rest, (next ()).run s = .ok b s' rest ∧ log = message :: rest := by
  rw [run_bind_eq_ok]
  constructor
  · rintro ⟨u, m, first, rest, hreport, hrest, rfl⟩
    cases hreport
    exact ⟨rest, hrest, rfl⟩
  · rintro ⟨rest, hrest, rfl⟩
    exact ⟨(), s, [message], rest, rfl, hrest, rfl⟩

theorem run_note_bind_eq_ok {n : Note} {next : Unit → Reader σ β} {b : β} :
    (note n >>= next).run s = .ok b s' log ↔
      ∃ rest, (next ()).run s = .ok b s' rest ∧ log = .note n :: rest :=
  run_report_bind_eq_ok

/-- Looking at the source takes nothing and logs nothing. -/
theorem run_get_bind {next : σ → Reader σ β} : (get >>= next).run s = (next s).run s := by
  rw [run_bind_ok (run_get s), Outcome.after_nil]

theorem run_position_bind [ByteSource σ] {next : Nat → Reader σ β} :
    (position >>= next).run s = (next (ByteSource.offset s)).run s := by
  rw [run_bind_ok (run_position s), Outcome.after_nil]

end Runs

section Rules

open LawfulByteSource

variable {σ α β : Type} [ByteSource σ] [LawfulByteSource σ]

/-! ### Stretches of a source -/

/-- The second source is the first one behind a spelling of the form. -/
def Spans (w : Written) (s s' : σ) : Prop :=
  ∃ bytes, Written.Spells w bytes ∧ bytes <+: ahead s ∧ s' = skip s bytes.length

theorem spans_nil_iff {s s' : σ} : Spans [] s s' ↔ s' = s := by
  constructor
  · rintro ⟨bytes, hbytes, -, rfl⟩
    rw [Written.spells_nil_iff.mp hbytes, List.length_nil, skip_zero]
  · rintro rfl
    exact ⟨[], .nil, List.nil_prefix, (skip_zero _).symm⟩

theorem spans_append_iff {v w : Written} {s s' : σ} :
    Spans (v ++ w) s s' ↔ ∃ m, Spans v s m ∧ Spans w m s' := by
  constructor
  · rintro ⟨bytes, hbytes, hahead, rfl⟩
    obtain ⟨first, second, rfl, hfirst, hsecond⟩ := Written.spells_append_iff.mp hbytes
    obtain ⟨rest, hrest⟩ := hahead
    rw [List.append_assoc] at hrest
    -- the middle is where the first spelling ends
    refine ⟨skip s first.length, ⟨first, hfirst, ⟨_, hrest⟩, rfl⟩, second, hsecond, ?_, ?_⟩
    · rw [ahead_skip, ← hrest, List.drop_left]
      exact List.prefix_append ..
    · rw [skip_skip, List.length_append]
  · rintro ⟨m, ⟨first, hfirst, ⟨rest, hrest⟩, rfl⟩, second, hsecond, hahead, rfl⟩
    refine ⟨first ++ second, hfirst.append hsecond, ?_, ?_⟩
    · rw [ahead_skip, ← hrest, List.drop_left] at hahead
      rw [← hrest]
      exact (List.prefix_append_right_inj first).mpr hahead
    · rw [skip_skip, List.length_append]

theorem spans_fixed_iff {x : List UInt8} {s s' : σ} :
    Spans [.fixed x] s s' ↔ x <+: ahead s ∧ s' = skip s x.length := by
  simp [Spans]

theorem spans_fixed_append_iff {x y : List UInt8} {s s' : σ} :
    Spans [.fixed (x ++ y)] s s' ↔ ∃ m, Spans [.fixed x] s m ∧ Spans [.fixed y] m s' := by
  rw [← spans_append_iff]
  simp [Spans, Written.spells_fixed_cons_iff]

/-! ### The judgment and its rules -/

/-- The runs of the reader that end well give the valid values, take a spelling of the value
they give, and log what goes with it. -/
def Reads (reader : Reader σ α) (written : α → Written) (Valid : α → Prop)
    (log : α → Log) : Prop :=
  ∀ s a s' l, reader.run s = .ok a s' l ↔ Valid a ∧ l = log a ∧ Spans (written a) s s'

variable {reader : Reader σ α} {next : α → Reader σ β} {w w' : α → Written}
  {P P' : α → Prop} {l l' : α → Log}

/-- The three parts of a judgment matter only up to equality on the values that are valid. -/
theorem Reads.congr (h : Reads reader w P l) (hP : ∀ a, P' a ↔ P a)
    (hw : ∀ a, P a → w' a = w a) (hl : ∀ a, P a → l' a = l a) : Reads reader w' P' l' := by
  intro s a s' log
  rw [h, hP]
  refine and_congr_right fun ha => ?_
  rw [hw a ha, hl a ha]

theorem Reads.pure {a : α} (h : ∀ b, P b ↔ b = a) :
    Reads (pure a : Reader σ α) (fun _ => []) P fun _ => [] := by
  intro s b s' log
  rw [run_pure_eq_ok, h, spans_nil_iff]
  exact and_congr_right fun _ => And.comm

/-- Giving the only valid value, which takes no room and logs nothing. -/
theorem Reads.only {a : α} (h : ∀ b, P b ↔ b = a) (hw : w a = []) (hl : l a = []) :
    Reads (Pure.pure a : Reader σ α) w P l :=
  (Reads.pure h).congr (fun _ => Iff.rfl) (fun b hb => by rw [(h b).mp hb, hw])
    fun b hb => by rw [(h b).mp hb, hl]

theorem Reads.fail {fault : Fault} (h : ∀ b, ¬ P b) :
    Reads (fail fault : Reader σ α) w P l := by
  intro s b s' log
  simp [h]

theorem Reads.position {read : Nat → Reader σ α} (h : ∀ offset, Reads (read offset) w P l) :
    Reads (position >>= read) w P l := by
  intro s a s' log
  rw [run_position_bind]
  exact h _ s a s' log

theorem Reads.ite {p : Prop} [Decidable p] {other : Reader σ α}
    (hthen : p → Reads reader w P l) (helse : ¬ p → Reads other w P l) :
    Reads (if p then reader else other) w P l := by
  split
  · exact hthen ‹p›
  · exact helse ‹¬ p›

/-- A choice that is made before the rest is read can be made in it as well. -/
theorem Reads.iteBind {p : Prop} [Decidable p] {other : Reader σ α} {w : β → Written}
    {P : β → Prop} {l : β → Log} (h : Reads ((if p then reader else other) >>= next) w P l) :
    Reads (if p then reader >>= next else other >>= next) w P l := by
  split
  · rwa [if_pos ‹p›] at h
  · rwa [if_neg ‹¬ p›] at h

/-- Reading a part, and then the rest of a value that the part leads to. -/
theorem Reads.bind {v : α → β → Written} {Q : α → β → Prop} {m : α → β → Log}
    {written : β → Written} {Valid : β → Prop} {log : β → Log}
    (h : Reads reader w P l) (hnext : ∀ a, P a → Reads (next a) (v a) (Q a) (m a))
    (hvalid : ∀ b, Valid b ↔ ∃ a, P a ∧ Q a b)
    (hwritten : ∀ a b, P a → Q a b → written b = w a ++ v a b)
    (hlog : ∀ a b, P a → Q a b → log b = l a ++ m a b) :
    Reads (reader >>= next) written Valid log := by
  intro s b s' total
  rw [run_bind_eq_ok, hvalid]
  constructor
  · rintro ⟨a, s₁, first, second, hfirst, hsecond, rfl⟩
    obtain ⟨hP, rfl, hspan⟩ := (h ..).mp hfirst
    obtain ⟨hQ, rfl, hspan'⟩ := (hnext a hP ..).mp hsecond
    refine ⟨⟨a, hP, hQ⟩, (hlog a b hP hQ).symm, ?_⟩
    rw [hwritten a b hP hQ]
    exact spans_append_iff.mpr ⟨s₁, hspan, hspan'⟩
  · rintro ⟨⟨a, hP, hQ⟩, rfl, hspan⟩
    rw [hwritten a b hP hQ] at hspan
    obtain ⟨s₁, hspan, hspan'⟩ := spans_append_iff.mp hspan
    exact ⟨a, s₁, l a, m a b, (h ..).mpr ⟨hP, rfl, hspan⟩,
      (hnext a hP ..).mpr ⟨hQ, rfl, hspan'⟩, hlog a b hP hQ⟩

/-- Reading a part that can be told from the value: the rest is read knowing what it is. -/
theorem Reads.lead (part : β → α) {v written : β → Written} {Valid : β → Prop} {log : β → Log}
    (h : Reads reader w P fun _ => [])
    (hnext : ∀ a, P a → Reads (next a) v (fun b => part b = a ∧ Valid b) log)
    (hvalid : ∀ b, Valid b → P (part b))
    (hwritten : ∀ b, Valid b → written b = w (part b) ++ v b) :
    Reads (reader >>= next) written Valid log := by
  refine Reads.bind h hnext ?_ ?_ fun _ _ _ _ => rfl
  · intro b
    constructor
    · exact fun hb => ⟨part b, hvalid b hb, rfl, hb⟩
    · rintro ⟨a, -, -, hb⟩
      exact hb
  · rintro a b - ⟨rfl, hb⟩
    exact hwritten b hb

/-- Reading a field of a record.  The rest knows the fields before it by the equations in
`Q`, and the conditions on the fields behind it pile up in `R`. -/
theorem Reads.field (part : β → α) {w' : α → β → Written} {R : α → β → Prop} {Q : β → Prop}
    {l' : α → β → Log} (h : Reads reader w P l)
    (hnext : ∀ a, Reads (next a) (w' a) (fun b => R a b ∧ part b = a ∧ Q b) (l' a)) :
    Reads (reader >>= next) (fun b => w (part b) ++ w' (part b) b)
      (fun b => (P (part b) ∧ R (part b) b) ∧ Q b) fun b => l (part b) ++ l' (part b) b := by
  refine Reads.bind h (fun a _ => hnext a) ?_ ?_ ?_
  · intro b
    constructor
    · rintro ⟨⟨hP, hR⟩, hQ⟩
      exact ⟨part b, hP, hR, rfl, hQ⟩
    · rintro ⟨a, hP, hR, rfl, hQ⟩
      exact ⟨⟨hP, hR⟩, hQ⟩
  · rintro a b - ⟨-, rfl, -⟩
    rfl
  · rintro a b - ⟨-, rfl, -⟩
    rfl

/-- The end of a record: all of its fields are known. -/
theorem Reads.made {a : α} {Q : α → Prop} (ha : Q a) (honly : ∀ b, Q b → b = a) :
    Reads (Pure.pure a : Reader σ α) (fun _ => []) (fun b => True ∧ Q b) fun _ => [] := by
  refine Reads.pure fun b => ?_
  rw [true_and]
  constructor
  · exact honly b
  · rintro rfl
    exact ha

/-- A whole record: nothing is known of it before its first field. -/
theorem Reads.record (h : Reads reader w (fun a => P a ∧ True) l) (hP : ∀ a, P' a ↔ P a)
    (hw : ∀ a, w' a = w a) (hl : ∀ a, l' a = l a) : Reads reader w' P' l' :=
  h.congr (fun a => by rw [hP, and_true]) (fun a _ => hw a) fun a _ => hl a

/-- A record of which something is known that is not read, such as its version. -/
theorem Reads.recordWith (Q : α → Prop) (h : Reads reader w (fun a => P a ∧ Q a) l)
    (hP : ∀ a, Q a → (P' a ↔ P a)) (hw : ∀ a, Q a → w' a = w a)
    (hl : ∀ a, Q a → l' a = l a) : Reads reader w' (fun a => Q a ∧ P' a) l' :=
  h.congr (fun a => by rw [and_comm, and_congr_left (hP a)]) (fun a ha => hw a ha.2)
    fun a ha => hl a ha.2

theorem Reads.map {f : α → β} {written : β → Written} {Valid : β → Prop} {log : β → Log}
    (h : Reads reader w P l) (hvalid : ∀ b, Valid b ↔ ∃ a, P a ∧ b = f a)
    (hwritten : ∀ a, P a → written (f a) = w a) (hlog : ∀ a, P a → log (f a) = l a) :
    Reads (f <$> reader) written Valid log := by
  rw [← bind_pure_comp]
  refine Reads.bind h (fun a _ => Reads.pure fun b => Iff.rfl) hvalid ?_ ?_
  · rintro a b hP rfl
    rw [hwritten a hP, List.append_nil]
  · rintro a b hP rfl
    rw [hlog a hP, List.append_nil]

/-- A message, and then what is read. -/
theorem Reads.reportFirst (message : Message) (h : Reads reader w P l) :
    Reads (do
        report message
        reader) w P fun a => message :: l a := by
  intro s a s' log
  rw [run_report_bind_eq_ok]
  constructor
  · rintro ⟨rest, hrest, rfl⟩
    obtain ⟨hP, rfl, hspan⟩ := (h ..).mp hrest
    exact ⟨hP, rfl, hspan⟩
  · rintro ⟨hP, rfl, hspan⟩
    exact ⟨l a, (h ..).mpr ⟨hP, rfl, hspan⟩, rfl⟩

/-- A tag, and then what the kind that it stands for calls for. -/
theorem Reads.tagged {τ κ : Type} {tag : Reader σ τ} {ofTag? : τ → Option κ}
    {read : Nat → τ → Reader σ α} {wt : τ → Written} (kindOf : α → κ) (tagOf : κ → τ)
    (body : κ → Reader σ α) (htag : Reads tag wt (fun _ => True) fun _ => [])
    (hsome : ∀ start t kind, ofTag? t = some kind → read start t = body kind)
    (hnone : ∀ start t, ofTag? t = none → ∃ fault, read start t = Reader.fail fault)
    (hbody : ∀ t kind, ofTag? t = some kind →
      Reads (body kind) w (fun a => kindOf a = kind ∧ P a) l)
    (hsound : ∀ t kind, ofTag? t = some kind → tagOf kind = t)
    (hknown : ∀ a, P a → ofTag? (tagOf (kindOf a)) = some (kindOf a)) :
    Reads (do
        let start ← Reader.position
        let t ← tag
        read start t)
      (fun a => wt (tagOf (kindOf a)) ++ w a) P l := by
  refine Reads.position fun start => Reads.lead (fun a => tagOf (kindOf a)) htag (v := w) ?_
    (fun _ _ => trivial) fun _ _ => rfl
  intro t _
  cases hkind : ofTag? t with
  | some kind =>
      rw [hsome start t kind hkind]
      refine (hbody t kind hkind).congr (fun a => and_congr_left fun ha => ?_) (fun _ _ => rfl)
        fun _ _ => rfl
      -- a tag stands for one kind, and a kind has one tag
      constructor
      · rintro rfl
        exact Option.some.inj ((hknown a ha).symm.trans hkind)
      · rintro rfl
        exact hsound t _ hkind
  | none =>
      obtain ⟨fault, hfault⟩ := hnone start t hkind
      rw [hfault]
      refine Reads.fail fun a ha => ?_
      rw [← ha.1, hknown a ha.2] at hkind
      cases hkind

/-- Two values one after the other. -/
theorem Reads.pair {γ : Type} {second : Reader σ β} {f : α → β → γ} {w₂ : β → Written}
    {P₂ : β → Prop} {l₂ : β → Log} {written : γ → Written} {Valid : γ → Prop} {log : γ → Log}
    (h : Reads reader w P l) (h₂ : Reads second w₂ P₂ l₂)
    (hvalid : ∀ c, Valid c ↔ ∃ a, P a ∧ ∃ b, P₂ b ∧ c = f a b)
    (hwritten : ∀ a b, written (f a b) = w a ++ w₂ b)
    (hlog : ∀ a b, log (f a b) = l a ++ l₂ b) :
    Reads (do
        let a ← reader
        let b ← second
        Pure.pure (f a b)) written Valid log := by
  -- the rest does not know what came first, so it is said as what is left of the whole
  have hnext (a : α) : Reads (second >>= fun b => Pure.pure (f a b))
      (fun c => (written c).drop (w a).length) (fun c => ∃ b, P₂ b ∧ c = f a b)
      fun c => (log c).drop (l a).length := by
    refine Reads.bind h₂ (fun b _ => Reads.pure fun c => Iff.rfl) (fun c => Iff.rfl) ?_ ?_
    · rintro b _ - rfl
      rw [hwritten, List.drop_left, List.append_nil]
    · rintro b _ - rfl
      rw [hlog, List.drop_left, List.append_nil]
  refine Reads.bind h (fun a _ => hnext a) hvalid ?_ ?_
  · rintro a _ - ⟨b, -, rfl⟩
    rw [hwritten, List.drop_left]
  · rintro a _ - ⟨b, -, rfl⟩
    rw [hlog, List.drop_left]

/-- Reading a value through another form of it, with `g` for the way back. -/
theorem Reads.convert {f : α → β} (g : β → α) (h : Reads reader w P l)
    (hfg : ∀ b, f (g b) = b) (hgf : ∀ a, P a → g (f a) = a) :
    Reads (f <$> reader) (fun b => w (g b)) (fun b => P (g b)) fun b => l (g b) := by
  refine Reads.map h ?_ (fun a ha => by rw [hgf a ha]) fun a ha => by rw [hgf a ha]
  intro b
  constructor
  · exact fun hb => ⟨g b, hb, (hfg b).symm⟩
  · rintro ⟨a, ha, rfl⟩
    rwa [hgf a ha]

end Rules

end Reader

end XamlBinary
