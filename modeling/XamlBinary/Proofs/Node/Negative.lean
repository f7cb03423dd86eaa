import XamlBinary.Proofs.Node.Decode

/-!
Quantities that are written as 7-bit integers must not be negative.  Each of
their readers reads the integer and then checks it, and a negative one is
refused as malformed data at its first byte.  The one quantity that is written
one too large, a string id that can be missing, is made smaller before the
check: the least integer turns into the greatest there, and is taken for an
index.
-/

namespace XamlBinary

open Reader

/-- The least integer is the only negative one that is no longer negative when it is made
smaller by one. -/
theorem int32_sub_one_neg_iff {n : Int32} (h : n < 0) : n - 1 < 0 ↔ n ≠ Int32.minValue := by
  have hle := n.le_toInt
  have hleast : n ≠ Int32.minValue ↔ n.toInt ≠ -2 ^ 31 := by
    rw [Ne, ← Int32.toInt_inj]
    rfl
  have hzero : (0 : Int32).toInt = 0 := rfl
  have hone : (1 : Int32).toInt = 1 := rfl
  rw [Int32.lt_iff_toInt_lt, hzero] at h
  rw [hleast, Int32.lt_iff_toInt_lt, Int32.toInt_sub, hone, hzero, Int.bmod_def]
  omega

namespace Decoder

variable {α : Type} {c : Cursor} {n : Int32}

/-! ### One reader -/

/-- The 7-bit integer at the cursor, in whatever spelling, is that negative number. -/
def NegativeAhead (c : Cursor) (n : Int32) : Prop :=
  n < 0 ∧ ∃ what c' log, (varint what).run c = .ok n c' log

/-- It does not matter what the integer is read for. -/
theorem NegativeAhead.run_varint (h : NegativeAhead c n) (what : String) :
    ∃ c', (varint what).run c = .ok n c' [] := by
  obtain ⟨-, other, c', log, hrun⟩ := h
  obtain ⟨-, -, hspans⟩ := (reads_varint other _ _ _ _).mp hrun
  exact ⟨c', (reads_varint what _ _ _ _).mpr ⟨trivial, rfl, hspans⟩⟩

/-- A reader that takes a 7-bit integer and then refuses the number does so where the integer
begins. -/
theorem NegativeAhead.failsWith (h : NegativeAhead c n) (what : String)
    {check : Nat → Int32 → Decoder α} {reason : DataFault}
    (hcheck : ∀ start m, (check start n).FailsWith m (.malformed start reason)) :
    FailsWith (do
      let start ← position
      let number ← varint what
      check start number) c (.malformed c.offset reason) := by
  obtain ⟨c', hrun⟩ := h.run_varint what
  exact .after (run_position c) (.after hrun (hcheck c.offset c'))

theorem natural_negative (h : NegativeAhead c n) (what : String) :
    (natural what).FailsWith c (.malformed c.offset (.negative what n)) := by
  apply h.failsWith
  intro start m
  rw [if_pos h.1]
  exact failsWith_malformed start _ m

theorem list_negative (h : NegativeAhead c n) (what : String) (item : Decoder α) :
    (list what item).FailsWith c (.malformed c.offset (.negativeCount what n)) := by
  apply h.failsWith
  intro start m
  rw [if_pos h.1]
  exact failsWith_malformed start _ m

theorem scope_stringId_negative (hneg : n < 0) (scope : Scope) (start : Nat) (c : Cursor) :
    FailsWith (scope.stringId start n) c (.malformed start (.negative "string id" n)) := by
  rw [Scope.stringId, if_pos hneg]
  exact failsWith_malformed start _ c

theorem stringId_negative (h : NegativeAhead c n) (scope : Scope) (what : String) :
    (stringId scope what).FailsWith c (.malformed c.offset (.negative "string id" n)) := by
  apply h.failsWith
  intro start m
  exact scope_stringId_negative h.1 scope start m

theorem stringId?_negative (h : NegativeAhead c n) (scope : Scope) (what : String)
    (hleast : n ≠ Int32.minValue) :
    (stringId? scope what).FailsWith c (.malformed c.offset (.negative "string id" (n - 1))) := by
  have hzero : n ≠ 0 := by
    rintro rfl
    exact absurd h.1 (by decide)
  apply h.failsWith
  intro start m
  rw [if_neg hzero]
  apply FailsWith.map
  exact scope_stringId_negative ((int32_sub_one_neg_iff h.1).mpr hleast) scope start m

/-- The least integer is taken for the index `2 ^ 31 - 1`.  No table of strings is so long,
since the count in front of a table is a signed word. -/
theorem stringId?_minValue (h : NegativeAhead c Int32.minValue) (scope : Scope) (what : String)
    (hstrings : scope.strings < 2 ^ 31) :
    (stringId? scope what).FailsWith c
      (.indexOutOfRange .strings (2 ^ 31 - 1) scope.strings) := by
  obtain ⟨c', hrun⟩ := h.run_varint what
  have hindex : (Int32.minValue - 1).toNatClampNeg = 2 ^ 31 - 1 := by decide
  apply FailsWith.after (run_position c)
  apply FailsWith.after hrun
  rw [if_neg (by decide)]
  apply FailsWith.map
  rw [Scope.stringId, if_neg (by decide), hindex, if_neg (by omega)]
  exact ⟨c', [], rfl⟩

theorem groupIndex_negative (h : NegativeAhead c n) (count : Nat) :
    (groupIndex count).FailsWith c
      (.malformed c.offset (.negative "visual state group index" n)) :=
  (natural_negative h _).bind _

/-! ### All of them -/

/-- How a negative 7-bit integer at the cursor ends the runs that come to it: the readers of
one quantity, and the readers that take some other parts before it. -/
structure RefusesNegative (c : Cursor) (n : Int32) : Prop where
  token (what : String) : (token what).FailsWith c (.malformed c.offset (.negative what n))
  stringId (scope : Scope) (what : String) :
    (stringId scope what).FailsWith c (.malformed c.offset (.negative "string id" n))
  optionalString (scope : Scope) (what : String) : n ≠ Int32.minValue →
    (stringId? scope what).FailsWith c (.malformed c.offset (.negative "string id" (n - 1)))
  leastOptionalString (scope : Scope) (what : String) : n = Int32.minValue →
    scope.strings < 2 ^ 31 →
      (stringId? scope what).FailsWith c (.indexOutOfRange .strings (2 ^ 31 - 1) scope.strings)
  /-- The group index comes behind the name of a visual state. -/
  groupIndex (scope : Scope) (version groups : Nat) {c₀ : Cursor} {name : StringId} {log : Log} :
    (Decoder.stringId scope "visual state name").run c₀ = .ok name c log →
      (visualState scope version groups).FailsWith c₀
        (.malformed c.offset (.negative "visual state group index" n))
  count {α : Type} (what : String) (item : Decoder α) :
    (list what item).FailsWith c (.malformed c.offset (.negativeCount what n))
  /-- The index of the deferred substream ends a node. -/
  substream (scope : Scope) {c₀ m : Cursor} {data : RuntimeData} {log : Log} :
    (byte "node type").run c₀ = .ok NodeKind.runtimeData.tag m [] →
    (runtimeData scope).run m = .ok data c log →
      (node scope).FailsWith c₀ (.malformed c.offset (.negative "deferred substream index" n))
  lineOffset : lineEntry.FailsWith c (.malformed c.offset (.negative "line info node offset" n))
  line {c₀ : Cursor} {offset : UInt32} {log : Log} :
    (natural "line info node offset").run c₀ = .ok offset c log →
      lineEntry.FailsWith c₀ (.malformed c.offset (.negative "line info line" n))
  column {c₀ m : Cursor} {offset line : UInt32} {log log' : Log} :
    (natural "line info node offset").run c₀ = .ok offset m log →
    (natural "line info line").run m = .ok line c log' →
      lineEntry.FailsWith c₀ (.malformed c.offset (.negative "line info column" n))

/-- Wherever a 7-bit integer is read for a quantity, a negative one is malformed data at the
first byte of the integer, whatever its spelling.  The least integer in the place of a string
that can be missing is the only exception; there an index is out of range. -/
theorem refusesNegative (c : Cursor) (n : Int32) (h : NegativeAhead c n) :
    RefusesNegative c n where
  token what := (natural_negative h what).map Token.mk
  stringId := stringId_negative h
  optionalString scope what := stringId?_negative h scope what
  leastOptionalString scope what := by
    rintro rfl
    exact stringId?_minValue h scope what
  groupIndex scope version groups := by
    intro c₀ name log hname
    apply FailsWith.after hname
    exact (groupIndex_negative h groups).bind _
  count := list_negative h
  substream scope := by
    intro c₀ m data log htag hdata
    apply FailsWith.after (run_position c₀)
    apply FailsWith.after htag
    apply FailsWith.after hdata
    exact (natural_negative h _).bind _
  lineOffset := (natural_negative h _).bind _
  line := by
    intro c₀ offset log hoffset
    apply FailsWith.after hoffset
    exact (natural_negative h _).bind _
  column := by
    intro c₀ m offset line log log' hoffset hline
    apply FailsWith.after hoffset
    apply FailsWith.after hline
    exact (natural_negative h _).bind _

/-- The greatest and the least negative number. -/
theorem refusesNegative_ends :
    RefusesNegative (Cursor.start [0xFF, 0xFF, 0xFF, 0xFF, 0x0F]) (-1) ∧
      RefusesNegative (Cursor.start [0x80, 0x80, 0x80, 0x80, 0x08]) Int32.minValue :=
  ⟨refusesNegative _ _ ⟨by decide, "", ⟨5, []⟩, [], by decide⟩,
    refusesNegative _ _ ⟨by decide, "", ⟨5, []⟩, [], by decide⟩⟩

/-- As a string that can be missing, the least integer is not refused as malformed data. -/
theorem not_forall_stringId?_malformed :
    ¬ ∀ (scope : Scope) (c : Cursor) (n : Int32), NegativeAhead c n →
      ∃ reason, (stringId? scope "transition from").FailsWith c (.malformed c.offset reason) := by
  intro h
  obtain ⟨reason, c', log, hrun⟩ := h ⟨0, 0, 0, 0, false⟩
    (Cursor.start [0x80, 0x80, 0x80, 0x80, 0x08]) Int32.minValue
    ⟨by decide, "", ⟨5, []⟩, [], by decide⟩
  have houtside : (stringId? ⟨0, 0, 0, 0, false⟩ "transition from").run
      (Cursor.start [0x80, 0x80, 0x80, 0x80, 0x08]) =
        .fail (.indexOutOfRange .strings (2 ^ 31 - 1) 0) ⟨5, []⟩ [] := by decide
  rw [houtside] at hrun
  cases hrun

end Decoder

end XamlBinary
