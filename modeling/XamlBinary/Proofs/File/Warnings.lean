import XamlBinary.Proofs.File.Closure

/-!
What a parse that succeeds has warned of can be told from the file: flags
without a meaning, table by table, and then the trusted indices that the
registry lacks, in the order in which the nodes name them.  No warning is
lost on the way, and none is left of something that the file does not keep.
-/

namespace XamlBinary

open Reader

/-! ### Logs -/

@[simp] theorem Log.warnings_map_warning (ws : List Warning) :
    Log.warnings (ws.map Message.warning) = ws := by
  induction ws with
  | nil => rfl
  | cons w ws ih => exact congrArg (w :: ·) ih

theorem AnyRef.warnings_log (refs : List AnyRef) :
    (AnyRef.log refs).warnings = refs.filterMap AnyRef.warning? :=
  Log.warnings_map_warning _

/-- Substreams are warned of in their order, node by node; the rest of what is logged are notes. -/
theorem Substream.warnings_readLog (bodySize index : Nat) (subs : List Substream) :
    (Substream.readLog bodySize index subs).warnings =
      (subs.flatMap Substream.references).filterMap AnyRef.warning? := by
  induction subs generalizing index with
  | nil => rfl
  | cons sub later ih =>
      have hnodes : sub.nodes.flatMap (·.node.log) = AnyRef.log sub.references :=
        (AnyRef.log_flatMap ..).symm
      rw [readLog, Log.warnings_note_cons, Log.warnings_append, hnodes, AnyRef.warnings_log,
        ih (index + 1), List.flatMap_cons, List.filterMap_append]

/-! ### Strict scopes -/

/-- Where scopes are strict, a reference that can be resolved has an entry. -/
theorem Ref.Valid.warning?_eq_none {scope : Scope} (hstrict : scope.strict = true)
    {kind : SymbolKind} {r : Ref kind} (h : r.Valid scope) : r.warning? = none := by
  cases r with
  | known index => rfl
  | inFile index => rfl
  | unknown index =>
      obtain ⟨-, -, hlenient⟩ := h
      rw [hstrict] at hlenient
      cases hlenient

theorem AnyRef.Valid.warning?_eq_none {scope : Scope} (hstrict : scope.strict = true)
    {r : AnyRef} (h : r.Valid scope) : r.warning? = none := by
  cases r with
  | type ref => exact Ref.Valid.warning?_eq_none hstrict h
  | property ref => exact Ref.Valid.warning?_eq_none hstrict h
  | xmlNamespace ref => exact Ref.Valid.warning?_eq_none hstrict h

/-! ### Files -/

namespace File

variable {settings : Settings} {f : File}

theorem warnings_readLog (bodySize : Nat) (f : File) :
    (f.readLog bodySize).warnings = f.warnings := by
  rw [readLog, File.warnings, references]
  simp [Substream.warnings_readLog]

/-- The warnings of a parse that succeeds: the types whose flags have bits without a meaning, then
such properties, then the references that the registry has no entry for, each as often as it
occurs and in the order of the file.  A strict parse leaves none of the last kind. -/
theorem warnings_of_run_read (settings : Settings) (f : File) (s s' : ByteStream) (log : Log)
    (h : (read settings).run s = .ok f s' log) :
    log.warnings = f.metadata.types.toList.filterMap (·.flags.warning?) ++
        f.metadata.properties.toList.filterMap (·.flags.warning?) ++
        f.references.filterMap AnyRef.warning? ∧
      (settings.strict = true → f.references.filterMap AnyRef.warning? = []) := by
  obtain ⟨-, -, body, hread, -, rfl⟩ := run_read_eq_ok.mp h
  refine ⟨warnings_readLog body.length f, fun hstrict => ?_⟩
  rw [List.filterMap_eq_nil_iff]
  exact fun r hr => (hread.closed.references r hr).warning?_eq_none hstrict

/-- A file with a type and a property of odd flags, an object of a type that the registry lacks, and
a style that sets a property which the registry lacks to a value of such a type. -/
def odd : File :=
  ⟨⟨70, 31, none⟩,
    { strings := #["a"]
      assemblies := #[⟨.unknown, ⟨0⟩⟩]
      typeNamespaces := #[⟨0, ⟨0⟩⟩]
      types := #[⟨⟨3⟩, 0, ⟨0⟩⟩]
      properties := #[⟨⟨16⟩, 0, ⟨0⟩⟩] },
    [⟨⟨0, 19⟩, [⟨0, .startObject (.unknown 100)⟩, ⟨3, .runtimeData (.style
      ⟨2, [⟨.unknown 200, .constant (.enumeration (.unknown 300) 1), true⟩]⟩) 0⟩,
      ⟨18, .endOfStream⟩], []⟩]⟩

/-- The property of the setter comes before the type of its value. -/
theorem warnings_of_run_read_odd :
    ∃ s log, (read {}).run (.ofBytes odd.bytes) = .ok odd s log ∧
      log.warnings = [.unknownTypeFlags 3, .unknownPropertyFlags 16,
        .unknownStableIndex .knownTypes 100, .unknownStableIndex .knownProperties 200,
        .unknownStableIndex .knownTypes 300] := by
  have haccepted : ofBytes {} odd.bytes = .ok odd := by decide +kernel
  cases hrun : (read {}).run (.ofBytes odd.bytes) with
  | fail fault s log =>
      rw [ofBytes, hrun] at haccepted
      cases haccepted
  | ok f s log =>
      rw [ofBytes, hrun] at haccepted
      cases haccepted
      have hwarnings := (warnings_of_run_read {} odd _ s log hrun).1
      exact ⟨s, log, rfl, hwarnings.trans (by decide)⟩

end File

end XamlBinary
