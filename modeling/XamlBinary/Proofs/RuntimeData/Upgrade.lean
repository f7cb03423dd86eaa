import XamlBinary.Proofs.RuntimeData.Decode

/-!
All versions of a family of custom runtime data are read into one type.  Data
that was read in one version lacks nothing in a later one: the parts that came
in between have their defaults, which can be written, so the data can be
written in the later layout and is read back from there.
-/

namespace XamlBinary

open Reader Decoder

/-! ### What a version does not have -/

/-- Nothing is set that came after the version. -/
structure VisualStateGroup.Within (version : Nat) (g : VisualStateGroup) : Prop where
  hasDynamicTimelines : version < 4 → g.hasDynamicTimelines = false

structure VisualState.Within (version : Nat) (s : VisualState) : Prop where
  propertySetters : version < 2 → s.propertySetters = []
  triggerValues : version < 3 → s.triggerValues = []
  triggerCollections : version < 3 → s.triggerCollections = []
  extensibleTriggers : version < 4 → s.extensibleTriggers = []
  staticResourceTriggers : version < 5 → s.staticResourceTriggers = []

structure VisualStateGroups.Within (version : Nat) (d : VisualStateGroups) : Prop where
  groups : ∀ g ∈ d.groups, g.Within version
  states : ∀ s ∈ d.states, s.Within version
  transitions : version < 2 → d.transitions = []
  unexpectedTokens : version < 3 → d.unexpectedTokens = false

structure ResourceDictionary.Within (version : Nat) (d : ResourceDictionary) : Prop where
  xNames : version < 2 → d.xNames = []
  conditionalTokens : version < 3 → d.conditionalTokens = []

structure Setter.Within (version : Nat) (s : Setter) : Prop where
  isMutable : version < 2 → s.isMutable = false

structure DeferredElement.Within (version : Nat) (d : DeferredElement) : Prop where
  realize : version < 2 → d.realize = false
  hasLoadBinding : version < 3 → d.hasLoadBinding = false

namespace RuntimeData

/-- Every part of the data that the version does not have is empty or false. -/
def Within (version : Nat) : RuntimeData → Prop
  | visualStateGroups data => data.Within version
  | resourceDictionary data => data.Within version
  | style data => ∀ s ∈ data.setters, s.Within version
  | deferredElement data => data.Within version

/-- The same data in another version of its family. -/
def inVersion (version : Nat) : RuntimeData → RuntimeData
  | visualStateGroups data => .visualStateGroups { data with version }
  | resourceDictionary data => .resourceDictionary { data with version }
  | style data => .style { data with version }
  | deferredElement data => .deferredElement { data with version }

@[simp] theorem layout_inVersion (d : RuntimeData) (version : Nat) :
    (d.inVersion version).layout = ⟨d.layout.family, version⟩ := by
  cases d <;> rfl

/-- The version refers to nothing. -/
@[simp] theorem log_inVersion (d : RuntimeData) (version : Nat) :
    (d.inVersion version).log = d.log := by
  cases d <;> rfl

end RuntimeData

/-! ### Parts that came with a version -/

namespace Decoder.Since

variable {α : Type} {absent a : α} {P : α → Prop} {first v w : Nat}

theorem eq_absent (h : Since (first ≤ v) absent P a) (hlt : v < first) : a = absent := by
  have hnot : decide (first ≤ v) = false := decide_eq_false (Nat.not_le.mpr hlt)
  rw [Since, hnot] at h
  exact h

/-- A default that is valid can stand where an earlier version has nothing. -/
theorem later (h : Since (first ≤ v) absent P a) (hvw : v ≤ w) (habsent : P absent) :
    Since (first ≤ w) absent P a := by
  by_cases hv : first ≤ v
  · have hw : first ≤ w := hv.trans hvw
    simpa [Since, hv, hw] using h
  · obtain rfl : a = absent := h.eq_absent (Nat.not_le.mp hv)
    by_cases hw : first ≤ w
    · simpa [Since, hw] using habsent
    · simp [Since, hw]

end Decoder.Since

variable {scope : Scope} {texts : String → Prop} {v w : Nat}

/-! ### What is valid has only what its version has -/

theorem VisualStateGroup.Valid.within {g : VisualStateGroup} (h : g.Valid scope v) :
    g.Within v :=
  ⟨h.hasDynamicTimelines.eq_absent⟩

theorem VisualState.Valid.within {groups : Nat} {s : VisualState}
    (h : s.Valid scope v groups) : s.Within v where
  propertySetters := h.propertySetters.eq_absent
  triggerValues := h.triggerValues.eq_absent
  triggerCollections := h.triggerCollections.eq_absent
  extensibleTriggers := h.extensibleTriggers.eq_absent
  staticResourceTriggers := h.staticResourceTriggers.eq_absent

theorem VisualStateGroups.Valid.within {d : VisualStateGroups} (h : d.Valid scope) :
    d.Within d.version where
  groups g hg := (h.groups.2 g hg).within
  states s hs := (h.states.2 s hs).within
  transitions := h.transitions.eq_absent
  unexpectedTokens := h.unexpectedTokens.eq_absent

theorem RuntimeData.Valid.within {d : RuntimeData} (h : d.Valid scope texts) :
    d.Within d.layout.version := by
  have hbody := h.2
  cases d with
  | visualStateGroups data => exact VisualStateGroups.Valid.within hbody
  | resourceDictionary data =>
      have hdata : data.Valid scope := hbody
      exact ⟨hdata.xNames.eq_absent, hdata.conditionalTokens.eq_absent⟩
  | style data =>
      have hdata : Counted (Setter.Valid scope texts data.version) data.setters := hbody
      intro s hs
      exact ⟨(hdata.2 s hs).isMutable.eq_absent⟩
  | deferredElement data =>
      have hdata : data.Valid scope texts := hbody
      exact ⟨hdata.realize.eq_absent, hdata.hasLoadBinding.eq_absent⟩

/-! ### What is valid stays valid in a later version -/

theorem VisualStateGroup.Valid.later {g : VisualStateGroup} (h : g.Valid scope v)
    (hvw : v ≤ w) : g.Valid scope w :=
  { h with hasDynamicTimelines := h.hasDynamicTimelines.later hvw trivial }

theorem VisualState.Valid.later {groups : Nat} {s : VisualState}
    (h : s.Valid scope v groups) (hvw : v ≤ w) : s.Valid scope w groups :=
  { h with
    propertySetters := h.propertySetters.later hvw .nil
    triggerValues := h.triggerValues.later hvw .nil
    triggerCollections := h.triggerCollections.later hvw .nil
    extensibleTriggers := h.extensibleTriggers.later hvw .nil
    staticResourceTriggers := h.staticResourceTriggers.later hvw .nil }

theorem VisualStateGroups.Valid.later {d : VisualStateGroups} (h : d.Valid scope)
    (hw : d.version ≤ w) : { d with version := w }.Valid scope where
  collection := h.collection
  groups := h.groups.imp fun _ _ hg => hg.later hw
  states := h.states.imp fun _ _ hs => hs.later hw
  transitions := h.transitions.later hw .nil
  seenNames := h.seenNames
  unexpectedTokens := h.unexpectedTokens.later hw trivial

theorem ResourceDictionary.Valid.later {d : ResourceDictionary} (h : d.Valid scope)
    (hw : d.version ≤ w) : { d with version := w }.Valid scope where
  explicitKeys := h.explicitKeys
  implicitKeys := h.implicitKeys
  xNames := h.xNames.later hw .nil
  conditionalTokens := h.conditionalTokens.later hw .nil

theorem Style.Valid.later {d : Style} (h : d.Valid scope texts) (hw : d.version ≤ w) :
    { d with version := w }.Valid scope texts :=
  Counted.imp h fun _ _ hs => { hs with isMutable := hs.isMutable.later hw trivial }

theorem DeferredElement.Valid.later {d : DeferredElement} (h : d.Valid scope texts)
    (hw : d.version ≤ w) : { d with version := w }.Valid scope texts where
  name := h.name
  properties := h.properties
  realize := h.realize.later hw trivial
  hasLoadBinding := h.hasLoadBinding.later hw trivial

theorem RuntimeData.Valid.later {d : RuntimeData} (h : d.Valid scope texts)
    (hw : d.layout.version ≤ w) (hlayout : ⟨d.layout.family, w⟩ ∈ RuntimeLayout.all) :
    (d.inVersion w).Valid scope texts := by
  refine ⟨by rwa [layout_inVersion], ?_⟩
  have hbody := h.2
  cases d with
  | visualStateGroups data => exact VisualStateGroups.Valid.later hbody hw
  | resourceDictionary data => exact ResourceDictionary.Valid.later hbody hw
  | style data => exact Style.Valid.later hbody hw
  | deferredElement data => exact DeferredElement.Valid.later hbody hw

/-! ### Reading in one version what was read in another -/

/-- The layout of what is read is the one whose number stands in front. -/
theorem Decoder.layout_of_run {layout : RuntimeLayout} {c m c' : Cursor} {d : RuntimeData}
    {first log : Log} (hlayout : layout ∈ RuntimeLayout.all)
    (hnumber : (varint "custom runtime data type").run c = .ok layout.number m first)
    (hrun : (runtimeData scope).run c = .ok d c' log) : d.layout = layout := by
  rw [runtimeData, run_position_bind, run_bind_eq_ok] at hrun
  obtain ⟨n, m', first', rest, hn, hbody, -⟩ := hrun
  obtain rfl : n = layout.number := by
    rw [hnumber] at hn
    cases hn
    rfl
  rw [RuntimeLayout.ofNumber?_number hlayout] at hbody
  exact ((reads_runtimeDataBody scope layout _ _ _ _).mp hbody).1.1

/-- What is written ahead of any bytes is read back, and the bytes are left. -/
theorem Decoder.run_runtimeData_written {d : RuntimeData}
    (h : d.Valid scope Utf16.Countable) (offset : Nat) (rest : List UInt8) :
    (runtimeData scope).run ⟨offset, d.written.bytes ++ rest⟩ =
      .ok d ⟨offset + d.written.bytes.length, rest⟩ d.log :=
  (reads_runtimeData scope _ _ _ _).mpr
    ⟨h, rfl, Cursor.spans_iff.mpr ⟨_, Written.spells_bytes _, rfl, rfl⟩⟩

/-- Data that was read in one version of a family has the layout whose number stands in front of
it and nothing that came after that version.  Written in any later version of the family, ahead of
whatever bytes, it is read back with only its version changed, and those bytes are left. -/
theorem runtimeData_upgrade (scope : Scope) (family : RuntimeFamily) (v w : Nat)
    (hv : ⟨family, v⟩ ∈ RuntimeLayout.all) (hw : ⟨family, w⟩ ∈ RuntimeLayout.all) (hvw : v ≤ w)
    (c m c' : Cursor) (d : RuntimeData) (first log : Log)
    (hnumber : (varint "custom runtime data type").run c =
      .ok (RuntimeLayout.number ⟨family, v⟩) m first)
    (hrun : (runtimeData scope).run c = .ok d c' log) :
    d.layout = ⟨family, v⟩ ∧ d.Within v ∧ (d.inVersion w).layout = ⟨family, w⟩ ∧
      ∀ offset rest, (runtimeData scope).run ⟨offset, (d.inVersion w).written.bytes ++ rest⟩ =
        .ok (d.inVersion w) ⟨offset + (d.inVersion w).written.bytes.length, rest⟩ log := by
  have hlayout : d.layout = ⟨family, v⟩ := layout_of_run hv hnumber hrun
  obtain ⟨hvalid, rfl, -⟩ := (reads_runtimeData scope _ _ _ _).mp hrun
  refine ⟨hlayout, ?_, by rw [RuntimeData.layout_inVersion, hlayout], fun offset rest => ?_⟩
  · have hwithin := hvalid.within
    rwa [hlayout] at hwithin
  · rw [← RuntimeData.log_inVersion d w]
    apply run_runtimeData_written
    apply hvalid.later
    · rw [hlayout]
      exact hvw
    · rwa [hlayout]

/-- One group and one state without a storyboard, from the first version to the last. -/
theorem runtimeData_upgrade_visualStateGroups :
    (runtimeData ⟨2, 0, 0, 0, false⟩).run (Cursor.start [0, 5, 1, 0, 6, 1, 1, 0, 0, 0]) =
        .ok (.visualStateGroups ⟨1, ⟨5⟩, [⟨⟨0⟩, ⟨6⟩, false⟩],
          [⟨⟨1⟩, 0, none, [], [], [], [], []⟩], [], [], false⟩) ⟨10, []⟩ [] ∧
      (runtimeData ⟨2, 0, 0, 0, false⟩).run
          (Cursor.start ([12, 5, 1, 0, 6, 0, 1, 1, 0, 0, 0, 0, 0, 0, 0, 0, 0, 0] ++ [9])) =
        .ok (.visualStateGroups ⟨5, ⟨5⟩, [⟨⟨0⟩, ⟨6⟩, false⟩],
          [⟨⟨1⟩, 0, none, [], [], [], [], []⟩], [], [], false⟩) ⟨18, [9]⟩ [] := by
  have hrun : (runtimeData ⟨2, 0, 0, 0, false⟩).run (Cursor.start [0, 5, 1, 0, 6, 1, 1, 0, 0, 0]) =
      .ok (.visualStateGroups ⟨1, ⟨5⟩, [⟨⟨0⟩, ⟨6⟩, false⟩],
        [⟨⟨1⟩, 0, none, [], [], [], [], []⟩], [], [], false⟩) ⟨10, []⟩ [] := by decide
  refine ⟨hrun, ?_⟩
  exact (runtimeData_upgrade _ .visualStateGroups 1 5 (by decide) (by decide) (by decide) _
    ⟨1, [5, 1, 0, 6, 1, 1, 0, 0, 0]⟩ _ _ [] _ (by decide) hrun).2.2.2 0 [9]

end XamlBinary
