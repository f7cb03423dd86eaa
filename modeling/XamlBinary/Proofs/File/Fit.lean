import XamlBinary.Proofs.Metadata.Decode
import XamlBinary.Proofs.Node.Decode
import XamlBinary.Substream.Written

/-!
What a file can hold.  The sections of a file have sizes of 32 bits, and what
lies in a section takes up room there.  So the counts in front of tables and
texts, which have 31 bits, always suffice and need no conditions of their own.
-/

namespace XamlBinary

namespace Written

variable {α : Type} (item : α → Written) {items : List α} {k : Nat}

theorem length_bytes_append (v w : Written) :
    (v ++ w).bytes.length = v.bytes.length + w.bytes.length := by
  rw [bytes_append, List.length_append]

/-- What is written as an item of a list is no longer than the list. -/
theorem length_bytes_le_flatMap {a : α} (h : a ∈ items) :
    (item a).bytes.length ≤ (Written.bytes (items.flatMap item)).length := by
  rw [bytes_flatMap, List.flatMap_def]
  have hmem := List.mem_map_of_mem (f := fun a => (item a).bytes) h
  exact (List.sublist_flatten_of_mem hmem).length_le

theorem le_length_bytes_flatMap (h : ∀ a ∈ items, k ≤ (item a).bytes.length) :
    k * items.length ≤ (Written.bytes (items.flatMap item)).length := by
  induction items with
  | nil => exact Nat.zero_le _
  | cons a items ih =>
      obtain ⟨ha, hitems⟩ := List.forall_mem_cons.mp h
      have hrest := ih hitems
      rw [List.flatMap_cons, length_bytes_append, List.length_cons, Nat.mul_succ]
      omega

theorem length_bytes_table (items : List α) :
    (table item items).bytes.length = 4 + (Written.bytes (items.flatMap item)).length := by
  rw [table, length_bytes_append, length_bytes_word32]

theorem length_bytes_le_list {a : α} (h : a ∈ items) :
    (item a).bytes.length ≤ (list item items).bytes.length := by
  have hitem := length_bytes_le_flatMap item h
  rw [list, length_bytes_append]
  omega

/-- A text in less than 4 GiB has less than 2 Gi units. -/
theorem countable_of_length {s : String} (h : (text s).bytes.length < 2 ^ 32) :
    Utf16.Countable s := by
  have hunits : 2 * (Utf16.encode s.toList).length ≤ _ :=
    le_length_bytes_flatMap word16 fun unit _ => by simp [word16, LittleEndian.length_bytes]
  rw [text, length_bytes_table] at h
  rw [Utf16.Countable]
  omega

end Written

/-! ### Texts of literals -/

open Written

variable {scope : Scope} {texts : String → Prop}

theorem Constant.Valid.countable {c : Constant} (h : c.Valid scope texts)
    (hlength : c.written.bytes.length < 2 ^ 32) : c.Valid scope Utf16.Countable := by
  cases c with
  | uniqueString text =>
      rw [Constant.written, length_bytes_append] at hlength
      exact countable_of_length (Nat.lt_of_le_of_lt (Nat.le_add_left ..) hlength)
  | _ => exact h

theorem SetterValue.Valid.countable {v : SetterValue} (h : v.Valid scope texts)
    (hlength : v.written.bytes.length < 2 ^ 32) : v.Valid scope Utf16.Countable := by
  cases v with
  | constant value =>
      rw [SetterValue.written, length_bytes_append] at hlength
      exact Constant.Valid.countable h (Nat.lt_of_le_of_lt (Nat.le_add_left ..) hlength)
  | _ => exact h

theorem Setter.Valid.countable {version : Nat} {s : Setter} (h : s.Valid scope texts version)
    (hlength : (s.written version).bytes.length < 2 ^ 32) :
    s.Valid scope Utf16.Countable version := by
  rw [Setter.written, length_bytes_append, length_bytes_append] at hlength
  exact ⟨h.property, h.value.countable (by omega), h.isMutable⟩

theorem Style.Valid.countable {d : Style} (h : d.Valid scope texts)
    (hlength : d.written.bytes.length < 2 ^ 32) : d.Valid scope Utf16.Countable :=
  Counted.imp h fun _ hs hvalid =>
    hvalid.countable (Nat.lt_of_le_of_lt (length_bytes_le_list _ hs) hlength)

theorem EagerProperty.Valid.countable {p : EagerProperty} (h : p.Valid scope texts)
    (hlength : p.written.bytes.length < 2 ^ 32) : p.Valid scope Utf16.Countable := by
  rw [EagerProperty.written, length_bytes_append] at hlength
  exact ⟨h.property, h.value.countable (by omega)⟩

theorem DeferredElement.Valid.countable {d : DeferredElement} (h : d.Valid scope texts)
    (hlength : d.written.bytes.length < 2 ^ 32) : d.Valid scope Utf16.Countable := by
  simp only [DeferredElement.written, length_bytes_append] at hlength
  have hproperties : (list EagerProperty.written d.properties).bytes.length < 2 ^ 32 := by omega
  refine ⟨h.name, h.properties.imp fun p hp hvalid => ?_, h.realize, h.hasLoadBinding⟩
  exact hvalid.countable (Nat.lt_of_le_of_lt (length_bytes_le_list _ hp) hproperties)

theorem RuntimeData.Valid.countable {d : RuntimeData} (h : d.Valid scope texts)
    (hlength : d.written.bytes.length < 2 ^ 32) : d.Valid scope Utf16.Countable := by
  obtain ⟨hlayout, hbody⟩ := h
  rw [RuntimeData.written, length_bytes_append] at hlength
  have hlength : d.body.bytes.length < 2 ^ 32 := by omega
  refine ⟨hlayout, ?_⟩
  cases d with
  | visualStateGroups data => exact hbody
  | resourceDictionary data => exact hbody
  | style data => exact Style.Valid.countable hbody hlength
  | deferredElement data => exact DeferredElement.Valid.countable hbody hlength

theorem Node.Valid.countable {n : Node} (h : n.Valid scope texts)
    (hlength : n.written.bytes.length < 2 ^ 32) : n.Valid scope Utf16.Countable := by
  rw [Node.written, length_bytes_append] at hlength
  cases n with
  | value constant =>
      exact Constant.Valid.countable h (Nat.lt_of_le_of_lt (Nat.le_add_left ..) hlength)
  | runtimeData data substream =>
      rw [Node.body, length_bytes_append] at hlength
      exact ⟨h.1.countable (by omega), h.2⟩
  | _ => exact h

/-! ### Tables of metadata -/

theorem Written.size_lt_of_table {α : Type} (item : α → Written) {items : List α}
    (h : ∀ a, 4 ≤ (item a).bytes.length) (hlength : (table item items).bytes.length < 2 ^ 32) :
    items.length < 2 ^ 31 := by
  have hitems : 4 * items.length ≤ _ := le_length_bytes_flatMap item fun a _ => h a
  rw [length_bytes_table] at hlength
  omega

/-- Metadata of which all indices are in range is valid when it fits in a section. -/
theorem Metadata.valid_of_length {m : Metadata} (hlength : m.written.bytes.length < 2 ^ 32)
    (hin : ∀ r ∈ m.crossReferences, r.InRange) : m.Valid := by
  simp only [Metadata.written, length_bytes_append] at hlength
  have hstrings : (table text m.strings.toList).bytes.length < 2 ^ 32 := by omega
  refine ⟨⟨size_lt_of_table text (fun s => ?_) hstrings, fun s hs => countable_of_length ?_⟩,
    size_lt_of_table Assembly.written (fun a => ?_) (by omega),
    size_lt_of_table TypeNamespace.written (fun a => ?_) (by omega),
    size_lt_of_table TypeEntry.written (fun a => ?_) (by omega),
    size_lt_of_table PropertyEntry.written (fun a => ?_) (by omega),
    size_lt_of_table StringId.wide (fun a => ?_) (by omega), hin⟩
  · rw [text, length_bytes_table]
    exact Nat.le_add_right ..
  · have htext := length_bytes_le_flatMap text hs
    rw [length_bytes_table] at hstrings
    omega
  · rw [Assembly.written, length_bytes_append, length_bytes_word32]
    exact Nat.le_add_right ..
  · rw [TypeNamespace.written, length_bytes_append, length_bytes_word32]
    exact Nat.le_add_right ..
  · rw [TypeEntry.written, List.append_assoc, length_bytes_append, length_bytes_word32]
    exact Nat.le_add_right ..
  · rw [PropertyEntry.written, List.append_assoc, length_bytes_append, length_bytes_word32]
    exact Nat.le_add_right ..
  · rw [StringId.wide, length_bytes_word32]

end XamlBinary
