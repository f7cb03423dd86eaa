import Mathlib.Data.Nat.Bitwise
import XamlBinary.File.References
import XamlBinary.Proofs.Cursor.Primitive
import XamlBinary.Symbol.Written

/-!
References and string ids are read exactly.  What can be read in a scope is
said without any reader: a reference is valid when its index is where its
constructor says, and a string id when it is an index into the strings.
-/

namespace XamlBinary

open Reader

/-! ### What is valid in a scope -/

/-- The index of a reference is in the registry, in neither table, or in the file, just as
the reference says.  Indices have 15 bits, and a strict scope has no unknown ones. -/
def Ref.Valid (scope : Scope) {kind : SymbolKind} : Ref kind → Prop
  | known index => index.toNat < kind.registrySize
  | unknown index =>
      kind.registrySize ≤ index.toNat ∧ index.toNat < 0x8000 ∧ scope.strict = false
  | inFile index => index.toNat < scope.size kind ∧ index.toNat < 0x8000

/-- A string of the file, for ids that are written as 7-bit integers. -/
def StringId.Valid (scope : Scope) (id : StringId) : Prop :=
  id.index.toNat < scope.strings ∧ id.index.toNat < 2 ^ 31

/-- A string of the file, for ids that are written in the form of a reference. -/
def StringId.Packable (scope : Scope) (id : StringId) : Prop :=
  id.index.toNat < scope.strings ∧ id.index.toNat < 0x8000

/-- What reading a reference logs. -/
def Ref.log {kind : SymbolKind} (r : Ref kind) : Log := r.warning?.toList.map .warning

/-- What reading some references logs. -/
def AnyRef.log (refs : List AnyRef) : Log := (refs.filterMap AnyRef.warning?).map .warning

namespace AnyRef

@[simp] theorem log_nil : log [] = [] := rfl

@[simp] theorem log_append (first second : List AnyRef) :
    log (first ++ second) = log first ++ log second := by
  simp [log]

theorem log_cons (r : AnyRef) (refs : List AnyRef) :
    log (r :: refs) = r.warning?.toList.map .warning ++ log refs := by
  rw [log, List.filterMap_cons]
  cases r.warning? <;> rfl

@[simp] theorem log_type (r : Ref .type) (refs : List AnyRef) :
    log (.type r :: refs) = r.log ++ log refs := log_cons ..

@[simp] theorem log_property (r : Ref .property) (refs : List AnyRef) :
    log (.property r :: refs) = r.log ++ log refs := log_cons ..

@[simp] theorem log_xmlNamespace (r : Ref .xmlNamespace) (refs : List AnyRef) :
    log (.xmlNamespace r :: refs) = r.log ++ log refs := log_cons ..

theorem log_flatMap {α : Type} (references : α → List AnyRef) (items : List α) :
    log (items.flatMap references) = items.flatMap fun a => log (references a) := by
  induction items with
  | nil => rfl
  | cons a items ih => rw [List.flatMap_cons, log_append, ih, List.flatMap_cons]

end AnyRef

/-! ### The 16-bit form -/

namespace PackedRef

theorem toNat_index_ofWord (word : UInt16) : (ofWord word).index.toNat = word.toNat % 0x8000 := by
  have hmask : (0x7FFF : UInt16).toNat = 2 ^ 15 - 1 := rfl
  rw [ofWord, UInt16.toNat_and, hmask, Nat.and_two_pow_sub_one_eq_mod]

theorem trusted_ofWord (word : UInt16) : (ofWord word).trusted = decide (0x8000 ≤ word.toNat) := by
  have hlt := word.toNat_lt
  have hmask : trustBit.toNat = 2 ^ 15 := rfl
  have hand : (word &&& trustBit).toNat = (word.toNat.testBit 15).toNat * 2 ^ 15 := by
    rw [UInt16.toNat_and, hmask, Nat.and_two_pow]
  have hbit : word.toNat.testBit 15 = decide (0x8000 ≤ word.toNat) := by
    rw [Nat.testBit_eq_decide_div_mod_eq, decide_eq_decide]
    omega
  rw [ofWord, ← hbit]
  cases hword : word.toNat.testBit 15 with
  | false =>
      have hzero : word &&& trustBit = 0 := UInt16.toNat_inj.mp (by rw [hand, hword]; rfl)
      simp [hzero]
  | true =>
      have hone : word &&& trustBit = 0x8000 := UInt16.toNat_inj.mp (by rw [hand, hword]; rfl)
      simp [hone]

theorem toNat_toWord {ref : PackedRef} (h : ref.index.toNat < 0x8000) :
    ref.toWord.toNat = ref.index.toNat + if ref.trusted then 0x8000 else 0 := by
  obtain ⟨index, trusted⟩ := ref
  cases trusted with
  | false => rfl
  | true =>
      have hbit : trustBit.toNat = 2 ^ 15 := rfl
      have hadd := Nat.two_pow_add_eq_or_of_lt (i := 15) h 1
      -- the bit is above the index, so setting it adds it
      rw [toWord, if_pos rfl, UInt16.toNat_or, hbit, Nat.or_comm, ← Nat.mul_one (2 ^ 15), ← hadd,
        if_pos rfl]
      exact Nat.add_comm ..

theorem toWord_ofWord (word : UInt16) : (ofWord word).toWord = word := by
  have hindex := toNat_index_ofWord word
  have hlt := word.toNat_lt
  apply UInt16.toNat_inj.mp
  rw [toNat_toWord (by omega), hindex, trusted_ofWord]
  by_cases h : 0x8000 ≤ word.toNat
  · rw [decide_eq_true h, if_pos rfl]
    omega
  · rw [decide_eq_false h, if_neg (by decide)]
    omega

theorem eq_of_toNat {first second : PackedRef}
    (hindex : first.index.toNat = second.index.toNat) (htrusted : first.trusted = second.trusted) :
    first = second := by
  cases first
  cases second
  rw [PackedRef.mk.injEq]
  exact ⟨UInt16.toNat_inj.mp hindex, htrusted⟩

theorem ofWord_toWord {ref : PackedRef} (h : ref.index.toNat < 0x8000) :
    ofWord ref.toWord = ref := by
  have hword := toNat_toWord h
  apply eq_of_toNat
  · rw [toNat_index_ofWord, hword]
    split <;> omega
  · rw [trusted_ofWord, hword]
    cases ref.trusted with
    | false =>
        rw [if_neg (by decide)]
        exact decide_eq_false (by omega)
    | true =>
        rw [if_pos rfl]
        exact decide_eq_true (by omega)

theorem toWord_eq_iff {ref : PackedRef} (h : ref.index.toNat < 0x8000) {word : UInt16} :
    ref.toWord = word ↔ ref = ofWord word := by
  constructor
  · rintro rfl
    exact (ofWord_toWord h).symm
  · rintro rfl
    exact toWord_ofWord word

theorem index_ofWord_lt (word : UInt16) : (ofWord word).index.toNat < 0x8000 := by
  rw [toNat_index_ofWord]
  exact Nat.mod_lt _ (by decide)

end PackedRef

theorem Ref.Valid.index_lt {scope : Scope} {kind : SymbolKind} {r : Ref kind}
    (h : r.Valid scope) : r.packed.index.toNat < 0x8000 := by
  cases r with
  | known index =>
      have hsize : kind.registrySize < 0x8000 := by cases kind <;> decide
      exact Nat.lt_trans h hsize
  | unknown index => exact h.2.1
  | inFile index => exact h.2

/-! ### Reading -/

namespace Decoder

theorem reads_resolve (scope : Scope) (kind : SymbolKind) {word : PackedRef}
    (hword : word.index.toNat < 0x8000) :
    Reads (scope.resolve kind word : Decoder (Ref kind)) (fun _ => [])
      (fun r => r.Valid scope ∧ r.packed = word) Ref.log := by
  obtain ⟨index, trusted⟩ := word
  intro c r c' log
  rw [spans_nil_iff, Scope.resolve]
  -- index and trust are fixed, so in each case one constructor of `Ref` is left
  cases trusted with
  | true =>
      rw [if_pos rfl]
      split
      · rename_i hknown
        rw [run_pure_eq_ok]
        constructor
        · rintro ⟨rfl, rfl, rfl⟩
          exact ⟨⟨hknown, rfl⟩, rfl, rfl⟩
        · rintro ⟨⟨hvalid, hpacked⟩, rfl, rfl⟩
          cases r <;> cases hpacked
          · exact ⟨rfl, rfl, rfl⟩
          · exact absurd hknown (Nat.not_lt.mpr hvalid.1)
      · rename_i hunknown
        split
        · rename_i hstrict
          constructor
          · rintro ⟨⟩
          · rintro ⟨⟨hvalid, hpacked⟩, -, -⟩
            cases r <;> cases hpacked
            · exact absurd hvalid hunknown
            · rw [hvalid.2.2] at hstrict
              cases hstrict
        · rename_i hlenient
          rw [run_bind_ok (run_warn ..), run_pure]
          constructor
          · rintro ⟨⟩
            exact ⟨⟨⟨Nat.not_lt.mp hunknown, hword, by simpa using hlenient⟩, rfl⟩, rfl, rfl⟩
          · rintro ⟨⟨hvalid, hpacked⟩, rfl, rfl⟩
            cases r <;> cases hpacked
            · exact absurd hvalid hunknown
            · rfl
  | false =>
      rw [if_neg Bool.false_ne_true]
      split
      · rename_i hin
        rw [run_pure_eq_ok]
        constructor
        · rintro ⟨rfl, rfl, rfl⟩
          exact ⟨⟨⟨hin, hword⟩, rfl⟩, rfl, rfl⟩
        · rintro ⟨⟨hvalid, hpacked⟩, rfl, rfl⟩
          cases r <;> cases hpacked
          exact ⟨rfl, rfl, rfl⟩
      · rename_i hout
        constructor
        · rintro ⟨⟩
        · rintro ⟨⟨hvalid, hpacked⟩, -, -⟩
          cases r <;> cases hpacked
          exact absurd hvalid.1 hout

theorem reads_ref (scope : Scope) (kind : SymbolKind) (what : String) :
    Reads (ref scope kind what) Ref.written (Ref.Valid scope) Ref.log := by
  refine Reads.lead (fun r => r.packed.toWord) (reads_uint16 what) (v := fun _ => []) ?_
    (fun _ _ => trivial) fun _ _ => (List.append_nil _).symm
  intro word _
  have hresolve := reads_resolve scope kind (PackedRef.index_ofWord_lt word)
  refine hresolve.congr (fun r => ?_) (fun _ _ => rfl) fun _ _ => rfl
  rw [and_comm]
  exact and_congr_right fun h => PackedRef.toWord_eq_iff h.index_lt

theorem reads_stringRef (scope : Scope) (what : String) :
    Reads (stringRef scope what) StringId.packed (StringId.Packable scope) fun _ => [] := by
  refine Reads.position fun start => Reads.lead (fun id => id.index.toUInt16) (reads_uint16 what)
    (v := fun _ => []) ?_ (fun _ _ => trivial) fun _ _ => (List.append_nil _).symm
  intro word _
  have hindex := PackedRef.toNat_index_ofWord word
  have htrusted := PackedRef.trusted_ofWord word
  have hlt := word.toNat_lt
  -- no bits of an index that can be packed are lost
  have hword : ∀ id : StringId, id.Packable scope →
      id.index.toUInt16.toNat = id.index.toNat := by
    rintro id ⟨-, hpack⟩
    rw [UInt32.toNat_toUInt16, Nat.mod_eq_of_lt (by omega)]
  refine Reads.ite (fun hbit => Reads.fail ?_) fun hbit =>
    Reads.ite (fun hin => Reads.pure ?_) fun hout => Reads.fail ?_
  · rintro id ⟨rfl, hid⟩
    rw [htrusted, decide_eq_true_iff, hword id hid] at hbit
    exact absurd hid.2 (by omega)
  · intro id
    rw [htrusted, decide_eq_true_iff] at hbit
    constructor
    · rintro ⟨rfl, hid⟩
      have hsame : id.index = (PackedRef.ofWord id.index.toUInt16).index.toUInt32 := by
        apply UInt32.toNat_inj.mp
        rw [UInt16.toNat_toUInt32, hindex, hword id hid, Nat.mod_eq_of_lt hid.2]
      rw [← hsame]
    · rintro rfl
      refine ⟨UInt16.toNat_inj.mp ?_, ?_, ?_⟩
      · rw [UInt16.toUInt16_toUInt32, hindex]
        omega
      · rwa [UInt16.toNat_toUInt32]
      · rw [UInt16.toNat_toUInt32, hindex]
        omega
  · rintro id ⟨rfl, hid⟩
    refine hout ?_
    rw [hindex, hword id hid]
    exact Nat.lt_of_le_of_lt (Nat.mod_le ..) hid.1

theorem reads_checkedStringId (scope : Scope) (start : Nat) (number : Int32) :
    Reads (scope.stringId start number : Decoder StringId) (fun _ => [])
      (fun id => id.index.toInt32 = number ∧ id.Valid scope) fun _ => [] := by
  refine Reads.ite (fun hneg => Reads.fail ?_) fun hneg =>
    Reads.ite (fun hin => Reads.pure ?_) fun hout => Reads.fail ?_
  · rintro id ⟨rfl, -, hlt⟩
    rw [int32_neg_iff, UInt32.toUInt32_toInt32] at hneg
    omega
  · intro id
    rw [toNatClampNeg_of_not_neg hneg] at hin
    rw [int32_neg_iff] at hneg
    constructor
    · rintro ⟨rfl, -⟩
      rw [UInt32.toUInt32_toInt32]
    · rintro rfl
      exact ⟨Int32.toInt32_toUInt32 number, hin, Nat.not_le.mp hneg⟩
  · rintro id ⟨rfl, hin, -⟩
    rw [toNatClampNeg_of_not_neg hneg, UInt32.toUInt32_toInt32] at hout
    exact hout hin

theorem reads_stringId (scope : Scope) (what : String) :
    Reads (stringId scope what) StringId.written (StringId.Valid scope) fun _ => [] := by
  exact Reads.position fun start => Reads.lead (fun id => id.index.toInt32) (reads_varint what)
    (fun number _ => reads_checkedStringId scope start number) (fun _ _ => trivial)
    fun _ _ => (List.append_nil _).symm

theorem reads_stringId? (scope : Scope) (what : String) :
    Reads (stringId? scope what) StringId.optional (fun o => ∀ id ∈ o, id.Valid scope)
      fun _ => [] := by
  refine Reads.position fun start => Reads.lead
    (fun o => o.elim 0 fun id => id.index.toInt32 + 1) (reads_varint what) (v := fun _ => []) ?_
    (fun _ _ => trivial) ?_
  · intro number _
    refine Reads.ite (fun hzero => Reads.pure ?_) fun hnonzero =>
      Reads.map (reads_checkedStringId scope start (number - 1)) ?_ (fun _ _ => rfl)
        fun _ _ => rfl
    · intro o
      constructor
      · rintro ⟨hnumber, hvalid⟩
        cases o with
        | none => rfl
        | some id =>
            -- an id of 31 bits is not the one whose successor wraps around to zero
            have hlt := (hvalid id rfl).2
            have hsum := congrArg (fun n : Int32 => n.toUInt32.toNat) (hnumber.trans hzero)
            simp only [Option.elim_some, Int32.toUInt32_add, UInt32.toUInt32_toInt32,
              UInt32.toNat_add] at hsum
            have hone : (1 : Int32).toUInt32.toNat = 1 := rfl
            have hnil : (0 : Int32).toUInt32.toNat = 0 := rfl
            omega
      · rintro rfl
        exact ⟨hzero.symm, fun id hid => (Option.not_mem_none id hid).elim⟩
    · intro o
      constructor
      · rintro ⟨hnumber, hvalid⟩
        cases o with
        | none => exact absurd hnumber.symm hnonzero
        | some id =>
            refine ⟨id, ⟨?_, hvalid id rfl⟩, rfl⟩
            rw [← hnumber, Option.elim_some, Int32.add_sub_cancel]
      · rintro ⟨id, ⟨hnumber, hvalid⟩, rfl⟩
        refine ⟨?_, by rintro _ ⟨⟩; exact hvalid⟩
        rw [Option.elim_some, hnumber, Int32.sub_add_cancel]
  · intro o _
    cases o <;> rfl

end Decoder

end XamlBinary
