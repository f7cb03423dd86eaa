import XamlBinary.Constant.Decode
import XamlBinary.Constant.Written
import XamlBinary.Proofs.Symbol.Scope

/-!
Literals are read exactly.
-/

namespace XamlBinary

open Reader

/-- A literal that is valid in a scope: so is its reference or string id, and a text of its
own satisfies `texts`. -/
def Constant.Valid (scope : Scope) (texts : String → Prop) : Constant → Prop
  | enumeration type _ => type.Valid scope
  | sharedString id => id.Packable scope
  | uniqueString text => texts text
  | nullString | bool _ | color _ | float _ | gridLength _ _ | signed _ | thickness _ => True

/-- What reading a literal logs. -/
def Constant.log (c : Constant) : Log := AnyRef.log c.references

theorem ConstantKind.tag_of_ofTag? {t : UInt8} {kind : ConstantKind} (h : ofTag? t = some kind) :
    kind.tag = t := by
  obtain ⟨hlt, hget⟩ := List.getElem?_eq_some_iff.mp h
  have hall : ∀ (i : Nat) (hi : i < all.length), (all[i]).tag.toNat = i := by decide
  rw [← hget]
  exact UInt8.toNat_inj.mp (hall _ hlt)

theorem GridUnit.number_of_ofNumber? {n : UInt32} {unit : GridUnit}
    (h : ofNumber? n = some unit) : unit.number = n := by
  obtain ⟨hlt, hget⟩ := List.getElem?_eq_some_iff.mp h
  have hall : ∀ (i : Nat) (hi : i < [auto, pixel, star].length),
      ([auto, pixel, star][i]).number.toNat = i := by decide
  rw [← hget]
  exact UInt32.toNat_inj.mp (hall _ hlt)

namespace Decoder

theorem reads_gridUnit :
    Reads gridUnit (fun unit => .word32 unit.number) (fun _ => True) fun _ => [] := by
  refine (Reads.tagged (fun unit => unit) GridUnit.number Pure.pure (reads_uint32 _) ?_ ?_
    (fun _ unit _ => Reads.pure fun other => and_iff_left trivial)
    (fun _ _ => GridUnit.number_of_ofNumber?)
    fun unit _ => GridUnit.ofNumber?_number unit).congr (fun _ => Iff.rfl)
      (fun _ _ => (List.append_nil _).symm) fun _ _ => rfl
  · intro start n unit h
    simp only [h]
  · intro start n h
    simp only [h]
    exact ⟨_, rfl⟩

theorem reads_thickness :
    Reads thickness
      (fun t => t.left.written ++ t.top.written ++ t.right.written ++ t.bottom.written)
      (fun _ => True) fun _ => [] := by
  refine Reads.record (Reads.field Thickness.left (reads_single _) fun left =>
    Reads.field Thickness.top (reads_single _) fun top =>
    Reads.field Thickness.right (reads_single _) fun right =>
    Reads.field Thickness.bottom (reads_single _) fun bottom =>
    Reads.made ⟨rfl, rfl, rfl, rfl, trivial⟩ ?_) ?_ ?_ fun _ => rfl
  · rintro t ⟨rfl, rfl, rfl, rfl, -⟩
    rfl
  · simp
  · intro t
    simp [Single.written]

theorem reads_constantBody (scope : Scope) (kind : ConstantKind) :
    Reads (constantBody scope kind) Constant.body
      (fun c => c.kind = kind ∧ c.Valid scope Utf16.Countable) Constant.log := by
  cases kind with
  | enumeration =>
      refine Reads.pair (reads_ref scope .type _) (reads_uint32 _) ?_ (fun _ _ => rfl)
        fun _ _ => AnyRef.log_type ..
      intro c
      cases c with
      | bool b => cases b <;> simp [Constant.kind]
      | _ => simp [Constant.kind, Constant.Valid]
  | nullString =>
      refine Reads.only ?_ rfl rfl
      intro c
      cases c with
      | bool b => cases b <;> simp [Constant.kind, Constant.Valid]
      | _ => simp [Constant.kind, Constant.Valid]
  | boolFalse =>
      refine Reads.only ?_ rfl rfl
      intro c
      cases c with
      | bool b => cases b <;> simp [Constant.kind, Constant.Valid]
      | _ => simp [Constant.kind, Constant.Valid]
  | boolTrue =>
      refine Reads.only ?_ rfl rfl
      intro c
      cases c with
      | bool b => cases b <;> simp [Constant.kind, Constant.Valid]
      | _ => simp [Constant.kind, Constant.Valid]
  | color =>
      refine Reads.map (reads_uint32 _) ?_ (fun _ _ => rfl) fun _ _ => rfl
      intro c
      cases c with
      | bool b => cases b <;> simp [Constant.kind]
      | _ => simp [Constant.kind, Constant.Valid]
  | float =>
      refine Reads.map (reads_single _) ?_ (fun _ _ => rfl) fun _ _ => rfl
      intro c
      cases c with
      | bool b => cases b <;> simp [Constant.kind]
      | _ => simp [Constant.kind, Constant.Valid]
  | gridLength =>
      refine Reads.pair reads_gridUnit (reads_single _) ?_ (fun _ _ => rfl) fun _ _ => rfl
      intro c
      cases c with
      | bool b => cases b <;> simp [Constant.kind]
      | _ => simp [Constant.kind, Constant.Valid]
  | sharedString =>
      refine Reads.map (reads_stringRef scope _) ?_ (fun _ _ => rfl) fun _ _ => rfl
      intro c
      cases c with
      | bool b => cases b <;> simp [Constant.kind]
      | _ => simp [Constant.kind, Constant.Valid]
  | signed =>
      refine Reads.map (reads_int32 _) ?_ (fun _ _ => rfl) fun _ _ => rfl
      intro c
      cases c with
      | bool b => cases b <;> simp [Constant.kind]
      | _ => simp [Constant.kind, Constant.Valid]
  | thickness =>
      refine Reads.map (reads_thickness) ?_ (fun _ _ => rfl) fun _ _ => rfl
      intro c
      cases c with
      | bool b => cases b <;> simp [Constant.kind]
      | _ => simp [Constant.kind, Constant.Valid]
  | uniqueString =>
      refine Reads.map (reads_string _) ?_ (fun _ _ => rfl) fun _ _ => rfl
      intro c
      cases c with
      | bool b => cases b <;> simp [Constant.kind]
      | _ => simp [Constant.kind, Constant.Valid]

theorem reads_constant (scope : Scope) :
    Reads (constant scope) Constant.written (Constant.Valid scope Utf16.Countable)
      Constant.log := by
  refine Reads.tagged Constant.kind ConstantKind.tag (constantBody scope) (reads_byte _) ?_ ?_
    (fun _ kind _ => reads_constantBody scope kind) (fun _ _ => ConstantKind.tag_of_ofTag?)
    fun c _ => ConstantKind.ofTag?_tag c.kind
  · intro start t kind h
    simp only [h]
  · intro start t h
    simp only [h]
    exact ⟨_, rfl⟩

end Decoder

end XamlBinary
