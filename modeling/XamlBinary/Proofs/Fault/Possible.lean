import XamlBinary.Fault

/-!
What can be wrong with plain data behind a header that was accepted.  Then
the sections fill the file: none of them is cut short, the table of
substreams cannot run over its end, and of the checks of where substreams
begin and end all but the first one are decided by the checks before them.
-/

namespace XamlBinary

/-- The runs of bytes that sections and their parts are read in. -/
def sectionNames : List String := ["metadata section", "node-stream", "line-stream"]

/-- Reasons that can come up.  That substreams end too early needs a table without any. -/
def DataFault.CanArise (emptyTable : Prop) : DataFault → Prop
  | shortRun what _ _ => what ∉ sectionNames
  | substreamTableOverflow _ _ => False
  | substreamStart index _ => index = 0
  | substreamsEnd _ _ => emptyTable
  | _ => True

namespace Fault

/-- Faults that can come up: data that is malformed, or an index that is out of range. -/
def CanArise (emptyTable : Prop) : Fault → Prop
  | malformed _ reason => reason.CanArise emptyTable
  | indexOutOfRange _ _ _ => True
  | invalidFormat _ _ | device _ _ _ => False

variable {p q : Prop} {fault : Fault}

theorem CanArise.mono (h : fault.CanArise p) (hpq : p → q) : fault.CanArise q := by
  cases fault with
  | malformed offset reason =>
      cases reason with
      | substreamsEnd position sectionEnd => exact hpq h
      | _ => exact h
  | _ => exact h

/-- The device has no part in it. -/
theorem CanArise.cause?_eq_none (h : fault.CanArise p) : fault.cause? = none := by
  cases fault with
  | device offset what cause => exact h.elim
  | _ => rfl

theorem CanArise.rebase (h : fault.CanArise p) (base : Nat) : (fault.rebase base).CanArise p := by
  cases fault <;> exact h

end Fault

end XamlBinary
