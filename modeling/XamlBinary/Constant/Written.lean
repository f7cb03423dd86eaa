import XamlBinary.Constant.Basic
import XamlBinary.Symbol.Written

/-!
How literals are written: a tag, then what its kind calls for.
-/

namespace XamlBinary

def Single.written (x : Single) : Written := .word32 x.bits

namespace Constant

/-- What follows the tag. -/
def body : Constant → Written
  | enumeration type value => type.written ++ .word32 value
  | nullString => []
  | bool _ => []
  | color argb => .word32 argb
  | float value => value.written
  | gridLength unit value => .word32 unit.number ++ value.written
  | sharedString id => id.packed
  | signed value => .word32 value.toUInt32
  | thickness t => t.left.written ++ t.top.written ++ t.right.written ++ t.bottom.written
  | uniqueString text => .text text

def written (c : Constant) : Written := .byte c.kind.tag ++ c.body

end Constant

end XamlBinary
