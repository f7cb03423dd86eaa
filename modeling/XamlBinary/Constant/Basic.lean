import XamlBinary.Number.Single
import XamlBinary.Symbol.Reference

/-!
Literal values.
-/

namespace XamlBinary

/-- The kinds of literals, as their tags tell them apart. -/
inductive ConstantKind where
  | enumeration
  | nullString
  | boolFalse
  | boolTrue
  | color
  | float
  | gridLength
  | sharedString
  | signed
  | thickness
  | uniqueString
deriving DecidableEq, Repr

namespace ConstantKind

/-- The kinds in the order of their tags. -/
def all : List ConstantKind :=
  [enumeration, nullString, boolFalse, boolTrue, color, float, gridLength, sharedString, signed,
    thickness, uniqueString]

def ofTag? (tag : UInt8) : Option ConstantKind := all[tag.toNat]?

def tag : ConstantKind → UInt8
  | enumeration => 0
  | nullString => 1
  | boolFalse => 2
  | boolTrue => 3
  | color => 4
  | float => 5
  | gridLength => 6
  | sharedString => 7
  | signed => 8
  | thickness => 9
  | uniqueString => 10

@[simp] theorem ofTag?_tag (kind : ConstantKind) : ofTag? kind.tag = some kind := by
  cases kind <;> rfl

end ConstantKind

/-- How the number of a grid length is meant. -/
inductive GridUnit where
  | auto
  | pixel
  | star
deriving DecidableEq, Repr

namespace GridUnit

def ofNumber? (number : UInt32) : Option GridUnit := [auto, pixel, star][number.toNat]?

def number : GridUnit → UInt32
  | auto => 0
  | pixel => 1
  | star => 2

@[simp] theorem ofNumber?_number (unit : GridUnit) : ofNumber? unit.number = some unit := by
  cases unit <;> rfl

end GridUnit

structure Thickness where
  left : Single
  top : Single
  right : Single
  bottom : Single
deriving DecidableEq, BEq, Repr

/-- A literal.  Equality of literals with `==` compares floats as numbers. -/
inductive Constant where
  | enumeration (type : Ref .type) (value : UInt32)
  | nullString
  | bool (value : Bool)
  /-- Alpha, red, green and blue, a byte each, from the top down. -/
  | color (argb : UInt32)
  | float (value : Single)
  | gridLength (unit : GridUnit) (value : Single)
  | sharedString (id : StringId)
  | signed (value : Int32)
  | thickness (value : Thickness)
  | uniqueString (text : String)
deriving DecidableEq, BEq, Repr

def Constant.kind : Constant → ConstantKind
  | enumeration _ _ => .enumeration
  | nullString => .nullString
  | bool value => if value then .boolTrue else .boolFalse
  | color _ => .color
  | float _ => .float
  | gridLength _ _ => .gridLength
  | sharedString _ => .sharedString
  | signed _ => .signed
  | thickness _ => .thickness
  | uniqueString _ => .uniqueString

end XamlBinary
