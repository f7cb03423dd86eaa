import XamlBinary.Constant.Basic
import XamlBinary.Symbol.Scope

/-!
Decoding of literals: a tag, then what its kind calls for.
-/

namespace XamlBinary.Decoder

open Reader

def gridUnit : Decoder GridUnit := do
  let start ← position
  let number ← uint32 "grid unit type"
  match GridUnit.ofNumber? number with
  | some unit => pure unit
  | none => malformed start (.unknownGridUnit number)

def thickness : Decoder Thickness := do
  let left ← single "thickness left"
  let top ← single "thickness top"
  let right ← single "thickness right"
  let bottom ← single "thickness bottom"
  pure { left, top, right, bottom }

/-- The part of a literal that follows its tag. -/
def constantBody (scope : Scope) : ConstantKind → Decoder Constant
  | .enumeration => do
      let type ← ref scope .type "enum type"
      let value ← uint32 "enum value"
      pure (.enumeration type value)
  | .nullString => pure .nullString
  | .boolFalse => pure (.bool false)
  | .boolTrue => pure (.bool true)
  | .color => .color <$> uint32 "color"
  | .float => .float <$> single "float"
  | .gridLength => do
      let unit ← gridUnit
      let value ← single "grid length"
      pure (.gridLength unit value)
  | .sharedString => .sharedString <$> stringRef scope "shared string"
  | .signed => .signed <$> int32 "signed"
  | .thickness => .thickness <$> thickness
  | .uniqueString => .uniqueString <$> string "unique string"

def constant (scope : Scope) : Decoder Constant := do
  let start ← position
  let tag ← byte "constant type"
  match ConstantKind.ofTag? tag with
  | some kind => constantBody scope kind
  | none => malformed start (.unknownConstantKind tag)

end XamlBinary.Decoder
