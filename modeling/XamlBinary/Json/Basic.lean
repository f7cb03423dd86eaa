import XamlBinary.Number.Single

/-!
Values of JSON.  Objects keep their fields in the order in which they were
given; numbers are whole numbers or single-precision reals.
-/

namespace XamlBinary

inductive Json where
  | null
  | bool (value : Bool)
  | int (value : Int)
  | real (value : Single)
  | str (value : String)
  | arr (items : List Json)
  | obj (fields : List (String × Json))
deriving Inhabited

namespace Json

/-- A string, or null when there is none. -/
def ofString? : Option String → Json
  | some text => .str text
  | none => .null

def ofUInt32 (n : UInt32) : Json := .int n.toNat

end Json

end XamlBinary
