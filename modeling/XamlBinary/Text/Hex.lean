/-!
Hexadecimal text of natural numbers, padded with zeros to a given width.
-/

namespace XamlBinary.Hex

/-- The digit characters of a number in base sixteen, at least `width` of them. -/
def lower (width n : Nat) : String :=
  let digits := Nat.toDigits 16 n
  String.ofList (List.replicate (width - digits.length) '0' ++ digits)

/-- As `lower`, with the letters in upper case. -/
def upper (width n : Nat) : String := (lower width n).toUpper

end XamlBinary.Hex
