import XamlBinary.Number.Shortest
import XamlBinary.Number.Single

/-!
The two texts of a single-precision number.  `Single.realText` writes it with
the digits of the double it widens to, as a number of JSON; `Single.plainText`
writes it with its own digits, never with an exponent.
-/

namespace XamlBinary

namespace Decimal

def digitText (d : Decimal) : String := String.ofList (Nat.toDigits 10 d.digits)

/-- The count of digits before the point; zero or less when a fraction starts with zeros. -/
def pointPosition (d : Decimal) : Int := (Nat.toDigits 10 d.digits).length + d.power

def zeros (n : Nat) : String := String.ofList (List.replicate n '0')

/-- Positional text; `whole` follows the digits of a number without a fraction. -/
def positional (whole : String) (d : Decimal) : String :=
  let digits := Nat.toDigits 10 d.digits
  let point := d.pointPosition
  if 0 ≤ d.power then d.digitText ++ zeros d.power.toNat ++ whole
  else if 0 < point then
    String.ofList (digits.take point.toNat) ++ "." ++ String.ofList (digits.drop point.toNat)
  else "0." ++ zeros (-point).toNat ++ d.digitText

/-- One digit, the others after a point if there are any, and a signed exponent. -/
def scientific (d : Decimal) : String :=
  let digits := Nat.toDigits 10 d.digits
  let exponent := d.pointPosition - 1
  let fraction :=
    if digits.length ≤ 1 then "" else "." ++ String.ofList (digits.drop 1)
  let sign := if exponent < 0 then "-" else "+"
  String.ofList (digits.take 1) ++ fraction ++ "e" ++ sign ++ toString exponent.natAbs

end Decimal

namespace Single

def sign (x : Single) : String := if x.isNegative then "-" else ""

/-- The digits of the double with the same value; a tie goes to the even digit. -/
def wideDigits (x : Single) : Decimal :=
  (Interval.ofBinary .double x.magnitude.1 x.magnitude.2).shortest .toEven

/-- The digits of the number itself; a tie goes up. -/
def ownDigits (x : Single) : Decimal :=
  (Interval.ofBinary .single x.magnitude.1 x.magnitude.2).shortest .up

/-- The text of a finite number in JSON: positional with a fraction from `1e-5` up to
below `1e16`, else with an exponent. -/
def realText (x : Single) : String :=
  if x.isZero then x.sign ++ "0.0"
  else
    let d := x.wideDigits
    let exponent := d.pointPosition - 1
    if -5 ≤ exponent ∧ exponent < 16 then x.sign ++ d.positional ".0"
    else x.sign ++ d.scientific

/-- The text of any number in plain digits; whole numbers have no fraction. -/
def plainText (x : Single) : String :=
  if x.isNaN then "NaN"
  else if !x.isFinite then x.sign ++ "inf"
  else if x.isZero then x.sign ++ "0"
  else x.sign ++ x.ownDigits.positional ""

end Single

end XamlBinary
