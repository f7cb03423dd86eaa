/-!
The fewest decimal digits that read back as a given binary number.

A binary number is the centre of the interval of reals that round to it.
`Interval.shortest` takes the coarsest power of ten that has a multiple in
the interval, and of the multiples there the one next to the centre.  All
arithmetic is exact, on natural numbers.
-/

namespace XamlBinary

/-- A digit string with its scale: the number `digits * 10 ^ power`. -/
structure Decimal where
  digits : Nat
  power : Int
deriving DecidableEq, Repr

/-- Which of two equally near decimals is taken. -/
inductive Tie where
  | toEven
  | up
deriving DecidableEq, Repr

/-- A binary floating-point format: significands have `precision` bits, and the
last of them counts at least `2 ^ minExponent`. -/
structure BinaryFormat where
  precision : Nat
  minExponent : Int
deriving DecidableEq, Repr

namespace BinaryFormat

def single : BinaryFormat := ⟨24, -149⟩

def double : BinaryFormat := ⟨53, -1074⟩

end BinaryFormat

/-- The reals that round to one binary number, in units of `2 ^ scale`; the ends
belong to it when `closed` is set. -/
structure Interval where
  low : Nat
  centre : Nat
  high : Nat
  scale : Int
  closed : Bool
deriving DecidableEq, Repr

namespace Interval

/-- The interval of the number `m * 2 ^ q` in a format that can hold it.  Half a
unit of the last place lies on each side, a quarter below a power of two; ties
round to an even significand, so the ends belong to the even ones. -/
def ofBinary (format : BinaryFormat) (m : Nat) (q : Int) : Interval :=
  let shift := min (format.precision - (m.log2 + 1)) (q - format.minExponent).toNat
  let significand := m * Nat.pow 2 shift
  let exponent := q - shift
  let below :=
    if significand = Nat.pow 2 (format.precision - 1) ∧ format.minExponent < exponent then 1 else 2
  { low := 4 * significand - below
    centre := 4 * significand
    high := 4 * significand + 2
    scale := exponent - 2
    closed := significand % 2 = 0 }

/-- The multiple of `10 ^ power` in the interval that is nearest to its centre. -/
def nearest? (range : Interval) (tie : Tie) (power : Int) : Option Nat :=
  let unit := Nat.pow 2 range.scale.toNat * Nat.pow 10 (-power).toNat
  let step := Nat.pow 2 (-range.scale).toNat * Nat.pow 10 power.toNat
  let centre := range.centre * unit
  let floor := centre / step
  let holds (n : Nat) : Bool :=
    if range.closed then range.low * unit ≤ n * step && n * step ≤ range.high * unit
    else range.low * unit < n * step && n * step < range.high * unit
  let fromFloor := centre - floor * step
  let toNext := (floor + 1) * step - centre
  match holds floor, holds (floor + 1) with
  | false, false => none
  | true, false => some floor
  | false, true => some (floor + 1)
  | true, true =>
      if fromFloor < toNext then some floor
      else if toNext < fromFloor then some (floor + 1)
      else match tie with
        | .up => some (floor + 1)
        | .toEven => some (if floor % 2 = 0 then floor else floor + 1)

/-- Tries `power`, then the next lower powers, `tries` of them in all. -/
def shortestFrom (range : Interval) (tie : Tie) (power : Int) : Nat → Decimal
  | 0 => ⟨0, power⟩
  | tries + 1 =>
      match range.nearest? tie power with
      | some digits => ⟨digits, power⟩
      | none => shortestFrom range tie (power - 1) tries

/-- The decimal with the fewest digits in the interval.  The search starts at a
power of ten above the whole interval and ends at one below its width. -/
def shortest (range : Interval) (tie : Tie) : Decimal :=
  let top : Int := (range.scale + range.high.log2 + 1).toNat
  let bottom : Int := min 0 range.scale
  range.shortestFrom tie top ((top - bottom).toNat + 1)

end Interval

end XamlBinary
