/-!
Single-precision numbers, kept as their bit pattern.  Two of them are the
same (`=`) when their bits are; they are equal as numbers (`==`) when neither
is a NaN and they denote the same value, so that both zeros are equal.
-/

namespace XamlBinary

/-- A number of IEEE 754 binary32, given by its bits. -/
structure Single where
  bits : UInt32
deriving DecidableEq, Repr, Inhabited

namespace Single

def isNegative (x : Single) : Bool := 0x80000000 ≤ x.bits.toNat

/-- The biased exponent. -/
def exponentField (x : Single) : Nat := x.bits.toNat / 0x800000 % 0x100

def fractionField (x : Single) : Nat := x.bits.toNat % 0x800000

def isFinite (x : Single) : Bool := x.exponentField != 255

def isNaN (x : Single) : Bool := x.exponentField == 255 && x.fractionField != 0

def isZero (x : Single) : Bool := x.bits.toNat % 0x80000000 == 0

/-- The pair `(m, q)` for which a finite number has the absolute value `m * 2 ^ q`. -/
def magnitude (x : Single) : Nat × Int :=
  if x.exponentField = 0 then (x.fractionField, -149)
  else (0x800000 + x.fractionField, (x.exponentField : Int) - 150)

/-- Equality of numbers: a NaN equals nothing, and the two zeros are equal. -/
instance : BEq Single where
  beq x y := !x.isNaN && !y.isNaN && (x.bits == y.bits || (x.isZero && y.isZero))

theorem beq_self_iff (x : Single) : (x == x) = true ↔ x.isNaN = false := by
  show (!x.isNaN && !x.isNaN && (x.bits == x.bits || (x.isZero && x.isZero))) = true ↔ _
  cases x.isNaN <;> simp

end Single

end XamlBinary
