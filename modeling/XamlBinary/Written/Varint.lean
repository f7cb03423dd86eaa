/-!
The spellings of a 7-bit integer.  A number is cut into groups of seven bits,
least significant first, one to a byte; every byte but the last has its top
bit set.  Leading groups that are zero may be written out, up to five bytes in
all, so a number can have several spellings.
-/

namespace XamlBinary.Varint

/-- The number in the groups of a run of bytes, whatever the top bits are. -/
def value : List UInt8 → Nat
  | [] => 0
  | b :: bs => b.toNat % 0x80 + 0x80 * value bs

/-- Bytes of which the last one, and no other, lacks the top bit. -/
def Closed : List UInt8 → Prop
  | [] => False
  | [last] => last.toNat < 0x80
  | b :: bs => 0x80 ≤ b.toNat ∧ Closed bs

/-- A way to write a number of 32 bits. -/
structure Spells (bytes : List UInt8) (n : UInt32) : Prop where
  closed : Closed bytes
  length_le : bytes.length ≤ 5
  value_eq : value bytes = n.toNat

/-- The groups of a number, at most `more` of them before the last. -/
def groups : (more : Nat) → Nat → List UInt8
  | 0, n => [UInt8.ofNat n]
  | more + 1, n =>
      if n < 0x80 then [UInt8.ofNat n]
      else UInt8.ofNat (0x80 + n % 0x80) :: groups more (n / 0x80)

/-- The spelling without groups that are not needed. -/
def shortest (n : UInt32) : List UInt8 := groups 4 n.toNat

end XamlBinary.Varint
