/-!
Strict UTF-16.  `decode` accepts a list of code units exactly when every
surrogate in it belongs to a pair, and then returns the characters whose
`encode` is that list.  Embedded NULs are ordinary characters.  `text?` makes
a string of a list, with a short way for ASCII.
-/

namespace XamlBinary.Utf16

/-- Units that stand for a character on their own. -/
def IsPlain (unit : UInt16) : Prop := unit.toNat < 0xD800 ∨ 0xE000 ≤ unit.toNat

/-- Units that begin a surrogate pair. -/
def IsHigh (unit : UInt16) : Prop := 0xD800 ≤ unit.toNat ∧ unit.toNat < 0xDC00

/-- Units that end a surrogate pair. -/
def IsLow (unit : UInt16) : Prop := 0xDC00 ≤ unit.toNat ∧ unit.toNat < 0xE000

instance (unit : UInt16) : Decidable (IsPlain unit) := by unfold IsPlain; infer_instance
instance (unit : UInt16) : Decidable (IsHigh unit) := by unfold IsHigh; infer_instance
instance (unit : UInt16) : Decidable (IsLow unit) := by unfold IsLow; infer_instance

/-- The character that a surrogate pair stands for. -/
def pairChar (high low : UInt16) : Char :=
  Char.ofNat (0x10000 + (high.toNat - 0xD800) * 0x400 + (low.toNat - 0xDC00))

/-- The characters that the units spell, or nothing when a surrogate stands alone. -/
def decode : List UInt16 → Option (List Char)
  | [] => some []
  | unit :: units =>
      if IsPlain unit then
        (decode units).map (Char.ofNat unit.toNat :: ·)
      else if IsHigh unit then
        match units with
        | [] => none
        | low :: rest =>
            if IsLow low then (decode rest).map (pairChar unit low :: ·) else none
      else none

/-- Units that stand for an ASCII character. -/
def IsAscii (unit : UInt16) : Prop := unit.toNat < 0x80

instance (unit : UInt16) : Decidable (IsAscii unit) := by unfold IsAscii; infer_instance

/-- The character of an ASCII unit, which is told by the low byte alone. -/
def asciiChar (unit : UInt16) : Char := Char.ofNat unit.toUInt8.toNat

/-- The text that the units spell.  Most texts are ASCII, and then each unit is taken for a
character as it stands; other units are decoded in pairs. -/
def text? (us : List UInt16) : Option String :=
  if us.all (decide <| IsAscii ·) then some (String.ofList (us.map asciiChar))
  else (decode us).map String.ofList

/-- The one or two units of a character. -/
def units (c : Char) : List UInt16 :=
  if c.toNat < 0x10000 then [UInt16.ofNat c.toNat]
  else
    [UInt16.ofNat (0xD800 + (c.toNat - 0x10000) / 0x400),
      UInt16.ofNat (0xDC00 + (c.toNat - 0x10000) % 0x400)]

def encode (chars : List Char) : List UInt16 := chars.flatMap units

@[simp] theorem encode_nil : encode [] = [] := rfl

@[simp] theorem encode_cons (c : Char) (chars : List Char) :
    encode (c :: chars) = units c ++ encode chars := rfl

/-- The units stored in a run of bytes, two bytes each; a last odd byte is dropped. -/
def unitsOfBytes : List UInt8 → List UInt16
  | low :: high :: rest => UInt16.ofNat (low.toNat + 256 * high.toNat) :: unitsOfBytes rest
  | _ => []

end XamlBinary.Utf16
