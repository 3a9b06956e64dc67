-- SUMMARY: Hexadecimal text: printing in either case, reading in both, and the faults of reading.
import Cosign.Text.Quoted

/-!
# Hexadecimal text

Two digits a byte, the high half first. Reading accepts both cases. A text that
cannot be paired up is refused before its digits are looked at; otherwise the
first byte that is not a digit is the fault.
-/

namespace Cosign.Hex

/-! ## Printing -/

/-- The digit of a value below sixteen, in upper case. -/
def upperDigit (value : Nat) : Char :=
  if value < 10 then Char.ofNat (48 + value) else Char.ofNat (55 + value)

/-- The digit of a value below sixteen, in lower case. -/
def lowerDigit (value : Nat) : Char :=
  if value < 10 then Char.ofNat (48 + value) else Char.ofNat (87 + value)

/-- Both digits of every byte. -/
def digitsWith (digit : Nat → Char) (bytes : List UInt8) : List Char :=
  bytes.flatMap fun byte => [digit (byte.toNat / 16), digit (byte.toNat % 16)]

def upper (bytes : List UInt8) : String := String.ofList (digitsWith upperDigit bytes)

def lower (bytes : List UInt8) : String := String.ofList (digitsWith lowerDigit bytes)

/-! ## Reading -/

/-- Why a text is not hexadecimal. -/
inductive Fault where
  | oddLength
  /-- The byte at `position` of the text's bytes is no digit. -/
  | badDigit (byte : UInt8) (position : Nat)
deriving DecidableEq

def Fault.message : Fault → String
  | .oddLength => "Odd number of digits"
  | .badDigit byte position => s!"Invalid character {Text.quoted byte} at position {position}"

/-- The value of a digit of either case. -/
def digit? (byte : UInt8) : Option UInt8 :=
  if 48 ≤ byte ∧ byte ≤ 57 then some (byte - 48)
  else if 65 ≤ byte ∧ byte ≤ 70 then some (byte - 55)
  else if 97 ≤ byte ∧ byte ≤ 102 then some (byte - 87)
  else none

/-- The value of a character as a digit of either case. -/
def value? (c : Char) : Option Nat :=
  if '0' ≤ c ∧ c ≤ '9' then some (c.toNat - 48)
  else if 'A' ≤ c ∧ c ≤ 'F' then some (c.toNat - 55)
  else if 'a' ≤ c ∧ c ≤ 'f' then some (c.toNat - 87)
  else none

/-- The number that digits spell. -/
def number? (digits : List Char) : Option Nat :=
  digits.foldlM (fun number c => (value? c).map (number * 16 + ·)) 0

/-- The value of the digit that stands at a position. -/
def digitAt (byte : UInt8) (position : Nat) : Except Fault UInt8 :=
  match digit? byte with
  | some value => .ok value
  | none => .error (.badDigit byte position)

/-- The bytes that digits spell, the first of them at `position`. -/
def decodeFrom (position : Nat) : List UInt8 → Except Fault (List UInt8)
  | [] => .ok []
  | [_] => .error .oddLength
  | high :: low :: rest => do
    let h ← digitAt high position
    let l ← digitAt low (position + 1)
    let bytes ← decodeFrom (position + 2) rest
    return (h * 16 + l) :: bytes

/-- The bytes that a text, given by its own bytes, spells. -/
def decode (text : List UInt8) : Except Fault (List UInt8) :=
  if text.length % 2 = 1 then .error .oddLength else decodeFrom 0 text

end Cosign.Hex
