-- SUMMARY: A single byte shown as a quoted character.

/-!
# Quoted characters

A message that complains about a byte shows it as the character of that code,
between single quotes. Characters that would not be visible are written as
escapes.
-/

namespace Cosign.Text

/-- The digits of a byte in lower-case hexadecimal, without leading zeros. -/
def shortHex (byte : UInt8) : String :=
  String.ofList (Nat.toDigits 16 byte.toNat)

/-- A byte without a visible character: control codes, the no-break space and the soft hyphen. -/
def isInvisible (byte : UInt8) : Bool :=
  byte < 0x20 || (0x7f ≤ byte && byte ≤ 0xa0) || byte == 0xad

/-- The character of a byte as it stands between quotes. -/
def escaped (byte : UInt8) : String :=
  if byte == 0x00 then "\\0"
  else if byte == 0x09 then "\\t"
  else if byte == 0x0a then "\\n"
  else if byte == 0x0d then "\\r"
  else if byte == 0x27 then "\\'"
  else if byte == 0x5c then "\\\\"
  else if isInvisible byte then "\\u\x7b" ++ shortHex byte ++ "\x7d"
  else String.singleton (Char.ofNat byte.toNat)

/-- The character of a byte between single quotes. -/
def quoted (byte : UInt8) : String := "'" ++ escaped byte ++ "'"

end Cosign.Text
