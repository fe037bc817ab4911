/-!
# Hexadecimal numerals and columns

Numerals in capitals, of a fixed or a least width, and the padding of table columns.
-/
namespace SnesMusic.Text

/-- The digit of a value below 16. -/
def hexDigit (value : Nat) : Char :=
  if value < 10 then Char.ofNat (48 + value) else Char.ofNat (55 + value)

/-- Two digits. -/
def hexByte (byte : UInt8) : String :=
  String.ofList [hexDigit (byte.toNat / 16), hexDigit (byte.toNat % 16)]

/-- Four digits. -/
def hexWord (word : UInt16) : String :=
  String.ofList [hexDigit (word.toNat / 4096), hexDigit (word.toNat / 256 % 16),
    hexDigit (word.toNat / 16 % 16), hexDigit (word.toNat % 16)]

/-- Blanks on the left up to `width` characters. -/
def padLeft (width : Nat) (text : String) : String :=
  String.ofList (List.replicate (width - text.length) ' ') ++ text

/-- Blanks on the right up to `width` characters. -/
def padRight (width : Nat) (text : String) : String :=
  text ++ String.ofList (List.replicate (width - text.length) ' ')

/-- A numeral in capitals with at least `width` digits. -/
def hexUpper (width value : Nat) : String :=
  let digits := (Nat.toDigits 16 value).map Char.toUpper
  String.ofList (List.replicate (width - digits.length) '0' ++ digits)

/-- A numeral in small letters, as short as possible. -/
def hexLower (value : Nat) : String :=
  String.ofList (Nat.toDigits 16 value)

end SnesMusic.Text
