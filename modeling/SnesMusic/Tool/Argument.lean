import SnesMusic.Bank
import SnesMusic.Text.Blank
import SnesMusic.Text.Cut
import SnesMusic.Text.Unsigned

/-!
# Arguments with two parts

Capacities of banks, as in `dungeon=2048`, and sound files for samples, as in `0a=lead.wav`.
-/
namespace SnesMusic.Tool

open Text

/-- Why an argument is refused. -/
inductive ArgumentFault where
  /-- The sign between the two parts is missing. -/
  | form (expected given : String)
  | unknownBank (name : String)
  | numeral (fault : NumeralFault)
  deriving DecidableEq, Repr

def ArgumentFault.message : ArgumentFault → String
  | .form expected given => s!"expected {expected}, got `{given}`"
  | .unknownBank name => s!"invalid variant: {name}"
  | .numeral fault => fault.message

/-- Values have 64 bits. -/
def valueLimit : Nat := UInt64.size

/-- A value, in hexadecimal behind `0x`. -/
def value (text : List Char) : Except NumeralFault Nat :=
  match text with
  | '0' :: 'x' :: digits => numeral 16 valueLimit digits
  | digits => numeral 10 valueLimit digits

/-- The bank of an option, in letters of either case. -/
def bankIgnoringCase? (name : List Char) : Option Bank :=
  Bank.ofOption? (String.ofList (name.map Char.toLower))

/-- Reads the capacity of a bank. -/
def bankLimit (argument : String) : Except ArgumentFault (Bank × Nat) :=
  match cutAt '=' argument.toList with
  | none => .error (.form "BANK=BYTES" argument)
  | some (name, bytes) =>
    match bankIgnoringCase? (trim name) with
    | none => .error (.unknownBank (String.ofList (trim name)))
    | some bank =>
      match value (trim bytes) with
      | .ok bytes => .ok (bank, bytes)
      | .error fault => .error (.numeral fault)

/-- Reads the index of a sample, in hexadecimal, and the name of its sound file. -/
def sampleFile (argument : String) : Except ArgumentFault (Nat × String) :=
  match cutAt '=' argument.toList with
  | none => .error (.form "INDEX=PATH" argument)
  | some (index, name) =>
    match numeral 16 valueLimit (trim index) with
    | .ok index => .ok (index, String.ofList name)
    | .error fault => .error (.numeral fault)

end SnesMusic.Tool
