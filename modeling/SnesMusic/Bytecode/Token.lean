import SnesMusic.Song.Basic

/-!
# Tokens of track bytecode

The bytes of a track, read one token at a time up to the end marker: timings, notes, commands with
their parameters, and bytes without meaning.
-/
namespace SnesMusic

inductive Token where
  | timing (duration : UInt8) (velocity : Option UInt8)
  | note (pitch : UInt8)
  | command (c : Command)
  /-- A byte without meaning, with its index in the track. -/
  | unknown (index : Nat) (byte : UInt8)
  /-- An opcode whose parameters reach past the end of the data. -/
  | truncated (opcode : UInt8)
  | finish
  deriving DecidableEq, Repr

namespace Token

/-- Number of bytes of a token. -/
def width : Token → Nat
  | .timing _ none => 1
  | .timing _ (some _) => 2
  | .command c => 1 + arity c.opcode
  | _ => 1

/-- Nothing is read after the end marker or a truncated command. -/
def isLast : Token → Bool
  | .finish | .truncated _ => true
  | _ => false

/-- The token that begins with `byte` at `index`. -/
def read (index : Nat) (byte : UInt8) (rest : List UInt8) : Token :=
  if byte = 0 then .finish
  else if isDuration byte then .timing byte (rest.head?.filter isDuration)
  else if isPitch byte then .note byte
  else if isOpcode byte then
    let params := rest.take (arity byte)
    if params.length < arity byte then .truncated byte else .command (Command.ofParams byte params)
  else .unknown index byte

/-- Reads the tokens from `index` on; `before` holds those read, newest first. -/
def lexFrom (before : List Token) (index : Nat) : List UInt8 → List Token
  | [] => before.reverse
  | byte :: rest =>
    let token := read index byte rest
    if token.isLast then (token :: before).reverse
    else lexFrom (token :: before) (index + token.width) (rest.drop (token.width - 1))
termination_by bytes => bytes.length
decreasing_by simp only [List.length_drop, List.length_cons]; omega

/-- The tokens of a track. -/
def lex (bytes : List UInt8) : List Token := lexFrom [] 0 bytes

/-- What was read before stays in front. -/
theorem lexFrom_eq (before : List Token) (index : Nat) (bytes : List UInt8) :
    lexFrom before index bytes = before.reverse ++ lexFrom [] index bytes := by
  induction h : bytes.length using Nat.strongRecOn generalizing before index bytes with
  | ind n ih =>
    cases bytes with
    | nil => simp [lexFrom]
    | cons byte rest =>
      have unfolded : ∀ x, lexFrom x index (byte :: rest) =
          if (read index byte rest).isLast then (read index byte rest :: x).reverse
          else lexFrom (read index byte rest :: x) (index + (read index byte rest).width)
            (rest.drop ((read index byte rest).width - 1)) := by
        intro x
        rw [lexFrom]
      have shorter : (rest.drop ((read index byte rest).width - 1)).length < n := by
        simp only [List.length_cons] at h
        simp only [List.length_drop]
        omega
      rw [unfolded, unfolded]
      split
      · simp
      · rw [ih _ shorter _ _ _ rfl, ih _ shorter [_] _ _ rfl]
        simp

end Token
end SnesMusic
