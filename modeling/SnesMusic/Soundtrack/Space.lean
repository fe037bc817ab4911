import SnesMusic.Number.Single
import SnesMusic.Soundtrack.Save

/-!
# Space

How much of a bank its songs use, and when to warn about it.
-/
namespace SnesMusic

/-- The use of a bank's room. Songs that cannot be encoded are counted apart. -/
structure Usage where
  total : Nat
  used : Nat
  free : Int
  percent : Single
  warning : Bool
  critical : Bool
  advice : Option String
  unencodable : Nat
  deriving DecidableEq, Repr

/-- The used part in percent, rounded after each step; none of a bank without room. -/
def usedPercent (used total : Nat) : Single :=
  if total = 0 then .zero else ((Single.ofNat 100).mul (.ofNat used)).div (.ofNat total)

/-- A capacity as a number of 64 bits with sign. -/
def signedTotal (total : Nat) : Int := (total : Int).bmod UInt64.size

/-- The sizes of songs together, the number of songs without a size, and notices about those. -/
def sizeSongs : List Song → Told (Nat × Nat)
  | [] => { value := (0, 0) }
  | song :: rest =>
    let others := sizeSongs rest
    match song.requiredSpace with
    | .ok size => { others with value := (size + others.value.1, others.value.2) }
    | .error e => {
      value := (others.value.1, others.value.2 + 1)
      notices := .unsizedSong song.name e :: others.notices }

namespace Soundtrack

/-- What to do about a bank that is too full. -/
def relief (s : Soundtrack) (bank : Bank) : String :=
  match bank with
  | .overworld => if s.hook.isSome then "Move songs to Expanded bank" else "Remove or shorten songs"
  | .overworldExpanded => "Move songs to Auxiliary bank"
  | _ => "Remove or shorten songs"

/-- The use of a bank: a warning above 75 percent, critical above 90 or with songs that cannot be
encoded. -/
def usage (s : Soundtrack) (bank : Bank) : Told Usage :=
  let total := s.config.limit bank
  let sized := sizeSongs (s.songsIn bank)
  let (used, unencodable) := sized.value
  let percent := usedPercent used total
  let critical := percent.exceeds 90 || 0 < unencodable
  let warning := percent.exceeds 75 || critical
  { value := {
      total, used, percent, warning, critical, unencodable
      free := signedTotal total - used
      advice :=
        if 0 < unencodable then some "Fix songs that cannot be encoded"
        else if critical then some (s.relief bank)
        else if warning then some "Approaching bank limit"
        else none }
    notices := sized.notices }

end Soundtrack
end SnesMusic
