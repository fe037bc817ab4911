/-!
# Cutting text at a character

`cutAt` cuts once, `pieces` cuts at every occurrence and `lines` reads a text as lines.
-/
namespace SnesMusic.Text

/-- What stands before and after the first `mark`; nothing when there is none. -/
def cutAt (mark : Char) : List Char → Option (List Char × List Char)
  | [] => none
  | c :: rest =>
    if c = mark then some ([], rest)
    else (cutAt mark rest).map fun (before, after) => (c :: before, after)

/-- The stretches between the occurrences of `mark`;
there is always one more than there are marks. -/
def pieces (mark : Char) : List Char → List (List Char)
  | [] => [[]]
  | c :: rest =>
    if c = mark then [] :: pieces mark rest
    else match pieces mark rest with
      | [] => [[c]]
      | piece :: others => (c :: piece) :: others

/-- The lines of a text. The last line may lack its line feed; an empty rest after a final line feed
is not a line. A carriage return before the line feed stays and counts as a blank of its line. -/
def lines (text : List Char) : List (List Char) :=
  let all := pieces '\n' text
  if all.getLast? = some [] then all.dropLast else all

theorem cutAt_of_not_mem {mark : Char} {text : List Char} (h : mark ∉ text) :
    cutAt mark text = none := by
  induction text with
  | nil => rfl
  | cons c rest ih =>
    simp only [List.mem_cons, not_or] at h
    simp [cutAt, Ne.symm h.1, ih h.2]

theorem cutAt_append {mark : Char} {before : List Char} (h : mark ∉ before) (after : List Char) :
    cutAt mark (before ++ mark :: after) = some (before, after) := by
  induction before with
  | nil => simp [cutAt]
  | cons c rest ih =>
    simp only [List.mem_cons, not_or] at h
    simp [cutAt, Ne.symm h.1, ih h.2]

theorem pieces_ne_nil (mark : Char) (text : List Char) : pieces mark text ≠ [] := by
  induction text with
  | nil => simp [pieces]
  | cons c rest ih =>
    rw [pieces]
    split
    · simp
    · split <;> simp

end SnesMusic.Text
