import SnesMusic.Text.Cut

/-!
# File names

Names of files with slashes between their parts. The extension is what follows the last period,
unless the name begins with that period.
-/
namespace SnesMusic.Tool.FileName

open Text

/-- The part up to the last slash, with it, and the part behind it. -/
def cutFolder (name : List Char) : List Char × List Char :=
  let base := (name.reverse.takeWhile (· != '/')).reverse
  (name.take (name.length - base.length), base)

/-- A base name without its extension. -/
def cutExtension (base : List Char) : List Char :=
  match cutAt '.' base.reverse with
  | none => base
  | some (_, before) => if before.isEmpty then base else before.reverse

/-- The name that stands for the content of a file; folders have none. -/
def stem? (name : String) : Option String :=
  let base := (cutFolder name.toList).2
  if base.isEmpty || base = ['.'] || base = ['.', '.'] then none
  else some (String.ofList (cutExtension base))

/-- The name with another extension. -/
def withExtension (name extension : String) : String :=
  match stem? name with
  | none => name
  | some stem => String.ofList (cutFolder name.toList).1 ++ stem ++ "." ++ extension

/-- The name of something in a folder. -/
def inFolder (folder name : String) : String :=
  match folder.toList.getLast? with
  | none => name
  | some '/' => folder ++ name
  | some _ => folder ++ "/" ++ name

end SnesMusic.Tool.FileName
