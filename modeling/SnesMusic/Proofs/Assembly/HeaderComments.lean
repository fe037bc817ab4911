import SnesMusic.Proofs.Assembly.RoundTrip

/-!
# Header comments

The number of a line only words messages, so statements are carried out alike wherever they stand
(`agree_step`, `agree_run`), and lines without a statement can be left out. The comments about a
song are such lines, except that the semicolon in front of its name does not reach beyond the name's
first line. Main statement: comments about a song are inert but for the further lines of the name,
which are read as if they stood in front of the text (`import_header_comments`).
-/
namespace SnesMusic.Assembly

open Text

namespace Importer

/-! ### Readings that agree -/

/-- The same reading at another line, with other warnings. -/
def relined (s : Importer) (line : Nat) (warnings : List String) : Importer :=
  { s with line, warnings }

/-- Readings that differ in nothing but the line they have reached and the words of warnings. -/
inductive Agree (s : Importer) : Importer → Prop where
  | intro (line : Nat) (warnings : List String) (count : warnings.length = s.warnings.length) :
    Agree s (s.relined line warnings)

/-- Two results that are related, or the same error. -/
inductive Alike {α : Type} (R : α → α → Prop) : Except MusicError α → Except MusicError α → Prop
  | ok {a b : α} (related : R a b) : Alike R (.ok a) (.ok b)
  | error (e : MusicError) : Alike R (.error e) (.error e)

namespace Alike

variable {α β : Type} {R : α → α → Prop} {S : β → β → Prop} {x y : Except MusicError α}

theorem bind {f g : α → Except MusicError β} (begun : Alike R x y)
    (ended : ∀ a b, R a b → Alike S (f a) (g b)) : Alike S (x >>= f) (y >>= g) := by
  cases begun with
  | ok related => exact ended _ _ related
  | error e => exact .error e

theorem map {f : α → β} (begun : Alike R x y) (kept : ∀ a b, R a b → S (f a) (f b)) :
    Alike S (x.map f) (y.map f) := by
  cases begun with
  | ok related => exact .ok (kept _ _ related)
  | error e => exact .error e

end Alike

/-- The same value beside readings that agree. -/
def AgreeWith {α : Type} (x y : α × Importer) : Prop := x.1 = y.1 ∧ x.2.Agree y.2

theorem Alike.bindWith {α β : Type} {S : β → β → Prop} {x y : Except MusicError (α × Importer)}
    {f g : α × Importer → Except MusicError β} (begun : Alike AgreeWith x y)
    (ended : ∀ a s t, s.Agree t → Alike S (f (a, s)) (g (a, t))) :
    Alike S (x >>= f) (y >>= g) := by
  refine begun.bind ?_
  rintro ⟨a, s⟩ ⟨b, t⟩ ⟨same, agree⟩
  obtain rfl : a = b := same
  exact ended a s t agree

variable {options : ImportOptions} {s t : Importer}

theorem agree_complain (agree : s.Agree t) (e : MusicError) :
    Alike Agree (s.complain options e) (t.complain options e) := by
  obtain ⟨line, warnings, count⟩ := agree
  unfold complain
  split
  · exact .error e
  · exact .ok (.intro line _ (congrArg Nat.succ count))

theorem agree_take (agree : s.Agree t) (value : Except Malformation UInt8) :
    Alike AgreeWith (s.take options value) (t.take options value) := by
  cases value with
  | ok byte => exact .ok ⟨rfl, agree⟩
  | error cause => exact (agree_complain agree _).map fun _ _ agree => ⟨rfl, agree⟩

theorem agree_rawByte (agree : s.Agree t) (byte : UInt8) :
    Alike Agree (s.rawByte options byte) (t.rawByte options byte) := by
  obtain ⟨line, warnings, count⟩ := agree
  unfold rawByte
  repeat' split
  · exact .ok (.intro line warnings count)
  · exact .ok (.intro line warnings count)
  · exact .ok (.intro line warnings count)
  · exact .ok (.intro line warnings count)
  · exact agree_complain (.intro line warnings count) _

theorem agree_datum (agree : s.Agree t) (value : String) :
    Alike Agree (s.datum options value) (t.datum options value) := by
  obtain ⟨line, warnings, count⟩ := agree
  unfold datum
  split
  · split <;> exact .ok (.intro line warnings count)
  · split
    · exact .ok (.intro line warnings count)
    · refine (agree_take (.intro line warnings count) _).bindWith fun byte u v agree => ?_
      cases byte with
      | none => exact .ok agree
      | some byte =>
        have counted : (u.count 1).Agree (v.count 1) := by
          obtain ⟨line, warnings, count⟩ := agree
          exact .intro line warnings count
        exact agree_rawByte counted byte

theorem agree_data (agree : s.Agree t) (values : List String) :
    Alike Agree (s.data options values) (t.data options values) := by
  induction values generalizing s t with
  | nil => exact .ok agree
  | cons value rest ih => exact (agree_datum agree value).bind fun u v agree => ih agree

theorem agree_setting (agree : s.Agree t) (name value : String) :
    Alike Agree (s.setting options name value) (t.setting options name value) := by
  obtain ⟨line, warnings, count⟩ := agree
  unfold setting
  repeat' split
  · exact .ok (.intro line warnings count)
  · exact agree_complain (.intro line warnings count) _
  · exact .ok (.intro line warnings count)
  · exact agree_complain (.intro line warnings count) _
  · exact .ok (.intro line warnings count)

theorem agree_setDuration (agree : s.Agree t) (duration : String) :
    Alike Agree (s.setDuration options duration) (t.setDuration options duration) := by
  refine (agree_take agree _).bindWith fun duration u v ⟨line, warnings, count⟩ => ?_
  cases duration <;> exact .ok (.intro line warnings count)

theorem agree_setTiming (agree : s.Agree t) (duration velocity : String) :
    Alike Agree (s.setTiming options duration velocity)
      (t.setTiming options duration velocity) := by
  refine (agree_take agree _).bindWith fun duration u v agree => ?_
  refine (agree_take agree _).bindWith fun velocity w x ⟨line, warnings, count⟩ => ?_
  cases duration <;> cases velocity <;> exact .ok (.intro line warnings count)

theorem agree_parameters (agree : s.Agree t) (name : String) (taken : List UInt8)
    (arguments : List String) :
    Alike AgreeWith (s.parameters options name taken arguments)
      (t.parameters options name taken arguments) := by
  induction arguments generalizing s t taken with
  | nil => exact .ok ⟨rfl, agree⟩
  | cons argument rest ih =>
    refine (agree_take agree _).bindWith fun byte u v agree => ?_
    cases byte with
    | none => exact .ok ⟨rfl, agree⟩
    | some byte =>
      simp only
      split
      · exact ih agree _
      · exact (agree_complain agree _).bind fun w x agree => .ok ⟨rfl, agree⟩

theorem agree_command (agree : s.Agree t) (name : String) (opcode : UInt8)
    (arguments : List String) :
    Alike Agree (s.command options name opcode arguments)
      (t.command options name opcode arguments) := by
  refine (agree_parameters agree _ _ _).bindWith fun given u v agree => ?_
  cases given with
  | none => exact .ok agree
  | some given =>
    simp only
    split
    · obtain ⟨line, warnings, count⟩ := agree
      exact .ok (.intro line warnings count)
    · refine (agree_complain agree _).bind fun w x ⟨line, warnings, count⟩ => ?_
      exact .ok (.intro line warnings count)

theorem agree_invoke (agree : s.Agree t) (name : String) (arguments : List String) :
    Alike Agree (s.invoke options name arguments) (t.invoke options name arguments) := by
  unfold invoke
  repeat' split
  · obtain ⟨line, warnings, count⟩ := agree
    exact .ok (.intro line warnings count)
  · exact agree_setDuration agree _
  · exact agree_setTiming agree _ _
  · exact agree_command agree _ _ _
  · exact agree_complain agree _

/-- A statement is carried out alike wherever it stands. -/
theorem agree_step (agree : s.Agree t) (statement : Statement) :
    Alike Agree (s.step options statement) (t.step options statement) := by
  obtain ⟨line, warnings, count⟩ := agree
  cases statement with
  | blank | comment text | localLabel name | words values =>
    exact .ok (.intro line warnings count)
  | label name =>
    refine .ok ?_
    unfold enterLabel relined
    cases s.label <;> exact .intro line warnings count
  | channel index =>
    rw [step, step]
    split <;> exact .ok (.intro line warnings count)
  | setting name value => exact agree_setting (.intro line warnings count) name value
  | bytes values => exact agree_data (.intro line warnings count) values
  | invocation name arguments => exact agree_invoke (.intro line warnings count) name arguments
  | broken text => exact .error _
  | unrecognized text =>
    rw [step, step]
    split
    · exact .ok (.intro line _ (congrArg Nat.succ count))
    · exact .ok (.intro line warnings count)

/-- Readings with as many errors that agree. -/
def AgreeCounting (x y : Importer × List String) : Prop :=
  x.1.Agree y.1 ∧ y.2.length = x.2.length

/-- The same lines are read alike, whatever their numbers. -/
theorem agree_run (agree : s.Agree t) {errors errors' : List String}
    (counted : errors'.length = errors.length) (lines : List (List Char)) :
    Alike AgreeCounting (s.run options errors lines) (t.run options errors' lines) := by
  induction lines generalizing s t errors errors' with
  | nil => exact .ok ⟨agree, counted⟩
  | cons line rest ih =>
    have here : Agree { s with line := s.line + 1 } { t with line := t.line + 1 } := by
      obtain ⟨line, warnings, count⟩ := agree
      exact .intro (line + 1) warnings count
    have stepped : Alike Agree
        (Importer.step options { s with line := s.line + 1 } (Statement.ofLine line))
        (Importer.step options { t with line := t.line + 1 } (Statement.ofLine line)) :=
      agree_step here _
    rw [run, run]
    simp only
    generalize Importer.step options { s with line := s.line + 1 } _ = first,
      Importer.step options { t with line := t.line + 1 } _ = first' at stepped ⊢
    cases stepped with
    | ok agree => exact ih agree counted
    | error e =>
      simp only
      split
      · exact .error e
      · exact ih here (congrArg Nat.succ counted)

/-- Lines are read one part after the other. -/
theorem run_append (errors : List String) (front behind : List (List Char)) :
    s.run options errors (front ++ behind) =
      s.run options errors front >>= fun (t, errors) => t.run options errors behind := by
  induction front generalizing s errors with
  | nil => rfl
  | cons line rest ih =>
    rw [List.cons_append, run, run]
    simp only
    split
    · exact ih _
    · split
      · rfl
      · exact ih _

end Importer

/-! ### Outcomes -/

/-- The same song, size and address, and as many warnings and errors. -/
structure Imported.SameAs (x y : Imported) : Prop where
  song : x.song = y.song
  size : x.size = y.size
  address : x.address = y.address
  warnings : x.warnings.length = y.warnings.length
  errors : x.errors.length = y.errors.length

open Importer

theorem sameAs_finish {options : ImportOptions} {x y : Importer × List String}
    (agree : AgreeCounting x y) (lines lines' : Nat) :
    (x.1.finish options x.2 lines).SameAs (y.1.finish options y.2 lines') := by
  obtain ⟨s, errors⟩ := x
  obtain ⟨t, errors'⟩ := y
  obtain ⟨⟨line, warnings, count⟩, counted⟩ := agree
  constructor
  · rfl
  · rfl
  · rfl
  · simp [finish, count]
  · simp [finish, counted]

/-- Texts whose lines are read alike are imported alike. -/
theorem outcome_of_lines {options : ImportOptions} {source other : String}
    (alike : Alike AgreeCounting (run options {} [] (lines source.toList))
      (run options {} [] (lines other.toList))) :
    Alike Imported.SameAs (importSong source options).outcome
      (importSong other options).outcome := by
  unfold importSong
  simp only
  generalize run options {} [] (lines source.toList) = first,
    run options {} [] (lines other.toList) = second at alike
  cases alike with
  | ok agree => exact .ok (sameAs_finish agree _ _)
  | error e => exact .error e

/-! ### Comments about a song -/

/-- The lines of a name behind its first, each ended. -/
def furtherLines (name : String) : String :=
  match cutAt '\n' name.toList with
  | none => ""
  | some (_, rest) => String.ofList rest ++ "\n"

theorem furtherLines_cases (name : String) :
    ('\n' ∉ name.toList ∧ furtherLines name = "") ∨
      ∃ first rest, '\n' ∉ first ∧ name.toList = first ++ '\n' :: rest ∧
        (furtherLines name).toList = rest ++ ['\n'] := by
  unfold furtherLines
  by_cases broken : '\n' ∈ name.toList
  · obtain ⟨first, rest, split, free⟩ := List.eq_append_cons_of_mem broken
    refine Or.inr ⟨first, rest, free, split, ?_⟩
    rw [split, cutAt_append free]
    simp [String.toList_append]
  · rw [cutAt_of_not_mem broken]
    exact Or.inl ⟨broken, rfl⟩

theorem lines_furtherLines_append (name behind : String) :
    lines (furtherLines name ++ behind).toList =
      lines (furtherLines name).toList ++ lines behind.toList := by
  rw [String.toList_append]
  obtain ⟨-, none⟩ | ⟨first, rest, -, -, chars⟩ := furtherLines_cases name
  · rw [none]
    rfl
  · rw [chars, List.append_assoc, List.singleton_append, lines_append_newline,
      lines_append_newline]
    exact congrArg (· ++ _) (List.append_nil _).symm

/-- Only the first line of the name is behind the mark of the comment. -/
theorem pieces_comment (name : String) : ∃ first,
    pieces '\n' (Statement.comment name).render.toList =
      (';' :: first) :: lines (furtherLines name).toList := by
  have line : (Statement.comment name).render.toList = ';' :: ' ' :: name.toList := by
    rw [Statement.render, String.toList_append]
    rfl
  rw [line]
  obtain ⟨single, none⟩ | ⟨first, rest, free, split, chars⟩ := furtherLines_cases name
  · refine ⟨' ' :: name.toList, ?_⟩
    rw [none, pieces_of_not_mem (by simp [single])]
    rfl
  · refine ⟨' ' :: first, ?_⟩
    have whole : ';' :: ' ' :: name.toList = (';' :: ' ' :: first) ++ '\n' :: rest := by
      rw [split]
      rfl
    rw [whole, chars, pieces_append (by simp [free]), lines_append_newline]
    exact congrArg _ (List.append_nil _).symm

/-- The lines of a text with comments about the song: a comment, the further lines of the name, the
comments behind the name, and the text without comments. -/
theorem lines_exportSong_comments (song : Song) (chosen : ExportOptions) : ∃ first,
    lines (exportSong song { chosen with comments := true }).toList =
      (';' :: first) :: (lines (furtherLines song.name).toList ++
        ((songComments song).tail.map (·.render.toList) ++
          lines (exportSong song { chosen with comments := false }).toList)) := by
  obtain ⟨first, comment⟩ := pieces_comment song.name
  have read : Reads {} {} (songComments song).tail {} := reads_furtherComments song
  have split : songStatements song { chosen with comments := true } =
      .comment song.name :: ((songComments song).tail ++
        songStatements song { chosen with comments := false }) := by
    simp [songStatements, songComments]
  refine ⟨first, ?_⟩
  rw [exportSong, exportSong, split, toList_text, List.map_cons, List.flatMap_cons,
    List.append_assoc, List.singleton_append, lines_append_newline, comment, List.cons_append,
    ← toList_text, lines_text_append read.written]

/-- Comments about a song leave a trace of nothing but its name. -/
theorem import_furtherLines (song : Song) (chosen : ExportOptions) (options : ImportOptions) :
    Alike Imported.SameAs
      (importSong (exportSong song { chosen with comments := true }) options).outcome
      (importSong (furtherLines song.name ++ exportSong song { chosen with comments := false })
        options).outcome := by
  apply outcome_of_lines
  obtain ⟨first, commented⟩ := lines_exportSong_comments song chosen
  have silent : Statement.ofLine (';' :: first) = .blank := rfl
  have begun : Agree { line := 1 } {} := .intro 0 [] rfl
  rw [commented, lines_furtherLines_append, run, silent, run_append]
  simp only [step]
  rw [run_append]
  refine (agree_run begun rfl _).bind ?_
  rintro ⟨s, errors⟩ ⟨t, errors'⟩ ⟨agree, counted⟩
  obtain ⟨reached, passed⟩ := (reads_furtherComments song).run_eq s.line errors _
  have later : Agree { s with line := reached } t := by
    obtain ⟨line, warnings, count⟩ := agree
    exact .intro line warnings count
  simp only
  rw [passed]
  exact agree_run later counted _

/-- Comments about a song are inert but for its name: a text with them is imported as the name's
further lines and the text without them. So they change nothing where the name is one line. -/
theorem import_header_comments (song : Song) (chosen : ExportOptions) (options : ImportOptions) :
    Alike Imported.SameAs
        (importSong (exportSong song { chosen with comments := true }) options).outcome
        (importSong (furtherLines song.name ++ exportSong song { chosen with comments := false })
          options).outcome ∧
      ('\n' ∉ song.name.toList →
        Alike Imported.SameAs
          (importSong (exportSong song { chosen with comments := true }) options).outcome
          (importSong (exportSong song { chosen with comments := false }) options).outcome) := by
  have all := import_furtherLines song chosen options
  refine ⟨all, fun single => ?_⟩
  have none : furtherLines song.name = "" := by
    rw [furtherLines, cutAt_of_not_mem single]
  rwa [none, String.empty_append] at all

/-- A song of one silent segment at `$D100`. -/
def silentAir (name : String) : Song := { Song.new name .overworld with address := 0xD100 }

/-- The second line of the name is a label: it names the song, and the label of the first segment
begins another one. -/
theorem second_line_is_label :
    Alike Imported.SameAs (importSong (exportSong (silentAir "Air") {}) {}).outcome
        (importSong (exportSong (silentAir "Air") { comments := false }) {}).outcome ∧
      ((importSong (exportSong (silentAir "Air\nEncore:") {}) {}).outcome.toOption.map
          fun imported => (imported.song.name, imported.song.segments.length)) =
        some ("Encore", 2) ∧
      ((importSong (exportSong (silentAir "Air\nEncore:") { comments := false })
          {}).outcome.toOption.map
          fun imported => (imported.song.name, imported.song.segments.length)) =
        some ("AirEncore", 1) := by
  refine ⟨(import_header_comments (silentAir "Air") {} {}).2 (by decide), ?_, ?_⟩
  -- the characters of the text are faster to find from its statements
  all_goals
    rw [importSong, exportSong, toList_text]
    decide +kernel

end SnesMusic.Assembly
