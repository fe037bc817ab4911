import SnesMusic.Proofs.Assembly.RoundTrip

/-!
# The name of a song that is read

The first label of a text names its song, whatever else the text holds. Main statements: a lenient
reading never fails and takes its label from the first line that is one (`run_lenient`), and that of
an exported song is made from the song's name (`name_importSong`).
-/
namespace SnesMusic.Assembly

open Text

namespace Importer

variable {options : ImportOptions} {s : Importer}

/-! ### What leaves the label -/

/-- Where there is a result, its label is the given one. -/
def Labelled (label : Option String) {α : Type} (state : α → Importer)
    (result : Except MusicError α) : Prop :=
  ∀ a, result = .ok a → (state a).label = label

namespace Labelled

variable {label : Option String} {α β : Type} {state : α → Importer}

theorem ok {a : α} (same : (state a).label = label) : Labelled label state (.ok a) := by
  intro b given
  rwa [← Except.ok.inj given]

theorem error (e : MusicError) : Labelled label state (.error e) :=
  fun _ given => nomatch given

theorem bind {next : β → Importer} {first : Except MusicError α} {rest : α → Except MusicError β}
    (begun : Labelled label state first)
    (ended : ∀ a, (state a).label = label → Labelled label next (rest a)) :
    Labelled label next (first >>= rest) := by
  cases first with
  | error e => exact error e
  | ok a => exact ended a (begun a rfl)

theorem map {next : β → Importer} {first : Except MusicError α} {f : α → β}
    (begun : Labelled label (next ∘ f) first) : Labelled label next (first.map f) := by
  cases first with
  | error e => exact error e
  | ok a => exact ok (begun a rfl)

end Labelled

theorem labelled_complain (e : MusicError) : Labelled s.label id (s.complain options e) := by
  unfold complain
  split
  · exact .error e
  · exact .ok rfl

theorem labelled_take (value : Except Malformation UInt8) :
    Labelled s.label Prod.snd (s.take options value) := by
  cases value with
  | ok byte => exact .ok rfl
  | error cause => exact (labelled_complain (.malformed cause)).map

theorem labelled_rawByte (byte : UInt8) : Labelled s.label id (s.rawByte options byte) := by
  unfold rawByte
  repeat' split
  · exact .ok rfl
  · exact .ok rfl
  · exact .ok rfl
  · exact .ok rfl
  · exact labelled_complain _

theorem labelled_datum (value : String) : Labelled s.label id (s.datum options value) := by
  unfold datum
  split
  · split <;> exact .ok rfl
  · split
    · exact .ok rfl
    · refine (labelled_take _).bind fun (byte, t) same => ?_
      cases byte with
      | none => exact .ok same
      | some byte => exact same ▸ labelled_rawByte (s := t.count 1) byte

theorem labelled_data (values : List String) : Labelled s.label id (s.data options values) := by
  induction values generalizing s with
  | nil => exact .ok rfl
  | cons value rest ih => exact (labelled_datum value).bind fun t same => same ▸ ih (s := t)

theorem labelled_setting (name value : String) :
    Labelled s.label id (s.setting options name value) := by
  unfold setting
  repeat' split
  · exact .ok rfl
  · exact labelled_complain _
  · exact .ok rfl
  · exact labelled_complain _
  · exact .ok rfl

theorem labelled_setDuration (duration : String) :
    Labelled s.label id (s.setDuration options duration) := by
  refine (labelled_take _).bind fun (duration, t) same => ?_
  cases duration <;> exact .ok same

theorem labelled_setTiming (duration velocity : String) :
    Labelled s.label id (s.setTiming options duration velocity) := by
  refine (labelled_take _).bind fun (duration, t) same => ?_
  refine (same ▸ labelled_take _).bind fun (velocity, u) same => ?_
  cases duration <;> cases velocity <;> exact .ok same

theorem labelled_parameters (name : String) (taken : List UInt8) (arguments : List String) :
    Labelled s.label Prod.snd (s.parameters options name taken arguments) := by
  induction arguments generalizing s taken with
  | nil => exact .ok rfl
  | cons argument rest ih =>
    refine (labelled_take _).bind fun (byte, t) same => ?_
    cases byte with
    | none => exact .ok same
    | some byte =>
      simp only
      split
      · exact same ▸ ih (s := t) _
      · exact (same ▸ labelled_complain (s := t) _ : Labelled s.label id _).bind
          fun u same => .ok same

theorem labelled_command (name : String) (opcode : UInt8) (arguments : List String) :
    Labelled s.label id (s.command options name opcode arguments) := by
  refine (labelled_parameters _ _ _).bind fun (given, t) same => ?_
  cases given with
  | none => exact .ok same
  | some given =>
    simp only
    split
    · exact .ok same
    · exact (same ▸ labelled_complain (s := t) _ : Labelled s.label id _).bind
        fun u same => .ok same

theorem labelled_invoke (name : String) (arguments : List String) :
    Labelled s.label id (s.invoke options name arguments) := by
  unfold invoke
  repeat' split
  · exact .ok rfl
  · exact labelled_setDuration _
  · exact labelled_setTiming _ _
  · exact labelled_command _ _ _
  · exact labelled_complain _

/-! ### The first label -/

end Importer

/-- The name that a statement gives. -/
def Statement.labelled? : Statement → Option String
  | .label name => some name
  | _ => none

namespace Importer

variable {options : ImportOptions} {s : Importer}

theorem labelled_step (statement : Statement) :
    Labelled (s.label.or statement.labelled?) id (s.step options statement) := by
  have same : s.label = s.label.or none := (Option.or_none ..).symm
  cases statement with
  | blank | comment text | localLabel name => exact .ok same
  | label name =>
    refine .ok ?_
    show (s.enterLabel name).label = _
    unfold enterLabel
    split
    · rename_i first
      rw [first]
      rfl
    · rename_i label first
      show s.label = _
      rw [first]
      rfl
  | channel index =>
    refine .ok ?_
    show (if h : index < 8 then s.enterChannel ⟨index, h⟩ else s).label = _
    split <;> exact same
  | setting name value => exact same ▸ labelled_setting name value
  | bytes values => exact same ▸ labelled_data values
  | words values => exact .ok same
  | invocation name arguments => exact same ▸ labelled_invoke name arguments
  | broken text => exact .error _
  | unrecognized text =>
    refine .ok ?_
    show (if options.verbose then _ else s).label = _
    split <;> exact same

/-- What fails gives no name. -/
theorem labelled?_of_error {statement : Statement} {e : MusicError}
    (failed : s.step options statement = .error e) : statement.labelled? = none := by
  cases statement with
  | label name => simp [step] at failed
  | _ => rfl

/-- A lenient reading ends well, with the first label of its lines. -/
theorem run_lenient (lenient : options.strict = false) (errors : List String)
    (lines : List (List Char)) :
    ∃ t failures, s.run options errors lines = .ok (t, failures) ∧
      t.label = s.label.or (lines.findSome? fun line => (Statement.ofLine line).labelled?) := by
  induction lines generalizing s errors with
  | nil => exact ⟨s, errors, rfl, (Option.or_none ..).symm⟩
  | cons line rest ih =>
    rw [run, List.findSome?_cons]
    cases stepped : Importer.step options { s with line := s.line + 1 } (Statement.ofLine line) with
    | ok t =>
      have here : t.label = s.label.or (Statement.ofLine line).labelled? :=
        labelled_step (s := { s with line := s.line + 1 }) _ t stepped
      obtain ⟨u, failures, ran, label⟩ := ih (s := t) errors
      refine ⟨u, failures, ran, ?_⟩
      rw [label, here, Option.or_assoc]
      cases (Statement.ofLine line).labelled? <;> rfl
    | error e =>
      have unnamed := labelled?_of_error stepped
      simp only [lenient, Bool.false_eq_true, if_false, unnamed]
      exact ih (s := { s with line := s.line + 1 }) _

end Importer

/-! ### Labels of exported songs -/

/-- Among the lines of a text, its first label is the first that names something. -/
theorem findSome?_lines {front : List Statement} (behind : List Statement) {name : String}
    (named : IsName name)
    (other : ∀ statement ∈ front, statement.Written ∧ statement.reading.labelled? = none) :
    (lines (text (front ++ .label name :: behind)).toList).findSome?
      (fun line => (Statement.ofLine line).labelled?) = some name := by
  have written : ∀ statement ∈ front ++ [.label name], statement.Written := by
    intro statement member
    rcases List.mem_append.mp member with before | here
    · exact (other statement before).1
    · rw [List.mem_singleton.mp here]
      exact named
  have unnamed : (front.map (·.render.toList)).findSome?
      (fun line => (Statement.ofLine line).labelled?) = none := by
    rw [List.findSome?_eq_none_iff]
    intro line member
    obtain ⟨statement, before, rfl⟩ := List.mem_map.mp member
    rw [Statement.ofLine_render (other statement before).1]
    exact (other statement before).2
  rw [List.append_cons, lines_text_append written, List.map_append, List.findSome?_append,
    List.findSome?_append, unnamed, List.map_singleton, List.findSome?_singleton,
    Statement.ofLine_render (s := .label name) named]
  rfl

/-- In front of a song's label stand comments and the place it loops to. -/
theorem songStatements_front {song : Song} (single : '\n' ∉ song.name.toList)
    (segmented : song.segments ≠ []) :
    ∃ front behind, songStatements song {} = front ++ .label (songLabel song.name) :: behind ∧
      ∀ statement ∈ front, statement.Written ∧ statement.reading.labelled? = none := by
  have comments : ∀ statement ∈ songComments song,
      statement.Written ∧ statement.reading.labelled? = none := by
    have read : Importer.Reads {} {} (songComments song) {} :=
      Importer.reads_songComments single
    intro statement member
    refine ⟨read.written statement member, ?_⟩
    simp only [songComments, List.mem_cons, List.not_mem_nil, or_false] at member
    rcases member with rfl | rfl | rfl | rfl <;> rfl
  have loop : ∀ segment,
      (Statement.setting loopName (toString segment : String)).Written :=
    fun segment => ⟨by decide, (isName_toString segment).isWord⟩
  obtain ⟨segment, others, segments⟩ := List.exists_cons_of_ne_nil segmented
  unfold songStatements
  rw [segments]
  simp only [List.zipIdx_cons, List.flatMap_cons, segmentHeading, if_true, Option.getD_none,
    List.append_assoc, List.singleton_append]
  rw [← List.append_assoc]
  refine ⟨_, _, rfl, fun statement member => ?_⟩
  rcases List.mem_append.mp member with comment | setting
  · exact comments statement comment
  · cases looped : song.loopPoint with
    | none => simp [looped] at setting
    | some segment =>
      rw [looped] at setting
      rw [List.mem_singleton.mp setting]
      exact ⟨loop segment, rfl⟩

/-- A lenient reading of an exported song never fails, and the song it gives is named by the label
that was made from the name. -/
theorem name_importSong {song : Song} (options : ImportOptions) (lenient : options.strict = false)
    (single : '\n' ∉ song.name.toList) (segmented : song.segments ≠ []) :
    ∃ imported, (importSong (exportSong song {}) options).outcome = .ok imported ∧
      imported.song.name = songLabel song.name := by
  obtain ⟨front, behind, statements, other⟩ := songStatements_front single segmented
  obtain ⟨t, failures, ran, label⟩ := Importer.run_lenient (s := {}) lenient []
    (lines (exportSong song {}).toList)
  refine ⟨t.finish options failures (lines (exportSong song {}).toList).length, ?_, ?_⟩
  · rw [importSong, ran]
  · rw [exportSong, statements, findSome?_lines behind (isName_songLabel song.name) other] at label
    show t.label.getD "" = _
    rw [label]
    rfl

end SnesMusic.Assembly
