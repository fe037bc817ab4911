import SnesMusic.Proofs.Assembly.Lines

/-!
# Strict and lenient readings

A lenient reading warns of what a strict one fails over, and up to the first complaint both take the
same steps. Main statements: a complaint is never worded like a remark (`not_isRemark_atLine`), the
two readings take each statement abreast (`abreast_step`), and so a strict reading succeeds, with
the result of the lenient one, exactly when that has neither errors nor complaints
(`strict_import`).
-/
namespace SnesMusic.Assembly

open Text

/-! ### Remarks -/

/-- A warning that a strict reading gives as well: of a line that is no statement, or of a loop to a
segment that does not exist. -/
def IsRemark (warning : String) : Prop :=
  (∃ (line : Nat) (text : String), warning = Importer.atLine line s!"Unrecognized: {text}") ∨
    ∃ segment : Nat, warning = s!"Loop segment {segment} does not exist"

theorem toList_atLine (line : Nat) (message : String) : (Importer.atLine line message).toList =
    "Line ".toList ++ ((toString line).toList ++ ':' :: ' ' :: message.toList) := by
  dsimp only [Importer.atLine, toString]
  simp [String.toList_append]

/-- A message can be told from the line in front of it. -/
theorem atLine_inj {line other : Nat} {message text : String}
    (same : Importer.atLine line message = Importer.atLine other text) : message = text := by
  have free : ∀ n : Nat, ':' ∉ (toString n).toList :=
    fun n => (isName_toString n).isWord.not_mem (by decide)
  have behind := congrArg String.toList same
  rw [toList_atLine, toList_atLine, List.append_cancel_left_eq] at behind
  have cut := congrArg (cutAt ':') behind
  rw [cutAt_append (free line), cutAt_append (free other)] at cut
  simp only [Option.some.injEq, Prod.mk.injEq, List.cons.injEq, true_and] at cut
  exact String.toList_inj.mp cut.2

/-- Messages of what is malformed do not begin like a remark. -/
theorem head?_message (cause : Malformation) : cause.message.toList.head? ≠ some 'U' := by
  intro begins
  cases cause with
  | wave trace =>
    dsimp only [Malformation.message, WaveTrace.text, toString] at begins
    split at begins <;> simp [String.toList_append] at begins
  | sourceErrors count path =>
    have digits : count.repr.toList = Nat.toDigits 10 count := Nat.toList_repr
    obtain ⟨digit, rest, chars⟩ :=
      List.exists_cons_of_ne_nil (Nat.toDigits_ne_nil (b := 10) (n := count))
    have isDigit : digit.isDigit = true :=
      Nat.isDigit_of_mem_toDigits (by decide) (by decide) (chars ▸ List.mem_cons_self ..)
    dsimp only [Malformation.message, toString] at begins
    simp only [String.toList_append, digits, chars, List.cons_append, List.head?_cons] at begins
    rw [Option.some.inj begins] at isDigit
    exact absurd isDigit (by decide)
  | _ =>
    dsimp only [Malformation.message, toString] at begins
    simp [String.toList_append] at begins

/-- The errors that a reader complains of. -/
inductive IsComplaint : MusicError → Prop where
  | malformed (cause : Malformation) : IsComplaint (.malformed cause)
  | unknownCall (name : String) : IsComplaint (.unknownCall name)

/-- No complaint is worded like a remark. -/
theorem not_isRemark_atLine {e : MusicError} (complaint : IsComplaint e) (line : Nat) :
    ¬IsRemark (Importer.atLine line e.message) := by
  have begins : e.message.toList.head? ≠ some 'U' := by
    cases complaint with
    | malformed cause => exact head?_message cause
    | unknownCall name =>
      intro begins
      dsimp only [MusicError.message, toString] at begins
      simp [String.toList_append] at begins
  rintro (⟨other, text, same⟩ | ⟨segment, same⟩)
  · apply begins
    rw [atLine_inj same]
    dsimp only [toString]
    simp [String.toList_append]
  · have chars := congrArg String.toList same
    rw [toList_atLine] at chars
    dsimp only [toString] at chars
    simp [String.toList_append] at chars

/-! ### Steps abreast -/

namespace Importer

/-- How a strict and a lenient step end that begin with the warnings `before`: both alike with
remarks only, or the strict one with an error where the lenient one has warned, or both with an
error. -/
inductive Abreast {α : Type} (before : List String) (state : α → Importer) :
    Except MusicError α → Except MusicError α → Prop where
  | same (added : List String) (a : α) (warnings : (state a).warnings = added ++ before)
      (remarks : ∀ w ∈ added, IsRemark w) : Abreast before state (.ok a) (.ok a)
  | complained (added : List String) (e : MusicError) (a : α)
      (warnings : (state a).warnings = added ++ before) (complaint : ∃ w ∈ added, ¬IsRemark w) :
      Abreast before state (.error e) (.ok a)
  | failed (e e' : MusicError) : Abreast before state (.error e) (.error e')

namespace Abreast

variable {α β : Type} {before after : List String} {state : α → Importer} {next : β → Importer}

/-- A step without warnings. -/
theorem quiet {a : α} (warnings : (state a).warnings = before) :
    Abreast before state (.ok a) (.ok a) :=
  .same [] a warnings fun _ none => nomatch none

/-- A lenient step takes no warning back. -/
theorem grows {first : Except MusicError α} {a : α} (taken : Abreast before state first (.ok a)) :
    ∃ added, (state a).warnings = added ++ before := by
  cases taken with
  | same added _ warnings _ => exact ⟨added, warnings⟩
  | complained added _ _ warnings _ => exact ⟨added, warnings⟩

theorem map {f : α → β} {first first' : Except MusicError α}
    (begun : Abreast before (next ∘ f) first first') :
    Abreast before next (first.map f) (first'.map f) := by
  cases begun with
  | same added a warnings remarks => exact .same added (f a) warnings remarks
  | complained added e a warnings complaint => exact .complained added e (f a) warnings complaint
  | failed e e' => exact .failed e e'

theorem bind {first first' : Except MusicError α} {rest rest' : α → Except MusicError β}
    (begun : Abreast before state first first')
    (ended : ∀ a, Abreast (state a).warnings next (rest a) (rest' a)) :
    Abreast before next (first >>= rest) (first' >>= rest') := by
  cases begun with
  | same added a warnings remarks =>
    show Abreast before next (rest a) (rest' a)
    have later := ended a
    rw [warnings] at later
    generalize rest a = strict, rest' a = lenient at later
    cases later with
    | same more b warnings' remarks' =>
      refine .same (more ++ added) b (by rw [warnings', List.append_assoc]) ?_
      exact fun w member => (List.mem_append.mp member).elim (remarks' w) (remarks w)
    | complained more e b warnings' complaint =>
      obtain ⟨w, member, bad⟩ := complaint
      exact .complained (more ++ added) e b (by rw [warnings', List.append_assoc])
        ⟨w, List.mem_append_left _ member, bad⟩
    | failed e e' => exact .failed e e'
  | complained added e a warnings complaint =>
    -- The strict reading has ended; what the lenient one does from here leaves the complaint.
    show Abreast before next (.error e) (rest' a)
    obtain ⟨w, member, bad⟩ := complaint
    have later := ended a
    generalize rest a = strict, rest' a = lenient at later
    cases lenient with
    | error e' => exact .failed e e'
    | ok b =>
      obtain ⟨more, warnings'⟩ := later.grows
      rw [warnings, ← List.append_assoc] at warnings'
      exact .complained (more ++ added) e b warnings' ⟨w, List.mem_append_right _ member, bad⟩
  | failed e e' => exact .failed e e'

end Abreast

variable {strict lenient : ImportOptions} {s : Importer}

section
variable (hard : strict.strict = true) (soft : lenient.strict = false)
include hard soft

theorem abreast_complain {e : MusicError} (complaint : IsComplaint e) :
    Abreast s.warnings id (s.complain strict e) (s.complain lenient e) := by
  rw [complain, complain, if_pos hard, soft]
  exact .complained [atLine s.line e.message] e _ rfl
    ⟨_, List.mem_singleton_self _, not_isRemark_atLine complaint s.line⟩

theorem abreast_take (value : Except Malformation UInt8) :
    Abreast s.warnings Prod.snd (s.take strict value) (s.take lenient value) := by
  cases value with
  | ok byte => exact .quiet rfl
  | error cause => exact (abreast_complain hard soft (.malformed cause)).map

theorem abreast_rawByte (byte : UInt8) :
    Abreast s.warnings id (s.rawByte strict byte) (s.rawByte lenient byte) := by
  unfold rawByte
  repeat' split
  · exact .quiet rfl
  · exact .quiet rfl
  · exact .quiet rfl
  · exact .quiet rfl
  · exact abreast_complain hard soft (.malformed _)

theorem abreast_datum (value : String) :
    Abreast s.warnings id (s.datum strict value) (s.datum lenient value) := by
  unfold datum
  split
  · split <;> exact .quiet rfl
  · split
    · exact .quiet rfl
    · refine (abreast_take hard soft _).bind fun (byte, t) => ?_
      cases byte with
      | none => exact .quiet rfl
      | some byte => exact abreast_rawByte hard soft (s := t.count 1) byte

theorem abreast_data (values : List String) :
    Abreast s.warnings id (s.data strict values) (s.data lenient values) := by
  induction values generalizing s with
  | nil => exact .quiet rfl
  | cons value rest ih => exact (abreast_datum hard soft value).bind fun t => ih (s := t)

theorem abreast_setting (name value : String) :
    Abreast s.warnings id (s.setting strict name value) (s.setting lenient name value) := by
  unfold setting
  repeat' split
  · exact .quiet rfl
  · exact abreast_complain hard soft (.malformed _)
  · exact .quiet rfl
  · exact abreast_complain hard soft (.malformed _)
  · exact .quiet rfl

theorem abreast_setDuration (duration : String) :
    Abreast s.warnings id (s.setDuration strict duration) (s.setDuration lenient duration) := by
  refine (abreast_take hard soft _).bind fun (duration, t) => ?_
  cases duration <;> exact .quiet rfl

theorem abreast_setTiming (duration velocity : String) :
    Abreast s.warnings id (s.setTiming strict duration velocity)
      (s.setTiming lenient duration velocity) := by
  refine (abreast_take hard soft _).bind fun (duration, t) => ?_
  refine (abreast_take hard soft _).bind fun (velocity, u) => ?_
  cases duration <;> cases velocity <;> exact .quiet rfl

theorem abreast_parameters (name : String) (taken : List UInt8) (arguments : List String) :
    Abreast s.warnings Prod.snd (s.parameters strict name taken arguments)
      (s.parameters lenient name taken arguments) := by
  induction arguments generalizing s taken with
  | nil => exact .quiet rfl
  | cons argument rest ih =>
    refine (abreast_take hard soft _).bind fun (byte, t) => ?_
    cases byte with
    | none => exact .quiet rfl
    | some byte =>
      simp only
      split
      · exact ih (s := t) _
      · exact (abreast_complain hard soft (.malformed _)).bind fun u => .quiet rfl

theorem abreast_command (name : String) (opcode : UInt8) (arguments : List String) :
    Abreast s.warnings id (s.command strict name opcode arguments)
      (s.command lenient name opcode arguments) := by
  refine (abreast_parameters hard soft _ _ _).bind fun (given, t) => ?_
  cases given with
  | none => exact .quiet rfl
  | some given =>
    simp only
    split
    · exact .quiet rfl
    · exact (abreast_complain hard soft (.malformed _)).bind fun u => .quiet rfl

theorem abreast_invoke (name : String) (arguments : List String) :
    Abreast s.warnings id (s.invoke strict name arguments) (s.invoke lenient name arguments) := by
  unfold invoke
  repeat' split
  · exact .quiet rfl
  · exact abreast_setDuration hard soft _
  · exact abreast_setTiming hard soft _ _
  · exact abreast_command hard soft _ _ _
  · exact abreast_complain hard soft (.unknownCall name)

/-- Readings that agree on remarks take every statement abreast. -/
theorem abreast_step (verbose : strict.verbose = lenient.verbose) (statement : Statement) :
    Abreast s.warnings id (s.step strict statement) (s.step lenient statement) := by
  cases statement with
  | blank | comment text | localLabel name | words values => exact .quiet rfl
  | label name =>
    apply Abreast.quiet
    show (s.enterLabel name).warnings = _
    unfold enterLabel
    split <;> rfl
  | channel index =>
    apply Abreast.quiet
    show (if h : index < 8 then s.enterChannel ⟨index, h⟩ else s).warnings = _
    split <;> rfl
  | setting name value => exact abreast_setting hard soft name value
  | bytes values => exact abreast_data hard soft values
  | invocation name arguments => exact abreast_invoke hard soft name arguments
  | broken text => exact .failed _ _
  | unrecognized text =>
    rw [step, step, verbose]
    cases lenient.verbose with
    | false => exact .quiet rfl
    | true =>
      refine .same [atLine s.line s!"Unrecognized: {text}"] _ rfl fun w member => ?_
      exact Or.inl ⟨s.line, text, List.mem_singleton.mp member⟩

/-! ### Runs abreast -/

/-- The lenient reading ends with what it adds to warnings and errors. Either the strict one ends
alike, and all that is added are remarks, or it has failed, and there is an error or a complaint. -/
theorem abreast_run (verbose : strict.verbose = lenient.verbose) (errors : List String)
    (lines : List (List Char)) :
    ∃ t found added, s.run lenient errors lines = .ok (t, found ++ errors) ∧
      t.warnings = added ++ s.warnings ∧
      ((s.run strict errors lines = .ok (t, errors) ∧ found = [] ∧ ∀ w ∈ added, IsRemark w) ∨
        (∃ e, s.run strict errors lines = .error e) ∧
          (found = [] → ∃ w ∈ added, ¬IsRemark w)) := by
  induction lines generalizing s errors with
  | nil => exact ⟨s, [], [], rfl, rfl, Or.inl ⟨rfl, rfl, fun _ none => nomatch none⟩⟩
  | cons line rest ih =>
    have step := abreast_step hard soft (s := { s with line := s.line + 1 }) verbose
      (Statement.ofLine line)
    rw [run, run]
    simp only at step ⊢
    generalize Importer.step strict _ (Statement.ofLine line) = first,
      Importer.step lenient _ (Statement.ofLine line) = first' at step ⊢
    cases step with
    | same added t warnings remarks =>
      obtain ⟨u, found, more, ran, heard, ended⟩ := ih (s := t) errors
      refine ⟨u, found, more ++ added, ran, ?_, ?_⟩
      · rw [heard, show t.warnings = added ++ s.warnings from warnings, List.append_assoc]
      · rcases ended with ⟨done, none, rest⟩ | ⟨stopped, complaint⟩
        · refine Or.inl ⟨done, none, fun w member => ?_⟩
          exact (List.mem_append.mp member).elim (rest w) (remarks w)
        · refine Or.inr ⟨stopped, fun none => ?_⟩
          obtain ⟨w, member, bad⟩ := complaint none
          exact ⟨w, List.mem_append_left _ member, bad⟩
    | complained added e t warnings complaint =>
      obtain ⟨u, found, more, ran, heard, -⟩ := ih (s := t) errors
      obtain ⟨w, member, bad⟩ := complaint
      refine ⟨u, found, more ++ added, ran, ?_, Or.inr ⟨⟨e, if_pos hard⟩, fun _ => ?_⟩⟩
      · rw [heard, show t.warnings = added ++ s.warnings from warnings, List.append_assoc]
      · exact ⟨w, List.mem_append_right _ member, bad⟩
    | failed e e' =>
      simp only [hard, soft, Bool.false_eq_true, if_true, if_false]
      obtain ⟨u, found, more, ran, heard, -⟩ := ih (s := { s with line := s.line + 1 })
        (atLine (s.line + 1) e'.message :: errors)
      refine ⟨u, found ++ [atLine (s.line + 1) e'.message], more, ?_, heard,
        Or.inr ⟨⟨e, rfl⟩, fun none => ?_⟩⟩
      · rw [ran, List.append_assoc, List.singleton_append]
      · exact absurd none (by simp)

end

/-- At the end there is at most a remark on the loop. -/
theorem forall_warnings_finish (options : ImportOptions) (errors : List String) (lines : Nat) :
    (∀ w ∈ (s.finish options errors lines).warnings, IsRemark w) ↔
      ∀ w ∈ s.warnings, IsRemark w := by
  constructor
  · intro all w member
    exact all w (List.mem_append_left _ (List.mem_reverse.mpr member))
  · intro all w member
    rcases List.mem_append.mp member with before | last
    · exact all w (List.mem_reverse.mp before)
    · obtain ⟨segment, -, same⟩ := List.mem_map.mp last
      exact Or.inr ⟨segment, same.symm⟩

end Importer

/-- A lenient reading never fails. A strict one of the same text succeeds exactly when the lenient
one found no errors and gave no warnings but remarks, and then both report the same. -/
theorem strict_import (source : String) (verbose : Bool) (bank : Bank) :
    let lenient := importSong source { strict := false, verbose, bank }
    let strict := importSong source { strict := true, verbose, bank }
    ∃ imported, lenient.outcome = .ok imported ∧
      ((∃ other, strict.outcome = .ok other) ↔
        imported.errors = [] ∧ ∀ w ∈ imported.warnings, IsRemark w) ∧
      ((∃ other, strict.outcome = .ok other) ↔ strict = lenient) := by
  intro lenient strict
  obtain ⟨t, found, added, ran, heard, ended⟩ := @Importer.abreast_run
    { strict := true, verbose, bank } { strict := false, verbose, bank } {} rfl rfl rfl []
    (lines source.toList)
  rw [List.append_nil] at ran heard
  have soft : lenient.outcome =
      .ok (t.finish { verbose, bank } found (lines source.toList).length) := by
    simp only [lenient, importSong, ran]
  have remarks : (∀ w ∈ (t.finish { verbose, bank } found (lines source.toList).length).warnings,
      IsRemark w) ↔ ∀ w ∈ added, IsRemark w := by
    rw [Importer.forall_warnings_finish, heard]
  refine ⟨_, soft, ?_⟩
  rw [remarks, show (t.finish _ found _).errors = found.reverse from rfl, List.reverse_eq_nil_iff]
  rcases ended with ⟨done, none, rest⟩ | ⟨⟨e, stopped⟩, complaint⟩
  · have same : strict = lenient := by
      simp only [strict, lenient, importSong, done, ran, none]
      rfl
    rw [same]
    exact ⟨⟨fun _ => ⟨none, rest⟩, fun _ => ⟨_, soft⟩⟩, ⟨fun _ => rfl, fun _ => ⟨_, soft⟩⟩⟩
  · have hard : strict.outcome = .error e := by
      simp only [strict, importSong, stopped]
      rfl
    have fails : ¬∃ other, strict.outcome = .ok other := by
      rintro ⟨other, given⟩
      rw [hard] at given
      cases given
    refine ⟨iff_of_false fails ?_, iff_of_false fails fun same => fails ⟨_, same ▸ soft⟩⟩
    rintro ⟨none, rest⟩
    obtain ⟨w, member, bad⟩ := complaint none
    exact bad (rest w member)

/-- A line that is no statement is passed over in a strict reading too. -/
example : (importSong "Tempo" { strict := true }).outcome.toOption.map (·.warnings) =
    some ["Line 1: Unrecognized: Tempo"] := by decide +kernel

/-- A byte without meaning is not. -/
example : (importSong "db $CA" { strict := true }).outcome.toOption = none ∧
    (importSong "db $CA" {}).outcome.toOption.map (·.warnings) =
      some ["Line 1: byte $CA has no meaning in a track"] := by decide +kernel

end SnesMusic.Assembly
