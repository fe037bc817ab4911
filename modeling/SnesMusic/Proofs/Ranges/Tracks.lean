import SnesMusic.Proofs.Bytecode.Calls
import SnesMusic.Proofs.Bytecode.TrackReading
import SnesMusic.Proofs.Ranges.Uploads

/-!
# Tracks on a machine

Bytecode is played from a position in its data, byte by byte, without being split into tokens first.
Main statements: one step plays the token that stands at the position (`step_eq`) and moves on, so
that the loop plays the tokens from there on (`play_eq`), and a fragment of an image is read within
the machine's bounds, its calls included (`fragment_eq`).
-/
namespace SnesMusic.Trapping

/-! ### Commands -/

/-- Number of parameter bytes that follow an opcode. -/
def arity (opcode : UInt8) : Trapping Nat :=
  if isOpcode opcode then do
    let row ← minus opcode.toNat firstOpcode.toNat
    item arities row
  else pure 0

/-- A list with its first `count` elements replaced by those of another. -/
def copyFront {α : Type} (xs ys : List α) (count : Nat) : Trapping (List α) := do
  let _ ← part xs 0 count
  let front ← part ys 0 count
  pure (front ++ xs.drop count)

/-- A command with the given parameters. -/
def command (opcode : UInt8) (params : List UInt8) : Trapping Command := do
  let width ← arity opcode
  let filled ← copyFront [0, 0, 0] params (min width params.length)
  pure {
    opcode
    first := filled.getD 0 0
    second := filled.getD 1 0
    third := filled.getD 2 0 }

theorem arity_eq (opcode : UInt8) : arity opcode = pure (SnesMusic.arity opcode) := by
  unfold arity SnesMusic.arity
  split
  · rename_i classed
    have low := (isOpcode_iff opcode).mp classed
    have high := opcode.toNat_lt
    have row : opcode.toNat - firstOpcode.toNat < arities.length := by
      rw [show arities.length = 32 from rfl, show firstOpcode.toNat = 224 from rfl]
      omega
    rw [minus_eq (show firstOpcode.toNat ≤ opcode.toNat from low), pure_bind,
      item_eq (List.getElem?_eq_getElem row), List.getD_eq_getElem?_getD,
      List.getElem?_eq_getElem row, Option.getD_some]
  · rfl

theorem getD_append_zeros (xs : List UInt8) (count i : Nat) :
    (xs ++ List.replicate count 0).getD i 0 = xs.getD i 0 := by
  simp only [List.getD_eq_getElem?_getD, List.getElem?_append, List.getElem?_replicate]
  split
  · rfl
  · rename_i outside
    rw [List.getElem?_eq_none (Nat.le_of_not_lt outside)]
    split <;> rfl

theorem command_eq (opcode : UInt8) (params : List UInt8) :
    command opcode params = pure (Command.ofParams opcode params) := by
  have few := arity_le opcode
  have kept : params.take (min (SnesMusic.arity opcode) params.length) =
      params.take (SnesMusic.arity opcode) := by
    rw [← List.take_take, List.take_length]
  have copied : copyFront [0, 0, 0] params (min (SnesMusic.arity opcode) params.length) =
      pure (params.take (SnesMusic.arity opcode) ++
        List.replicate (3 - min (SnesMusic.arity opcode) params.length) 0) := by
    rw [copyFront, part_zero (by simp only [List.length_cons, List.length_nil]; omega), pure_bind,
      part_zero (Nat.min_le_right _ _), pure_bind, kept]
    rw [show ([0, 0, 0] : List UInt8) = List.replicate 3 0 from rfl, List.drop_replicate]
  rw [command, arity_eq, pure_bind, copied, pure_bind]
  simp only [getD_append_zeros]
  rfl

/-! ### Steps -/

/-- What a step comes to: the report of the fragment, or the position of what is next. -/
inductive Step where
  | stop (report : Report Fragment)
  | next (position : Nat) (p : Playback)

variable (call : UInt16 → UInt8 → Nat → Timing → Trapping (Report Nat)) (origin : UInt16)
  (data : List UInt8) (budget : Nat)

/-- Plays a subroutine call; what is next stands at `position`. -/
def playCall (position : Nat) (p : Playback) (c : Command) : Trapping Step := do
  let left ← minus budget p.ticks
  let called ← call c.target c.repeats left p.timing
  let p := { p with notices := called.notices.reverse ++ p.notices }
  match called.outcome with
  | .error e => pure (.stop (p.fail e))
  | .ok ticks =>
    let p := { p with ticks := addTicks p.ticks ticks }
    pure (.next position (p.push (Event.ofCommand c)))

/-- Plays a command; its parameters stand at `position`. -/
def playCommand (position : Nat) (p : Playback) (opcode : UInt8) : Trapping Step := do
  let width ← arity opcode
  let stop ← index (position + width)
  match range? data position stop with
  | none => pure (.stop (p.fail (.malformed (.truncatedCommand opcode origin))))
  | some params => do
    let position ← index (position + width)
    let c ← command opcode params
    if c.isCall then playCall call budget position p c
    else pure (.next position (p.push (Event.ofCommand c)))

/-- Plays what stands at `position`. A byte without meaning is told with its address, which is
counted back from the position behind it. -/
def step (position : Nat) (p : Playback) : Trapping Step := do
  let byte ← item data position
  let position ← index (position + 1)
  if byte = 0 then pure (.stop (p.push .finish).done)
  else if isDuration byte then
    match data[position]?.filter isDuration with
    | none => pure (.next position (p.setTiming byte none))
    | some velocity => do
      let position ← index (position + 1)
      pure (.next position (p.setTiming byte (some velocity)))
  else if isPitch byte then pure (.next position (p.note byte))
  else if isOpcode byte then playCommand call origin data budget position p byte
  else do
    let before ← minus (position % UInt16.size) 1
    pure (.next position (p.skip origin before byte))

/-- Plays the data from `position` on until it ends or the ticks are used up. -/
def play (position : Nat) (p : Playback) : Trapping (Report Fragment) :=
  if _ : position < data.length ∧ p.ticks < budget then do
    match ← step call origin data budget position p with
    | .stop report => pure report
    | .next after p => if _ : position < after then play after p else throw .idle
  else pure p.done
termination_by data.length - position

/-! ### Steps and tokens -/

variable {call origin data budget} {called : UInt16 → UInt8 → Nat → Timing → Report Nat}

/-- What a token comes to when what is next stands at `after`. -/
def tokenStep (called : UInt16 → UInt8 → Nat → Timing → Report Nat) (origin : UInt16)
    (budget after : Nat) (p : Playback) : Token → Step
  | .finish => .stop (p.push .finish).done
  | .timing duration velocity => .next after (p.setTiming duration velocity)
  | .note pitch => .next after (p.note pitch)
  | .unknown i byte => .next after (p.skip origin i byte)
  | .truncated opcode => .stop (p.fail (.malformed (.truncatedCommand opcode origin)))
  | .command c =>
    if c.isCall then
      let result := called c.target c.repeats (budget - p.ticks) p.timing
      let p := { p with notices := result.notices.reverse ++ p.notices }
      match result.outcome with
      | .error e => .stop (p.fail e)
      | .ok ticks =>
        .next after ({ p with ticks := addTicks p.ticks ticks }.push (Event.ofCommand c))
    else .next after (p.push (Event.ofCommand c))

/-- Playing tokens goes on with the rest unless the first one is where it stops. -/
theorem run_cons {p : Playback} (left : p.ticks < budget) (after : Nat) (token : Token)
    (rest : List Token) :
    Playback.run called origin budget p (token :: rest) =
      match tokenStep called origin budget after p token with
      | .stop report => report
      | .next _ p => Playback.run called origin budget p rest := by
  have going := Nat.not_le.mpr left
  cases token with
  | finish => rw [Playback.run, if_neg going]; rfl
  | timing duration velocity => rw [Playback.run, if_neg going]; rfl
  | note pitch => rw [Playback.run, if_neg going]; rfl
  | unknown i byte => rw [Playback.run, if_neg going]; rfl
  | truncated opcode => rw [Playback.run, if_neg going]; rfl
  | command c =>
    rw [Playback.run, if_neg going, tokenStep]
    cases c.isCall with
    | false => rfl
    | true =>
      simp only [if_true]
      cases (called c.target c.repeats (budget - p.ticks) p.timing).outcome <;> rfl

/-- Playing goes on only behind a token that is not the last. -/
theorem next_of_tokenStep {after place : Nat} {p next : Playback} {token : Token}
    (goes : tokenStep called origin budget after p token = .next place next) :
    place = after ∧ token.isLast = false := by
  cases token with
  | finish | truncated _ => simp [tokenStep] at goes
  | timing _ _ | note _ | unknown _ _ =>
    simp only [tokenStep, Step.next.injEq] at goes
    exact ⟨goes.1.symm, rfl⟩
  | command c =>
    simp only [tokenStep] at goes
    split at goes
    · split at goes
      · simp at goes
      · exact ⟨(Step.next.inj goes).1.symm, rfl⟩
    · exact ⟨(Step.next.inj goes).1.symm, rfl⟩

/-- Every call is accepted, with the report it is to have. -/
def Accepts (call : UInt16 → UInt8 → Nat → Timing → Trapping (Report Nat))
    (called : UInt16 → UInt8 → Nat → Timing → Report Nat) : Prop :=
  ∀ target repeats left timing,
    call target repeats left timing = pure (called target repeats left timing)

variable {position : Nat} {p : Playback} {opcode : UInt8}

theorem playCall_eq (calls : Accepts call called) (left : p.ticks < budget) {c : Command}
    (isCall : c.isCall = true) :
    playCall call budget position p c =
      pure (tokenStep called origin budget position p (.command c)) := by
  rw [playCall, minus_eq (Nat.le_of_lt left), pure_bind, calls _ _ _ _, pure_bind]
  simp only [tokenStep, isCall, if_true]
  cases (called c.target c.repeats (budget - p.ticks) p.timing).outcome <;> rfl

theorem range?_eq {α : Type} (xs : List α) (start count : Nat) :
    range? xs start (start + count) =
      if start + count ≤ xs.length then some ((xs.drop start).take count) else none := by
  rw [range?]
  split
  · rename_i inside
    rw [if_pos inside.2, List.drop_take, Nat.add_sub_cancel_left]
  · rename_i outside
    rw [if_neg fun inside => outside ⟨Nat.le_add_right _ _, inside⟩]

theorem playCommand_eq (calls : Accepts call called) (small : data.length < UInt16.size)
    (inside : position ≤ data.length) (left : p.ticks < budget) :
    playCommand call origin data budget position p opcode =
      pure (tokenStep called origin budget (position + SnesMusic.arity opcode) p
        (if ((data.drop position).take (SnesMusic.arity opcode)).length < SnesMusic.arity opcode
          then .truncated opcode
          else .command (.ofParams opcode
            ((data.drop position).take (SnesMusic.arity opcode))))) := by
  have few := arity_le opcode
  unfold UInt16.size at small
  have fits := index_eq_of_small (n := position + SnesMusic.arity opcode) (by omega)
  rw [playCommand, arity_eq, pure_bind, fits, pure_bind, range?_eq,
    List.length_take, List.length_drop]
  by_cases whole : position + SnesMusic.arity opcode ≤ data.length
  · rw [if_pos whole, if_neg (by omega)]
    simp only [pure_bind, command_eq]
    cases isCall : (Command.ofParams opcode
        ((data.drop position).take (SnesMusic.arity opcode))).isCall with
    | true => exact playCall_eq calls left isCall
    | false =>
      rw [tokenStep, isCall]
      rfl
  · rw [if_neg whole, if_pos (by omega)]
    rfl

/-- What is left from a place on begins with the element there. -/
theorem of_drop_eq_cons {α : Type} {xs rest : List α} {i : Nat} {x : α}
    (here : xs.drop i = x :: rest) : i < xs.length ∧ xs[i]? = some x ∧ xs.drop (i + 1) = rest := by
  refine ⟨?_, ?_, ?_⟩
  · by_contra outside
    rw [List.drop_eq_nil_of_le (Nat.le_of_not_lt outside)] at here
    simp at here
  · rw [← Nat.add_zero i, ← List.getElem?_drop, here]
    rfl
  · rw [← List.drop_drop, here]
    rfl

/-- A step plays the token at its position and goes on behind it. -/
theorem step_eq (calls : Accepts call called) (small : data.length < UInt16.size)
    (left : p.ticks < budget) {byte : UInt8} {rest : List UInt8}
    (here : data.drop position = byte :: rest) :
    step call origin data budget position p =
      pure (tokenStep called origin budget (position + (Token.read position byte rest).width) p
        (Token.read position byte rest)) := by
  obtain ⟨inside, first, behind⟩ := of_drop_eq_cons here
  have bound : data.length < 65536 := small
  rw [step, item_eq first, pure_bind, index_eq_of_small (by omega), pure_bind]
  by_cases zero : byte = 0
  · subst zero
    rfl
  rw [if_neg zero]
  cases duration : isDuration byte with
  | true =>
    rw [if_pos rfl, Token.read_of_isDuration duration, ← behind, List.head?_drop]
    cases data[position + 1]?.filter isDuration with
    | none => rfl
    | some velocity =>
      simp only [index_eq_of_small (show position + 1 + 1 < 2 ^ 32 by omega), pure_bind]
      rfl
  | false =>
    rw [if_neg Bool.false_ne_true]
    cases pitch : isPitch byte with
    | true =>
      rw [if_pos rfl, Token.read_of_isPitch pitch]
      rfl
    | false =>
      rw [if_neg Bool.false_ne_true]
      rw [Token.read, if_neg zero, duration, if_neg Bool.false_ne_true, pitch,
        if_neg Bool.false_ne_true]
      cases opcode : isOpcode byte with
      | true =>
        rw [if_pos rfl, if_pos rfl, playCommand_eq calls small (by omega) left, behind]
        simp only
        split
        · rfl
        · rw [Nat.add_assoc]
          rfl
      | false =>
        rw [if_neg Bool.false_ne_true, if_neg Bool.false_ne_true,
          Nat.mod_eq_of_lt (by unfold UInt16.size; omega), minus_eq (by omega), pure_bind,
          Nat.add_sub_cancel]
        rfl

/-- The loop plays the tokens from its position on. -/
theorem play_eq (calls : Accepts call called) (small : data.length < UInt16.size)
    (position : Nat) (p : Playback) :
    play call origin data budget position p = pure
      (Playback.run called origin budget p (Token.lexFrom [] position (data.drop position))) := by
  -- The data behind the position gets shorter with every token.
  induction behind : data.length - position using Nat.strongRecOn generalizing position p with
  | ind n ih =>
    rw [play]
    split
    · rename_i going
      obtain ⟨byte, rest, here⟩ : ∃ byte rest, data.drop position = byte :: rest :=
        ⟨_, _, List.drop_eq_getElem_cons going.1⟩
      obtain ⟨-, -, next⟩ := of_drop_eq_cons here
      have positive := Token.width_pos (Token.read position byte rest)
      have skipped : data.drop (position + (Token.read position byte rest).width) =
          rest.drop ((Token.read position byte rest).width - 1) := by
        rw [show position + (Token.read position byte rest).width =
          position + 1 + ((Token.read position byte rest).width - 1) by omega, ← List.drop_drop,
          next]
      rw [step_eq calls small going.2 here, pure_bind, here, Token.lexFrom_cons,
        run_cons going.2 (position + (Token.read position byte rest).width)]
      cases outcome : tokenStep called origin budget
          (position + (Token.read position byte rest).width) p (Token.read position byte rest) with
      | stop report => rfl
      | next after p' =>
        obtain ⟨rfl, further⟩ := next_of_tokenStep outcome
        simp only [dif_pos (show position < position + (Token.read position byte rest).width by
          omega), further, Bool.false_eq_true, if_false]
        rw [ih _ (by omega) _ _ rfl, skipped]
    · rename_i stays
      by_cases inside : position < data.length
      · rw [Playback.run_of_budget_le (Nat.le_of_not_lt fun left => stays ⟨inside, left⟩)]
      · rw [List.drop_eq_nil_of_le (Nat.le_of_not_lt inside)]
        simp [Token.lexFrom, Playback.run]

/-! ### Fragments -/

/-- Reads the fragment at an address. -/
def fragment (image : Image) (bank : UploadBank) (limits : Limits) (levels : Nat)
    (callers : List UInt16) (address : UInt16) (budget : Nat) (timing : Timing) :
    Trapping (Report Fragment) :=
  if address = 0 then pure (.ok { track := .silent, ticks := 0 })
  else if address ∈ callers then pure (.fail (.circularReference address))
  else match levels with
    | 0 => pure (.fail (.depthExceeded limits.depth))
    | levels + 1 => do
      match ← require image bank address with
      | .error e => pure (.fail e)
      | .ok data =>
        let call (target : UInt16) (repeats : UInt8) (left : Nat) (timing : Timing) :
            Trapping (Report Nat) := do
          if repeats = 0 then pure (.ok 0)
          else
            let share ← quotient left repeats.toNat
            let called ← fragment image bank limits levels (address :: callers) target share timing
            pure (Fragment.callTicks repeats called)
        play call address data budget 0 { timing }

variable {image : Image}

/-- Every fragment of an image is read within the machine's bounds. -/
theorem fragment_eq (fits : image.size < USize.size) (bank : UploadBank) (limits : Limits)
    (levels : Nat) (callers : List UInt16) (address : UInt16) (budget : Nat) (timing : Timing) :
    fragment image bank limits levels callers address budget timing = pure
      (Fragment.read (Uploads.ofImage image bank) limits levels callers address budget timing) := by
  induction levels generalizing callers address budget timing with
  | zero =>
    rw [fragment.eq_def, Fragment.read.eq_def]
    split
    · rfl
    · split <;> rfl
  | succ levels ih =>
    rw [fragment.eq_def, Fragment.read.eq_def]
    by_cases null : address = 0
    · rw [if_pos null, if_pos null]
    by_cases circular : address ∈ callers
    · rw [if_neg null, if_neg null, if_pos circular, if_pos circular]
    rw [if_neg null, if_neg null, if_neg circular, if_neg circular]
    simp only [require_eq fits, pure_bind]
    cases required : (Uploads.ofImage image bank).require address with
    | error e => rfl
    | ok data =>
      refine play_eq ?_ (length_lt_of_require required) 0 _
      intro target repeats left timing
      by_cases none : repeats = 0
      · simp only [none, if_true]
      · have some : repeats.toNat ≠ 0 := fun zero => none (UInt8.toNat.inj zero)
        simp only [none, if_false, quotient_eq some, ih, pure_bind]

end SnesMusic.Trapping
