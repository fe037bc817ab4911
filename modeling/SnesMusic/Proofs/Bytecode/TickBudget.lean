import SnesMusic.Proofs.Bytecode.CallDepth

/-!
# Tick budgets

How far a track is read depends on the ticks that it is given. A call hands its ticks on in equal
shares, one for each repetition, and what does not divide evenly is left over: where a fragment uses
up such a share, the caller still has ticks and goes on. Main statements: a fragment that leaves
some of its ticks unused is read alike with more of them (`read_of_more`), and of two readings of a
track with different ticks one has the first events of the other, that with fewer ticks being the
shorter one where its shares come out even (`Image.prefix_of_more_ticks`).
-/
namespace SnesMusic

/-- A subroutine call as it is played: the ticks left to it and the timing in force. -/
structure PlayedCall where
  command : Command
  left : Nat
  timing : Timing
  deriving DecidableEq, Repr

/-- The ticks that each repetition of the call is given. -/
def PlayedCall.share (c : PlayedCall) : Nat := c.left / c.command.repeats.toNat

/-- The call leaves no ticks over behind a fragment that used up its share. -/
def PlayedCall.isEven (c : PlayedCall) (read : Report Fragment) : Bool :=
  match read.outcome with
  | .ok f => f.ticks ≠ c.share || c.left % c.command.repeats.toNat = 0
  | .error _ => true

namespace Playback

/-- The calls that are played. -/
def calls (call : UInt16 → UInt8 → Nat → Timing → Report Nat) (origin : UInt16) (budget : Nat) :
    Playback → List Token → List PlayedCall
  | _, [] => []
  | p, token :: rest =>
    if budget ≤ p.ticks then []
    else match token with
      | .finish | .truncated _ => []
      | .timing duration velocity => calls call origin budget (p.setTiming duration velocity) rest
      | .note pitch => calls call origin budget (p.note pitch) rest
      | .unknown index byte => calls call origin budget (p.skip origin index byte) rest
      | .command c =>
        if c.isCall then
          let called := call c.target c.repeats (budget - p.ticks) p.timing
          { command := c, left := budget - p.ticks, timing := p.timing } ::
            match called.outcome with
            | .error _ => []
            | .ok ticks => calls call origin budget
                (p.called ticks (called.notices.reverse ++ p.notices) (.ofCommand c)) rest
        else calls call origin budget (p.push (.ofCommand c)) rest

variable {call : UInt16 → UInt8 → Nat → Timing → Report Nat} {origin : UInt16}
  {budget more : Nat} {p q : Playback} {token : Token} {tokens rest : List Token} {f : Fragment}

theorem calls_of_goes (early : p.ticks < budget) (goes : Goes call origin budget p token q) :
    ∀ c ∈ calls call origin budget q rest, c ∈ calls call origin budget p (token :: rest) := by
  have going := Nat.not_le.mpr early
  intro c member
  cases goes with
  | timing | note | unknown => rwa [calls, if_neg going]
  | command plain =>
    rw [calls, if_neg going]
    simpa only [plain, Bool.false_eq_true, if_false] using member
  | call isCall taken =>
    rw [calls, if_neg going]
    simp only [isCall, if_true, taken]
    exact List.mem_cons_of_mem _ member

theorem mem_calls (early : p.ticks < budget) {c : Command} (isCall : c.isCall = true) :
    { command := c, left := budget - p.ticks, timing := p.timing } ∈
      calls call origin budget p (.command c :: rest) := by
  rw [calls, if_neg (Nat.not_le.mpr early)]
  simp only [isCall, if_true]
  exact List.mem_cons_self

theorem left_le_of_mem_calls {c : PlayedCall} (member : c ∈ calls call origin budget p tokens) :
    c.left ≤ budget := by
  induction tokens generalizing p with
  | nil => simp [calls] at member
  | cons token rest ih =>
    unfold calls at member
    split at member
    · simp at member
    · cases token with
      | finish | truncated => simp at member
      | timing | note | unknown => exact ih member
      | command c' =>
        simp only at member
        split at member
        · rcases List.mem_cons.mp member with rfl | later
          · exact Nat.sub_le _ _
          · split at later
            · simp at later
            · exact ih later
        · exact ih member

/-- The calls that leave ticks unused are played alike when there are more ticks. -/
def CallsKept (call : UInt16 → UInt8 → Nat → Timing → Report Nat) (origin : UInt16)
    (budget more : Nat) (p : Playback) (tokens : List Token) : Prop :=
  ∀ c ∈ calls call origin budget p tokens, ∀ n,
    (call c.command.target c.command.repeats c.left c.timing).outcome = .ok n → n < c.left →
      call c.command.target c.command.repeats (c.left + (more - budget)) c.timing =
        call c.command.target c.command.repeats c.left c.timing

theorem CallsKept.of_goes (kept : CallsKept call origin budget more p (token :: rest))
    (early : p.ticks < budget) (goes : Goes call origin budget p token q) :
    CallsKept call origin budget more q rest :=
  fun c member => kept c (calls_of_goes early goes c member)

/-- Where ticks are left after a token, more of them make no difference. -/
theorem goes_of_more (le : budget ≤ more) (small : budget ≤ maxTicks)
    (kept : CallsKept call origin budget more p (token :: rest))
    (goes : Goes call origin budget p token q) (under : q.ticks < budget)
    (early : p.ticks < budget) : Goes call origin more p token q := by
  cases goes with
  | timing duration velocity => exact .timing duration velocity
  | note pitch => exact .note pitch
  | unknown index byte => exact .unknown index byte
  | command plain => exact .command plain
  | @call c n isCall taken =>
    have sum : addTicks p.ticks n < budget := under
    have unused : n < budget - p.ticks := by
      unfold addTicks at sum
      omega
    have left : budget - p.ticks + (more - budget) = more - p.ticks := by omega
    have same := kept _ (mem_calls early isCall) n taken unused
    simp only [left] at same
    rw [← same] at taken ⊢
    exact .call isCall taken

/-- A playback that has ticks left at its end plays alike with more of them. -/
theorem plays_of_more (le : budget ≤ more) (small : budget ≤ maxTicks)
    (start : p.ticks ≤ maxTicks) (kept : CallsKept call origin budget more p tokens)
    (plays : Plays call origin budget p tokens q rest) (under : q.ticks < budget) :
    Plays call origin more p tokens q rest := by
  induction plays with
  | refl p tokens => exact .refl p tokens
  | step early goes further ih =>
    -- Ticks only add up, so those that are left at the end are left behind this token too.
    have next := ticks_le_maxTicks_of_goes start goes
    have between := Nat.lt_of_le_of_lt (ticks_le_of_plays next further) under
    exact .step (Nat.lt_of_lt_of_le early le) (goes_of_more le small kept goes between early)
      (ih next (kept.of_goes early goes) under)

theorem run_of_more (le : budget ≤ more) (small : budget ≤ maxTicks) (start : p.ticks ≤ maxTicks)
    (kept : CallsKept call origin budget more p tokens)
    (ran : (run call origin budget p tokens).outcome = .ok f) (under : f.ticks < budget) :
    run call origin more p tokens = run call origin budget p tokens := by
  obtain ⟨q, rest, plays, stops⟩ := run_ok ran
  have unspent : q.ticks < budget := by cases stops <;> exact under
  rw [run_of_plays (plays_of_more le small start kept plays unspent), run_of_plays plays]
  cases stops with
  | spent late => exact absurd late (Nat.not_le.mpr unspent)
  | ended => rw [run, run]
  | marked =>
    rw [run, run, if_neg (Nat.not_le.mpr unspent),
      if_neg (Nat.not_le.mpr (Nat.lt_of_lt_of_le unspent le))]

/-- What is heard until the ticks are used up is heard with more of them. The last token uses them
up, and its event is the same however many there are. -/
theorem prefix_of_more (le : budget ≤ more) (small : budget ≤ maxTicks)
    (start : p.ticks ≤ maxTicks) (kept : CallsKept call origin budget more p tokens)
    (plays : Plays call origin budget p tokens q rest)
    (ran : (run call origin more p tokens).outcome = .ok f) :
    q.events.reverse <+: f.track.events := by
  induction plays with
  | refl p tokens => exact prefix_of_run ran
  | @step p next q token rest left early goes further ih =>
    have early' := Nat.lt_of_lt_of_le early le
    rcases Nat.lt_or_ge next.ticks budget with under | late
    · have goes' := goes_of_more le small kept goes under early
      rw [run_of_goes early' goes'] at ran
      exact ih (ticks_le_maxTicks_of_goes start goes) (kept.of_goes early goes) ran
    · have last : q = next := by
        cases further with
        | refl => rfl
        | step early => exact absurd early (Nat.not_lt.mpr late)
      subst last
      rcases goes_of_run early' ran with rfl | ⟨next', goes'⟩
      · cases goes
      · rw [run_of_goes early' goes'] at ran
        rw [← events_of_goes goes goes']
        exact prefix_of_run ran

end Playback

namespace Fragment

variable {u : Uploads} {limits : Limits}

/-- Throughout a reading no call leaves ticks over behind a fragment that used up its share. -/
def sharesEvenly (u : Uploads) (limits : Limits) :
    (levels : Nat) → (callers : List UInt16) → (address : UInt16) → (budget : Nat) → Timing → Bool
  | 0, _, _, _, _ => true
  | levels + 1, callers, address, budget, timing =>
    if address = 0 ∨ address ∈ callers then true
    else
      let bytes := (u.from? address).getD []
      (Playback.calls (call u limits levels (address :: callers)) address budget { timing }
          (Token.lex bytes)).all fun c =>
        c.command.repeats = 0 ||
          c.isEven (read u limits levels (address :: callers) c.command.target c.share c.timing) &&
          sharesEvenly u limits levels (address :: callers) c.command.target c.share c.timing

/-- The calls of a reading whose shares come out even. -/
theorem isEven_of_sharesEvenly {levels : Nat} {callers : List UInt16} {address : UInt16}
    {budget : Nat} {timing : Timing} {bytes : List UInt8}
    (even : sharesEvenly u limits (levels + 1) callers address budget timing = true)
    (nonzero : address ≠ 0) (fresh : address ∉ callers) (found : u.from? address = some bytes) :
    ∀ c ∈ Playback.calls (call u limits levels (address :: callers)) address budget { timing }
        (Token.lex bytes), c.command.repeats ≠ 0 →
      c.isEven (read u limits levels (address :: callers) c.command.target c.share c.timing) =
          true ∧
        sharesEvenly u limits levels (address :: callers) c.command.target c.share c.timing =
          true := by
  intro c member repeated
  have open' : ¬(address = 0 ∨ address ∈ callers) := not_or.mpr ⟨nonzero, fresh⟩
  rw [sharesEvenly, if_neg open'] at even
  simp only [found, Option.getD_some, List.all_eq_true] at even
  have here := even c member
  simpa [repeated] using here

/-- A call that leaves ticks unused is played alike with more of them. -/
theorem call_of_more {levels : Nat} {callers : List UInt16} {c : PlayedCall} {extra n : Nat}
    (small : c.left ≤ maxTicks)
    (even : c.command.repeats ≠ 0 →
      c.isEven (read u limits levels callers c.command.target c.share c.timing) = true)
    (kept : c.command.repeats ≠ 0 → ∀ f,
      (read u limits levels callers c.command.target c.share c.timing).outcome = .ok f →
        f.ticks < c.share →
          read u limits levels callers c.command.target
              ((c.left + extra) / c.command.repeats.toNat) c.timing =
            read u limits levels callers c.command.target c.share c.timing)
    (taken : (call u limits levels callers c.command.target c.command.repeats c.left
      c.timing).outcome = .ok n) (unused : n < c.left) :
    call u limits levels callers c.command.target c.command.repeats (c.left + extra) c.timing =
      call u limits levels callers c.command.target c.command.repeats c.left c.timing := by
  unfold call at taken ⊢
  by_cases once : c.command.repeats = 0
  · rw [if_pos once, if_pos once]
  rw [if_neg once] at taken ⊢
  rw [if_neg once]
  have positive : 0 < c.command.repeats.toNat :=
    Nat.pos_of_ne_zero fun zero => once (UInt8.toNat.inj zero)
  refine callTicks_of_reads (Nat.le_refl _) (fun f found => ?_) taken
  rw [outcome_callTicks_of_ok found, Except.ok.injEq] at taken
  have product : f.ticks * c.command.repeats.toNat < c.left := by
    unfold repeatTicks at taken
    omega
  have within : f.ticks ≤ c.share :=
    (Nat.le_div_iff_mul_le positive).mpr (Nat.le_of_lt product)
  have whole : f.ticks ≠ c.share := by
    intro used
    have divides : c.left % c.command.repeats.toNat = 0 := by
      have even := even once
      change (read u limits levels callers c.command.target c.share c.timing).outcome = _ at found
      simpa [PlayedCall.isEven, found, used] using even
    rw [used, PlayedCall.share, Nat.div_mul_cancel (Nat.dvd_of_mod_eq_zero divides)] at product
    exact Nat.lt_irrefl _ product
  exact kept once f found (Nat.lt_of_le_of_ne within whole)

/-- With so many levels, a fragment that leaves some of its ticks unused is read alike with more of
them. -/
def KeepsUnused (u : Uploads) (limits : Limits) (levels : Nat) (callers : List UInt16) : Prop :=
  ∀ (address : UInt16) (budget more : Nat) (timing : Timing) (f : Fragment),
    budget ≤ more → budget ≤ maxTicks →
    sharesEvenly u limits levels callers address budget timing = true →
    (read u limits levels callers address budget timing).outcome = .ok f → f.ticks < budget →
      read u limits levels callers address more timing =
        read u limits levels callers address budget timing

theorem KeepsUnused.callsKept {levels : Nat} {callers : List UInt16} {address : UInt16}
    {budget : Nat} {timing : Timing} {bytes : List UInt8}
    (keeps : KeepsUnused u limits levels (address :: callers)) (small : budget ≤ maxTicks)
    (even : sharesEvenly u limits (levels + 1) callers address budget timing = true)
    (nonzero : address ≠ 0) (fresh : address ∉ callers) (found : u.from? address = some bytes)
    (more : Nat) :
    Playback.CallsKept (call u limits levels (address :: callers)) address budget more { timing }
      (Token.lex bytes) := by
  intro c member n taken unused
  have left : c.left ≤ maxTicks := Nat.le_trans (Playback.left_le_of_mem_calls member) small
  have evenly := isEven_of_sharesEvenly even nonzero fresh found c member
  refine call_of_more left (fun once => (evenly once).1) ?_ taken unused
  intro once f read' rest
  exact keeps _ _ _ _ f (Nat.div_le_div_right (Nat.le_add_right _ _))
    (Nat.le_trans (Nat.div_le_self _ _) left) (evenly once).2 read' rest

/-- A fragment that leaves some of its ticks unused is read alike with more of them, where the
shares of its calls come out even. -/
theorem read_of_more (levels : Nat) (callers : List UInt16) :
    KeepsUnused u limits levels callers := by
  induction levels generalizing callers with
  | zero =>
    intro address budget more timing f _ _ _ _ _
    rw [read.eq_def, read.eq_def u limits 0 callers address budget]
  | succ levels ih =>
    intro address budget more timing f le small even found unused
    rcases read_ok found with ⟨rfl, -⟩ | ⟨rest, bytes, here, null, circular, there, ran⟩
    · rw [read, read, if_pos rfl, if_pos rfl]
    · obtain rfl := Nat.succ.inj here
      rw [read_of_found null circular there, read_of_found null circular there]
      have kept := (ih (address :: callers)).callsKept small even null circular there more
      exact Playback.run_of_more le small (Nat.zero_le _) kept ran unused

/-- Two readings of a fragment with different ticks: both are of an empty track, or both play the
bytes of the fragment. -/
theorem reads_cases {levels : Nat} {callers : List UInt16} {address : UInt16}
    {budget more : Nat} {timing : Timing} {f g : Fragment}
    (short : (read u limits levels callers address budget timing).outcome = .ok f)
    (long : (read u limits levels callers address more timing).outcome = .ok g) :
    f = g ∨ ∃ levels' bytes, levels = levels' + 1 ∧ address ≠ 0 ∧ address ∉ callers ∧
      u.from? address = some bytes ∧
      (Playback.run (call u limits levels' (address :: callers)) address budget { timing }
        (Token.lex bytes)).outcome = .ok f ∧
      (Playback.run (call u limits levels' (address :: callers)) address more { timing }
        (Token.lex bytes)).outcome = .ok g := by
  rcases read_ok short with ⟨rfl, rfl⟩ | ⟨levels, bytes, rfl, null, circular, there, ran⟩
  · rcases read_ok long with ⟨-, rfl⟩ | ⟨_, _, -, null, -⟩
    · exact .inl rfl
    · exact absurd rfl null
  · rw [read_of_found null circular there] at long
    exact .inr ⟨levels, bytes, rfl, null, circular, there, ran, long⟩

/-- Whatever ticks a fragment is given, it is heard from its beginning. -/
theorem prefix_or_prefix {levels : Nat} {callers : List UInt16} {address : UInt16}
    {budget more : Nat} {timing : Timing} {f g : Fragment}
    (short : (read u limits levels callers address budget timing).outcome = .ok f)
    (long : (read u limits levels callers address more timing).outcome = .ok g) :
    f.track.events <+: g.track.events ∨ g.track.events <+: f.track.events := by
  obtain rfl | ⟨levels, bytes, rfl, null, circular, there, ran, ran'⟩ := reads_cases short long
  · exact .inl (List.prefix_refl _)
  · exact List.prefix_or_prefix_of_prefix (Playback.prefix_score ran) (Playback.prefix_score ran')

/-- With fewer ticks less is heard of a fragment, where the shares of its calls come out even. -/
theorem prefix_of_sharesEvenly {levels : Nat} {callers : List UInt16} {address : UInt16}
    {budget more : Nat} {timing : Timing} {f g : Fragment} (le : budget ≤ more)
    (small : budget ≤ maxTicks)
    (even : sharesEvenly u limits levels callers address budget timing = true)
    (short : (read u limits levels callers address budget timing).outcome = .ok f)
    (long : (read u limits levels callers address more timing).outcome = .ok g) :
    f.track.events <+: g.track.events := by
  rcases Nat.lt_or_ge f.ticks budget with unused | used
  · rw [read_of_more levels callers _ _ _ _ f le small even short unused, short] at long
    obtain rfl := Except.ok.inj long
    exact List.prefix_refl _
  · obtain rfl | ⟨levels, bytes, rfl, null, circular, there, ran, ran'⟩ := reads_cases short long
    · exact List.prefix_refl _
    · have kept :=
        (read_of_more levels (address :: callers)).callsKept small even null circular there more
      obtain ⟨q, rest, plays, stops⟩ := Playback.run_ok ran
      have heard := Playback.prefix_of_more le small (Nat.zero_le _) kept plays ran'
      cases stops with
      | spent => exact heard
      | ended => exact heard
      | marked early => exact absurd early (Nat.not_lt.mpr used)

end Fragment

/-- Of two readings of a track with different ticks one has the first events of the other. It is
that with fewer ticks, unless one of its calls leaves ticks over behind a fragment that used up its
share. -/
theorem Image.prefix_of_more_ticks {image : Image} {bank : UploadBank} {limits : Limits}
    {address : UInt16} {more : Nat} {short long : Track} (le : limits.ticks ≤ more)
    (small : limits.ticks ≤ maxTicks)
    (first : (image.track bank limits address).outcome = .ok short)
    (second : (image.track bank { limits with ticks := more } address).outcome = .ok long) :
    (short.events <+: long.events ∨ long.events <+: short.events) ∧
      (Fragment.sharesEvenly (Uploads.ofImage image bank) limits limits.depth [] address
          limits.ticks {} = true → short.events <+: long.events) := by
  obtain ⟨-, f, read, rfl⟩ := track_ok first
  obtain ⟨-, g, read', rfl⟩ := track_ok second
  -- The limit on ticks is not looked at inside.
  have same : (Fragment.read (Uploads.ofImage image bank) limits limits.depth [] address more
      {}).outcome = .ok g := by
    rw [← read']
    exact congrArg _ (Fragment.read_of_deeper (Nat.le_refl _) read')
  constructor
  · exact Fragment.prefix_or_prefix read same
  · intro even
    exact Fragment.prefix_of_sharesEvenly le small even read same

/-- A track that calls a fragment of three notes three times before a note of its own. -/
def thriceBlock : SingleBlock := {
  bank := .dungeon
  address := 0xD000
  payload := [
    0xEF, 0x07, 0xD0, 0x03, 0x01, 0xA4, 0x00,
    0x01, 0xA4, 0xA4, 0xA4, 0x00] }

def thriceNote : Event := .note { pitch := 0xA4, duration := 0x01, timed := true }

theorem track_thriceBlock {limits : Limits} {address : UInt16} {track : Track}
    (read : (Uploads.track { bank := .dungeon, blocks := [thriceBlock.placed] } limits
      address).outcome = .ok track) :
    ((Image.ofBlocks [thriceBlock]).track .dungeon limits address).outcome = .ok track := by
  rw [Image.track_of_isLoaded (Image.isLoaded_ofBlocks _), Image.uploads_ofBlocks (by decide)
    (by decide)]
  exact read

/-- With six ticks each of the three has two; the note comes after them with a hundred ticks. -/
theorem thrice_prefix_of_more_ticks :
    let image := Image.ofBlocks [thriceBlock]
    6 ≤ 100 ∧ 6 ≤ maxTicks ∧
      (image.track .dungeon { ticks := 6 } 0xD000).outcome = .ok (.ofEvents [.call 0xD007 3]) ∧
      (image.track .dungeon { ticks := 100 } 0xD000).outcome =
        .ok (.ofEvents [.call 0xD007 3, thriceNote, .finish]) ∧
      Fragment.sharesEvenly (Uploads.ofImage image .dungeon) { ticks := 6 } 100 [] 0xD000 6 {} =
        true ∧
      [Event.call 0xD007 3] <+: [.call 0xD007 3, thriceNote, .finish] := by
  have short := track_thriceBlock (Report.ok_of_toOption (by decide +kernel) :
    (Uploads.track _ { ticks := 6 } 0xD000).outcome = .ok (.ofEvents [.call 0xD007 3]))
  have long := track_thriceBlock (Report.ok_of_toOption (by decide +kernel) :
    (Uploads.track _ { ticks := 100 } 0xD000).outcome =
      .ok (.ofEvents [.call 0xD007 3, thriceNote, .finish]))
  have even : Fragment.sharesEvenly (Uploads.ofImage (Image.ofBlocks [thriceBlock]) .dungeon)
      { ticks := 6 } 100 [] 0xD000 6 {} = true := by
    rw [Image.uploads_ofBlocks (by decide) (by decide)]
    decide +kernel
  exact ⟨by decide, by decide, short, long, even,
    (Image.prefix_of_more_ticks (by decide) (by decide) short long).2 even⟩

/-- With five ticks each of the three has one, and two are left for the note. With six it is not
heard: more ticks may give less of a track. -/
theorem more_ticks_may_shorten :
    ¬ ∀ (image : Image) (bank : UploadBank) (limits : Limits) (address : UInt16) (more : Nat)
        (short long : Track), limits.ticks ≤ more → more ≤ maxTicks →
        (image.track bank limits address).outcome = .ok short →
        (image.track bank { limits with ticks := more } address).outcome = .ok long →
          short.events <+: long.events := by
  intro always
  have heard := always _ .dungeon { ticks := 5 } 0xD000 6 _ _ (by decide) (by decide)
    (track_thriceBlock (Report.ok_of_toOption (by decide +kernel) :
      (Uploads.track _ { ticks := 5 } 0xD000).outcome =
        .ok (.ofEvents [.call 0xD007 3, thriceNote, .finish])))
    (track_thriceBlock (Report.ok_of_toOption (by decide +kernel) :
      (Uploads.track _ { ticks := 6 } 0xD000).outcome = .ok (.ofEvents [.call 0xD007 3])))
  exact absurd heard (by decide)

end SnesMusic
