import Mathlib.Tactic
import SnesMusic.Proofs.Report

/-!
# Computing with machine numbers

Numbers, lists and differences of the library have no bounds; those of a machine do, and a program
that leaves them is stopped. `Trapping` computes under these bounds: a number has to fit its word, a
difference must not fall below zero, a place must lie inside its list, and a loop has to move on.
Each operation has a lemma for the arguments it accepts; on those it gives what the library gives.
`Reading` sequences reports under the same bounds. Main statement: where every part of a sequence is
accepted, so is the sequence, with the same report (`Reading.bind_ofReport`).
-/
namespace SnesMusic

/-- What stops a program. -/
inductive Trap where
  /-- A number that its word does not hold. -/
  | overflow
  /-- A place outside of a list. -/
  | bounds
  | zeroDivisor
  /-- A loop that does not move on. -/
  | idle
  deriving DecidableEq, Repr

abbrev Trapping (α : Type) := Except Trap α

namespace Trapping

variable {α β : Type}

/-! ### Numbers -/

/-- A number of the width of a machine's addresses; sums and products have to fit it. -/
def index (n : Nat) : Trapping Nat := if n < USize.size then pure n else throw .overflow

/-- A signed number of 32 bits. -/
def int32 (value : Int) : Trapping Int :=
  if -2 ^ 31 ≤ value ∧ value < 2 ^ 31 then pure value else throw .overflow

/-- A difference of numbers without sign. -/
def minus (a b : Nat) : Trapping Nat := if b ≤ a then pure (a - b) else throw .overflow

def quotient (a b : Nat) : Trapping Nat := if b = 0 then throw .zeroDivisor else pure (a / b)

/-- A signed number of 32 bits moved to the left. Bits that are moved out are lost, but there have
to be fewer places than bits. -/
def shiftLeft (value : Int) (places : Nat) : Trapping Int :=
  if places < 32 then pure ((value * 2 ^ places).bmod (2 ^ 32)) else throw .overflow

example : minus 3 5 = .error .overflow := rfl

theorem index_eq {n : Nat} (fits : n < USize.size) : index n = pure n := if_pos fits

/-- Addresses have at least 32 bits. -/
theorem index_eq_of_small {n : Nat} (small : n < 2 ^ 32) : index n = pure n :=
  index_eq (Nat.lt_of_lt_of_le small USize.le_size)

theorem int32_eq {value : Int} (low : -2 ^ 31 ≤ value) (high : value < 2 ^ 31) :
    int32 value = pure value := if_pos ⟨low, high⟩

theorem minus_eq {a b : Nat} (le : b ≤ a) : minus a b = pure (a - b) := if_pos le

theorem quotient_eq {a b : Nat} (nonzero : b ≠ 0) : quotient a b = pure (a / b) := if_neg nonzero

theorem shiftLeft_eq {value : Int} {places : Nat} (few : places < 32)
    (low : -2 ^ 31 ≤ value * 2 ^ places) (high : value * 2 ^ places < 2 ^ 31) :
    shiftLeft value places = pure (value * 2 ^ places) := by
  rw [shiftLeft, if_pos few, Int.bmod_eq_of_le_mul_two]
  · push_cast
    omega
  · push_cast
    omega

/-! ### Lists -/

/-- The element at an index. -/
def item (xs : List α) (i : Nat) : Trapping α :=
  match xs[i]? with
  | some x => pure x
  | none => throw .bounds

/-- The elements from `start` up to `stop`. -/
def part (xs : List α) (start stop : Nat) : Trapping (List α) :=
  if start ≤ stop ∧ stop ≤ xs.length then pure ((xs.take stop).drop start) else throw .bounds

/-- The elements from `start` up to `stop`, where the list has them. -/
def range? (xs : List α) (start stop : Nat) : Option (List α) :=
  if start ≤ stop ∧ stop ≤ xs.length then some ((xs.take stop).drop start) else none

/-- Replaces the element at an index. -/
def setItem {n : Nat} (xs : Vector α n) (i : Nat) (x : α) : Trapping (Vector α n) :=
  if i < n then pure (xs.setIfInBounds i x) else throw .bounds

example : part [1, 2, 3] 2 5 = .error .bounds := rfl

theorem item_eq {xs : List α} {i : Nat} {x : α} (there : xs[i]? = some x) :
    item xs i = pure x := by
  rw [item, there]

@[simp] theorem item_cons_zero (x : α) (xs : List α) : item (x :: xs) 0 = pure x := rfl

@[simp] theorem item_cons_succ (x : α) (xs : List α) (i : Nat) :
    item (x :: xs) (i + 1) = item xs i := rfl

theorem part_eq {xs : List α} {start stop : Nat} (ordered : start ≤ stop)
    (inside : stop ≤ xs.length) : part xs start stop = pure ((xs.take stop).drop start) :=
  if_pos ⟨ordered, inside⟩

/-- The first elements of a list that has so many. -/
theorem part_zero {xs : List α} {stop : Nat} (inside : stop ≤ xs.length) :
    part xs 0 stop = pure (xs.take stop) := part_eq (Nat.zero_le _) inside

theorem setItem_eq {n : Nat} {xs : Vector α n} {i : Nat} (inside : i < n) (x : α) :
    setItem xs i x = pure (xs.setIfInBounds i x) := if_pos inside

/-- What is accepted for each element is accepted for all of them in turn. -/
theorem mapM_eq {f : α → Trapping β} {g : α → β} {xs : List α} (each : ∀ x ∈ xs, f x = pure (g x)) :
    xs.mapM f = pure (xs.map g) := by
  induction xs with
  | nil => rfl
  | cons x rest ih =>
    rw [List.mapM_cons, each x (List.mem_cons_self ..),
      ih fun y later => each y (List.mem_cons_of_mem _ later)]
    rfl

theorem findM?_eq {f : α → Trapping Bool} {g : α → Bool} {xs : List α}
    (each : ∀ x ∈ xs, f x = pure (g x)) : xs.findM? f = pure (xs.find? g) := by
  induction xs with
  | nil => rfl
  | cons x rest ih =>
    rw [List.findM?, each x (List.mem_cons_self ..), pure_bind, List.find?_cons,
      ih fun y later => each y (List.mem_cons_of_mem _ later)]
    cases g x <;> rfl

/-! ### Chunks -/

/-- A list in pieces of one length; a rest shorter than a piece is dropped. -/
def chunks (length : Nat) (xs : List α) : List (List α) :=
  if 0 < length ∧ length ≤ xs.length then xs.take length :: chunks length (xs.drop length) else []
termination_by xs.length
decreasing_by simp only [List.length_drop]; omega

theorem length_of_mem_chunks {length : Nat} {xs piece : List α}
    (member : piece ∈ chunks length xs) : piece.length = length := by
  fun_induction chunks length xs with
  | case1 xs whole ih =>
    rcases List.mem_cons.mp member with rfl | later
    · exact List.length_take_of_le whole.2
    · exact ih later
  | case2 xs short => simp at member

/-- A reader that takes its list piece by piece reads what each piece stands for. -/
theorem eq_map_chunks {length : Nat} (positive : 0 < length) {read : List α → List β}
    {g : List α → β}
    (step : ∀ piece rest, piece.length = length → read (piece ++ rest) = g piece :: read rest)
    (short : ∀ rest, rest.length < length → read rest = []) (xs : List α) :
    read xs = (chunks length xs).map g := by
  fun_induction chunks length xs with
  | case1 xs whole ih =>
    rw [List.map_cons, ← ih, ← step _ _ (List.length_take_of_le whole.2), List.take_append_drop]
  | case2 xs cut =>
    rw [short xs (by omega), List.map_nil]

theorem length_chunks_mul_le (length : Nat) (xs : List α) :
    (chunks length xs).length * length ≤ xs.length := by
  fun_induction chunks length xs with
  | case1 xs whole ih =>
    rw [List.length_cons, Nat.succ_mul]
    rw [List.length_drop] at ih
    omega
  | case2 xs short => simp

end Trapping

/-! ### Reports -/

/-- A report that is made under the machine's bounds. -/
def Reading (α : Type) := Trapping (Report α)

namespace Reading

variable {α β : Type}

/-- The report of a computation. -/
def of (r : Trapping (Report α)) : Reading α := r

/-- A report that needs no bounds. -/
def ofReport (r : Report α) : Reading α := of (pure r)

/-- A result that comes with no notices. -/
def ofTrapping (r : Trapping α) : Reading α := of (Report.ok <$> r)

/-- A result or a failure that comes with no notices. -/
def ofExcept (r : Trapping (Except MusicError α)) : Reading α := of (Report.ofExcept <$> r)

/-- Goes on with the result, if there is one. -/
def andThen (r : Reading α) (f : α → Reading β) : Reading β :=
  show Trapping (Report β) from do
    let first ← (r : Trapping (Report α))
    match first.outcome with
    | .error e => pure { notices := first.notices, outcome := .error e }
    | .ok a =>
      let next ← (f a : Trapping (Report β))
      pure { notices := first.notices ++ next.notices, outcome := next.outcome }

instance : Monad Reading where
  pure a := ofReport (Report.ok a)
  bind := andThen

theorem of_pure (r : Report α) : of (pure r) = ofReport r := rfl

theorem ofExcept_pure (r : Except MusicError α) : ofExcept (pure r) = ofReport (.ofExcept r) := rfl

/-- A sequence of accepted parts is accepted, and its report is that of the sequence. -/
theorem bind_ofReport {r : Report α} {f : α → Reading β} {g : α → Report β}
    (each : ∀ a, f a = ofReport (g a)) : ofReport r >>= f = ofReport (r >>= g) := by
  obtain ⟨notices, outcome⟩ := r
  cases outcome with
  | error e => rfl
  | ok a =>
    simp only [bind, andThen, ofReport, of, Report.andThen, pure, Except.pure, Except.bind]
    rw [each a]
    rfl

/-- A result without notices is handed on. -/
theorem ofTrapping_bind (a : α) (f : α → Reading β) : ofTrapping (pure a) >>= f = f a := by
  change andThen (of (pure (Report.ok a))) f = f a
  unfold andThen of
  rcases there : f a with trap | next
  · simp only [Report.ok, pure_bind, there]
    rfl
  · simp only [Report.ok, pure_bind, there]
    rfl

theorem map_ofReport (g : α → β) (r : Report α) : g <$> ofReport r = ofReport (g <$> r) :=
  bind_ofReport fun _ => rfl

/-- What is accepted at each element is accepted along the list. -/
theorem foldlM_ofReport {f : β → α → Reading β} {g : β → α → Report β} {xs : List α}
    (each : ∀ x ∈ xs, ∀ b, f b x = ofReport (g b x)) (b : β) :
    xs.foldlM f b = ofReport (xs.foldlM g b) := by
  induction xs generalizing b with
  | nil => rfl
  | cons x rest ih =>
    rw [List.foldlM_cons, List.foldlM_cons, each x (List.mem_cons_self ..)]
    exact bind_ofReport fun b => ih (fun y later => each y (List.mem_cons_of_mem _ later)) b

end Reading
end SnesMusic
