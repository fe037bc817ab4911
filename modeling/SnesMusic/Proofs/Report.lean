import SnesMusic.Report

/-!
# Reports in sequence

Reports are sequenced lawfully, so what holds of loops over lawful monads holds of theirs. Main
statement: reading the elements of a vector one by one gives them all where each reading succeeds
(`outcome_ofFnM`).
-/
namespace SnesMusic.Report

instance : LawfulMonad Report := LawfulMonad.mk' Report
  (by
    intro α r
    obtain ⟨notices, outcome⟩ := r
    cases outcome with
    | error e => rfl
    | ok a => exact congrArg (Report.mk · _) (List.append_nil notices))
  (fun _ _ => rfl)
  (by
    intro α β γ r f g
    obtain ⟨notices, outcome⟩ := r
    cases outcome with
    | error e => rfl
    | ok a =>
      simp only [bind, andThen]
      cases (f a).outcome with
      | error e => rfl
      | ok b => simp only [List.append_assoc])

theorem ok_of_toOption {ε α : Type} {outcome : Except ε α} {a : α}
    (found : outcome.toOption = some a) : outcome = .ok a := by
  cases outcome with
  | error e => simp [Except.toOption] at found
  | ok there => simpa [Except.toOption] using found

/-- A sequence goes on with the result of its first part. -/
theorem outcome_bind_of_ok {α β : Type} {r : Report α} {a : α} (h : r.outcome = .ok a)
    (f : α → Report β) : (r >>= f).outcome = (f a).outcome := by
  rw [outcome_bind, h]
  rfl

/-- A sequence that succeeds begins with a part that does. -/
theorem bind_ok {α β : Type} {r : Report α} {f : α → Report β} {b : β}
    (h : (r >>= f).outcome = .ok b) : ∃ a, r.outcome = .ok a ∧ (f a).outcome = .ok b := by
  rw [outcome_bind] at h
  cases outcome : r.outcome with
  | error e =>
    rw [outcome] at h
    exact absurd h (by simp [bind, Except.bind])
  | ok a =>
    rw [outcome] at h
    exact ⟨a, rfl, h⟩

theorem outcome_ofFnM {α : Type} {n : Nat} {read : Fin n → Report α} {results : Fin n → α}
    (each : ∀ i, (read i).outcome = .ok (results i)) :
    (Vector.ofFnM read).outcome = .ok (Vector.ofFn results) := by
  induction n with
  | zero => simp
  | succ n ih =>
    rw [Vector.ofFnM_succ, outcome_bind_of_ok (ih fun i => each i.castSucc),
      outcome_bind_of_ok (each (Fin.last n)), Vector.ofFn_succ]
    rfl

/-- Elements that are read one by one are what the readings gave. -/
theorem ofFnM_ok {α : Type} {n : Nat} {read : Fin n → Report α} {results : Vector α n}
    (ok : (Vector.ofFnM read).outcome = .ok results) :
    ∀ i : Fin n, (read i).outcome = .ok results[i] := by
  induction n with
  | zero => exact fun i => i.elim0
  | succ n ih =>
    rw [Vector.ofFnM_succ] at ok
    obtain ⟨front, first, ok⟩ := bind_ok ok
    obtain ⟨last, final, ok⟩ := bind_ok ok
    rw [outcome_pure, Except.ok.injEq] at ok
    subst ok
    intro i
    by_cases inside : i.val < n
    · have here := ih first ⟨i.val, inside⟩
      simp only [Fin.castSucc_mk] at here
      simpa [Vector.getElem_push, inside] using here
    · have full : i = Fin.last n := Fin.ext (by simp only [Fin.val_last]; omega)
      subst full
      simpa using final

end SnesMusic.Report
