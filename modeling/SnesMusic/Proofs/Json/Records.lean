import Mathlib.Tactic
import SnesMusic.Json.Record
import SnesMusic.Proofs.Json.RoundTrip

/-!
# Records read back

Each reader of a record gives back what its writer wrote: members by their names
(`fields?_record`), a tag beside them (`tagged?_record`), lists item by item (`list?_map`) and
numbers within their bounds (`nat?_nat`, `int?_int`). What is written of texts and whole numbers has
a text (`isRegular`) and a meaning (`isSound`).
-/
namespace SnesMusic.Json

/-! ### Members -/

section Members

variable {members : List (String × Value)} {key : String} {value : Value}

/-- A name that no member has picks none. -/
theorem filter_record_of_notMem (absent : key ∉ members.map (·.1)) :
    (members.map fun (key, value) => (some key, value)).filter (·.1 == some key) = [] := by
  rw [List.filter_eq_nil_iff]
  intro member found same
  obtain ⟨⟨name, value⟩, inside, rfl⟩ := List.mem_map.mp found
  rw [beq_iff_eq, Option.some.injEq] at same
  exact absent (same ▸ List.mem_map_of_mem inside)

/-- Where no name stands twice, the name of a member picks that member. -/
theorem filter_record (distinct : (members.map (·.1)).Nodup) (found : (key, value) ∈ members) :
    (members.map fun (key, value) => (some key, value)).filter (·.1 == some key) =
      [(some key, value)] := by
  induction members with
  | nil => cases found
  | cons member rest ih =>
    obtain ⟨name, other⟩ := member
    rw [List.map_cons, List.nodup_cons] at distinct
    rw [List.map_cons, List.filter_cons]
    by_cases same : name = key
    · subst same
      have first : other = value := by
        rcases List.mem_cons.mp found with same | later
        · exact (congrArg Prod.snd same).symm
        · exact absurd (List.mem_map_of_mem (f := (·.1)) later) distinct.1
      rw [if_pos (beq_self_eq_true _), filter_record_of_notMem distinct.1, first]
    · have later : (key, value) ∈ rest := by
        rcases List.mem_cons.mp found with equal | later
        · exact absurd (congrArg Prod.fst equal).symm same
        · exact later
      rw [if_neg (by simpa using same)]
      exact ih distinct.2 later

/-- A record's fields are the values written under their names. -/
theorem Value.fields?_record {fields : List Field}
    (names : fields.map (·.name) = members.map (·.1)) (distinct : (fields.map (·.name)).Nodup) :
    (Value.record members).fields? fields = some (members.map (·.2)) := by
  rw [names] at distinct
  have keys : (members.map fun (key, value) => (some key, value)).all (·.1.isSome) = true := by
    simp
  have each : ∀ (fields : List Field) (part : List (String × Value)), part ⊆ members →
      fields.map (·.name) = part.map (·.1) →
      fields.mapM (·.find? (members.map fun (key, value) => (some key, value))) =
        some (part.map (·.2)) := by
    intro fields part inside names
    induction part generalizing fields with
    | nil =>
      rw [List.map_nil, List.map_eq_nil_iff] at names
      rw [names]
      rfl
    | cons member rest ih =>
      obtain ⟨name, value⟩ := member
      cases fields with
      | nil => cases names
      | cons field fields =>
        rw [List.map_cons, List.map_cons, List.cons.injEq] at names
        have here : field.find? (members.map fun (key, value) => (some key, value)) =
            some value := by
          rw [Field.find?, names.1, filter_record distinct (inside List.mem_cons_self)]
        have later := ih fields (fun _ member => inside (List.mem_cons_of_mem _ member)) names.2
        rw [List.mapM_cons, here, later]
        rfl
  rw [Value.record, Value.fields?, if_pos keys]
  exact each fields members (fun _ member => member) names

/-- A tag is read beside the members that it is written in front of. -/
theorem Value.tagged?_record (tag : String) (apart : key ∉ members.map (·.1)) :
    (Value.record ((key, .text tag) :: members)).tagged? key = some (tag, .record members) := by
  have tags : ((some key, Value.text tag) ::
      members.map fun (key, value) => (some key, value)).filter (·.1 == some key) =
      [(some key, .text tag)] := by
    rw [List.filter_cons, if_pos (beq_self_eq_true _), filter_record_of_notMem apart]
  have others : ((some key, Value.text tag) ::
      members.map fun (key, value) => (some key, value)).filter (·.1 != some key) =
      members.map fun (key, value) => (some key, value) := by
    rw [List.filter_cons, if_neg (by simp), List.filter_eq_self]
    intro member found
    obtain ⟨⟨name, value⟩, inside, rfl⟩ := List.mem_map.mp found
    rw [bne_iff_ne, ne_eq, Option.some.injEq]
    rintro rfl
    exact apart (List.mem_map_of_mem inside)
  simp only [Value.record, List.map_cons, Value.tagged?, tags, others]
  rfl

end Members

/-! ### Items and numbers -/

namespace Value

theorem list?_map {α : Type} {item? : Value → Option α} {write : α → Value} {xs : List α}
    (read : ∀ x ∈ xs, item? (write x) = some x) :
    (Value.array (xs.map write)).list? item? = some xs := by
  rw [list?]
  induction xs with
  | nil => rfl
  | cons x rest ih =>
    rw [List.map_cons, List.mapM_cons, read x List.mem_cons_self,
      ih fun y member => read y (List.mem_cons_of_mem x member)]
    rfl

@[simp] theorem text?_text (s : String) : (text s).text? = some s := rfl

@[simp] theorem bool?_bool (b : Bool) : (bool b).bool? = some b := rfl

theorem nat?_nat {n limit : Nat} (below : n < limit) : (nat n).nat? limit = some n := by
  simp [nat, nat?, Number.nat?, Number.ofNat, below]

theorem int?_int {n : Int} {bits : Nat} (lower : -(2 ^ (bits - 1) : Nat) ≤ n)
    (upper : n < (2 ^ (bits - 1) : Nat)) : (int n).int? bits = some n := by
  simp only [int, int?, Number.int?, Number.ofInt, Nat.one_shiftLeft, Bool.not_true,
    Bool.false_eq_true, if_false, decide_eq_true_eq]
  split
  · rw [if_pos ⟨by omega, by omega⟩]
    congr 1
    omega
  · rw [if_pos (by omega)]
    congr 1
    omega

theorem option?_map {α : Type} {some? : Value → Option α} {n : Option Nat} {wrap : Nat → α}
    (read : ∀ m ∈ n, some? (nat m) = some (wrap m)) :
    ((n.map nat).getD .null).option? some? = some (n.map wrap) := by
  cases n with
  | none => rfl
  | some m =>
    rw [Option.map_some, Option.getD_some, Option.map_some]
    exact congrArg (Option.map some) (read m rfl)

/-! ### What has a text and a meaning -/

variable {α : Type} {write : α → Value}

@[simp] theorem isRegular_nat (n : Nat) : (nat n).isRegular = true := rfl

@[simp] theorem isRegular_int (n : Int) : (int n).isRegular = true := rfl

@[simp] theorem isRegular_text (s : String) : (text s).isRegular = true := rfl

@[simp] theorem isRegular_bool (b : Bool) : (bool b).isRegular = true := rfl

theorem isRegular_map {xs : List α} (each : ∀ x ∈ xs, (write x).isRegular = true) :
    (array (xs.map write)).isRegular = true := by
  rw [isRegular]
  induction xs with
  | nil => rfl
  | cons x rest ih =>
    rw [List.map_cons, areRegular, each x List.mem_cons_self, Bool.true_and]
    exact ih fun y member => each y (List.mem_cons_of_mem x member)

theorem isRegular_record {members : List (String × Value)}
    (each : ∀ member ∈ members, member.2.isRegular = true) :
    (record members).isRegular = true := by
  rw [record, isRegular]
  induction members with
  | nil => rfl
  | cons member rest ih =>
    rw [List.map_cons, membersRegular, each member List.mem_cons_self, Bool.true_and]
    exact ih fun y found => each y (List.mem_cons_of_mem member found)

/-- Numbers of few digits are finite. -/
theorem isSound_nat {n levels : Nat} (short : n < 10 ^ 20) : (nat n).isSound levels = true := by
  show (Number.ofNat n).isFinite = true
  have digits : (Nat.toDigits 10 n).length ≤ 20 :=
    (Nat.length_toDigits_le_iff (by decide) (by decide)).mpr short
  have below : ((Nat.toDigits 10 n).length : Int) + 0 < 300 := by omega
  by_cases zero : n = 0
  · exact if_pos zero
  · exact (if_neg zero).trans (if_pos below)

end Value
end SnesMusic.Json
