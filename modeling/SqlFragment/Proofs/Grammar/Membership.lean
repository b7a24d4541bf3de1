import SqlFragment.Input
import SqlFragment.Proofs.Expr.Enclosure
import SqlFragment.Proofs.Grammar.Operators

/-
Membership tests in Polish form. The subject is tested against the list of the other operands, and
the list is written between parentheses; but with a single operand the entry for two operands is
used, and that one makes no list of it.
-/
namespace SqlFragment

namespace Operators

def memberships : List (String × BinaryOperator) := [("in", .isIn), ("not in", .notIn)]

section
variable {key : String} {op : BinaryOperator} (known : (key, op) ∈ memberships)
include known

theorem cases_membership : key = "in" ∧ op = .isIn ∨ key = "not in" ∧ op = .notIn := by
  simpa [memberships] using known

theorem isMembership_of_known : op.isMembership = true := by
  obtain ⟨-, rfl⟩ | ⟨-, rfl⟩ := cases_membership known <;> rfl

theorem polishFor?_other {count : Nat} (other : count ≠ 2) :
    standard.polishFor? key (.exactly count) = none := by
  have arities : ∀ row ∈ memberships, ∀ name ∈ standard.polish.map Prod.fst,
      name.1 = row.1 → name.2 = .exactly 2 ∨ name.2 = .any := by decide
  rw [polishFor?, Option.map_eq_none_iff, List.find?_eq_none]
  intro entry mem same
  have here : entry.1 = (key, .exactly count) := by simpa using same
  have listed : entry.1 ∈ standard.polish.map Prod.fst := List.mem_map_of_mem mem
  rw [here] at listed
  rcases arities (key, op) known _ listed rfl with two | any
  · exact other (by simpa using two)
  · cases any

/-- The entry for two operands goes before the one that makes a list. -/
theorem polish?_membership (count : Nat) :
    standard.polish? key count = some (if count = 2 then .binary op else .membership op) := by
  by_cases two : count = 2
  · rw [if_pos two, two]
    obtain ⟨rfl, rfl⟩ | ⟨rfl, rfl⟩ := cases_membership known <;> rfl
  · have lower : Text.lowercase key = key := by
      obtain ⟨rfl, -⟩ | ⟨rfl, -⟩ := cases_membership known <;> decide
    have other : standard.polishFor? key .any = some (.membership op) := by
      obtain ⟨rfl, rfl⟩ | ⟨rfl, rfl⟩ := cases_membership known <;> rfl
    rw [polish?, lower, polishFor?_other known two, other, if_neg two]
    rfl

end
end Operators

namespace Expr

/-- What a subject is tested against: a single item as it is, and otherwise a list. -/
def tested : List Expr → Expr
  | [o] => o
  | os => .commaList os

theorem tested_of_length_ne {os : List Expr} (several : os.length ≠ 1) :
    tested os = .commaList os := by
  match os with
  | [] | _ :: _ :: _ => rfl
  | [o] => exact absurd rfl several

theorem writeRight_tested {op : BinaryOperator} (membership : op.isMembership = true)
    (os : List Expr) :
    op.writeRight (tested os) (tested os).display =
      enclosedIf (os.length != 1 || os.any op.groupsRight) (", ".intercalate (os.map display)) := by
  rw [writeRight_eq]
  by_cases single : os.length = 1
  · obtain ⟨o, rfl⟩ := List.length_eq_one_iff.mp single
    simp [tested]
  · have several : (os.length != 1) = true := by simpa using single
    have list : op.groupsRight (commaList os) = true := membership
    rw [tested_of_length_ne single, several, list, display_commaList, Bool.true_or]

end Expr

namespace Grammar
open Operators SqlFragment.Expr

theorem build_membership (op : BinaryOperator) (s : Expr) (os : List Expr) :
    (if (s :: os).length = 2 then Constructor.binary op else .membership op).build (s :: os) =
      .ok (combine op s (tested os)) := by
  by_cases single : os.length = 1
  · obtain ⟨o, rfl⟩ := List.length_eq_one_iff.mp single
    rfl
  · rw [if_neg (by simpa using single), tested_of_length_ne single]
    rfl

theorem applyKey_membership (now : LocalTime) {key : String} {op : BinaryOperator}
    (known : (key, op) ∈ memberships) (s : Expr) (os : List Expr) :
    (standard now).applyKey key (s :: os) = .ok (combine op s (tested os)) := by
  have operator : calledFunction? key = none ∧ Text.lowercase (Text.trim key) = key := by
    obtain ⟨rfl, -⟩ | ⟨rfl, -⟩ := cases_membership known <;> decide
  have entry : (standard now).operators.polish? key (s :: os).length = _ :=
    polish?_membership known (s :: os).length
  rw [applyKey, operator.1, operator.2]
  simp only [entry, build_membership]
  rfl

theorem evaluate_entry {g : Grammar} {items : List Input} {es : List Expr}
    (evaluated : g.evaluateAll items = .ok es) (key : String) :
    g.evaluate (.map [(key, .list items)]) = g.applyKey key es := by
  simp only [evaluate, evaluateEntries, evaluated]
  cases applied : g.applyKey key es <;> simp [bind, Except.bind, applied, pure, Except.pure, chain?]

/-- The operands that a subject is tested against are written between parentheses, except for one
that stands alone and needs none. -/
theorem membership_enclosed_iff (now : LocalTime) {key : String} {op : BinaryOperator}
    (known : (key, op) ∈ memberships) {items : List Input} {s : Expr} {os : List Expr}
    (evaluated : (standard now).evaluateAll items = .ok (s :: os)) :
    ∃ e, (standard now).evaluate (.map [(key, .list items)]) = .ok e ∧
      e.display = leftText op s ++
        enclosedIf (os.length != 1 || os.any op.groupsRight) (", ".intercalate (os.map display)) ∧
      (e.display = leftText op s ++ enclosed (", ".intercalate (os.map display)) ↔
        os.length ≠ 1 ∨ ∃ o ∈ os, op.groupsRight o = true) := by
  have membership := isMembership_of_known known
  have plain : ¬IsRange op (tested os) := not_isRange_of_ne (by rintro rfl; cases membership)
  have shown : (combine op s (tested os)).display = leftText op s ++
      enclosedIf (os.length != 1 || os.any op.groupsRight) (", ".intercalate (os.map display)) := by
    rw [combine, display_binary plain, writeRight_tested membership, leftText]
  refine ⟨combine op s (tested os), ?_, shown, ?_⟩
  · rw [evaluate_entry evaluated, applyKey_membership now known]
  · rw [shown, String.append_right_inj, enclosedIf_eq_enclosed_iff]
    simp

def midnight : LocalTime := ⟨⟨1970, 1, 1⟩, 0, 0⟩

theorem membership_of_several :
    let items : List Input := [.expr (.column ["a"]), .value (.integer 1), .value (.integer 2)]
    ("not in", .notIn) ∈ memberships ∧
      (standard midnight).evaluateAll items =
        .ok [.column ["a"], .value (.integer 1), .value (.integer 2)] ∧
      ∃ e, (standard midnight).evaluate (.map [("not in", .list items)]) = .ok e ∧
        e.display = "a NOT IN (1, 2)" := by
  intro items
  have known : ("not in", BinaryOperator.notIn) ∈ memberships := by decide
  have evaluated : (standard midnight).evaluateAll items =
      .ok [.column ["a"], .value (.integer 1), .value (.integer 2)] := rfl
  obtain ⟨e, applied, shown, -⟩ := membership_enclosed_iff midnight known evaluated
  exact ⟨known, evaluated, e, applied, shown.trans (by decide)⟩

/-- A single number is tested against as it is. -/
theorem membership_of_one_bare :
    ∃ e, (standard midnight).evaluate (.map [("in", .list
        [.expr (.column ["a"]), .value (.integer 1)])]) = .ok e ∧
      e.display = "a IN 1" ∧ e.display ≠ "a IN (1)" :=
  ⟨.binary .isIn (.column ["a"]) (.value (.integer 1)) .undefined, rfl, by decide, by decide⟩

end Grammar
end SqlFragment
