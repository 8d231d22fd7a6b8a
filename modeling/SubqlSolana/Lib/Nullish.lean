import Mathlib.Tactic.Common

/-!
# `undefined`, `null`, or a value

A JavaScript variable of an optional type has two ways to hold nothing, and code that tests for one
of them lets the other through.
-/

set_option autoImplicit false

namespace SubqlSolana.Lib

inductive Nullish (α : Type) where
  | undefined
  | null
  | value (a : α)
  deriving Repr, DecidableEq

namespace Nullish

variable {α : Type}

/-- What `??` sees: `undefined` and `null` are both nothing. -/
def toOption : Nullish α → Option α
  | value a => some a
  | _ => none

/-- A number that is not falsy: neither `undefined`, nor `null`, nor `0`. -/
def truthy? : Nullish Nat → Option Nat
  | value 0 => none
  | value (n + 1) => some (n + 1)
  | _ => none

/-- `x !== undefined && x < n`. The comparison turns `null` into `0`. -/
def definedAndBelow (n : Nat) : Nullish Nat → Bool
  | undefined => false
  | null => 0 < n
  | value c => c < n

/-- `x !== undefined`. -/
def isDefined : Nullish α → Bool
  | undefined => false
  | _ => true

/-- A text that is not falsy: neither `undefined`, nor `null`, nor empty. -/
def text? : Nullish String → Option String
  | value s => if s = "" then none else some s
  | _ => none

/-- A flag that is not falsy. -/
def isTrue : Nullish Bool → Bool
  | value b => b
  | _ => false

theorem toOption_eq_some {x : Nullish α} {a : α} : x.toOption = some a ↔ x = value a := by
  cases x <;> simp [toOption]

theorem text?_eq_some {x : Nullish String} {s : String} :
    x.text? = some s ↔ x = value s ∧ s ≠ "" := by
  cases x with
  | value t =>
    by_cases ht : t = ""
    · subst ht
      simp only [text?, if_true, reduceCtorEq, value.injEq, false_iff, not_and, not_not]
      exact fun h => h.symm
    · simp only [text?, if_neg ht, Option.some.injEq, value.injEq]
      exact ⟨fun h => ⟨h, h ▸ ht⟩, fun h => h.1⟩
  | _ => simp [text?]

theorem isDefined_of_text? {x : Nullish String} {s : String} (h : x.text? = some s) :
    x.isDefined = true := by
  rw [(text?_eq_some.mp h).1]
  rfl

theorem truthy?_eq_some {x : Nullish Nat} {n : Nat} :
    x.truthy? = some n ↔ x = value n ∧ 0 < n := by
  cases x with
  | value c => cases c <;> simp [truthy?] <;> omega
  | _ => simp [truthy?]

end Nullish

end SubqlSolana.Lib
