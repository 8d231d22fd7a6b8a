import Mathlib.Tactic.Common

/-!
# Nested calls as a flat list of events

A program that opens a group, does things inside it and closes it again, with groups inside groups,
leaves a flat list of events. Whoever reads the list keeps a stack: an opening pushes, a closing pops.
`tops_events` is what that is good for: **at every event the top of the stack is the innermost group
that is open there**. The reader never has to look at what a closing says, and it may stop anywhere in
the list (`tops_take`).

The stack is a list with its top at the end, as an array with `push` and `pop` is.
-/

set_option autoImplicit false

namespace SubqlSolana.Lib

/-- What happens inside a group, in order: a leaf, or a whole group with what happens inside it. -/
inductive Nesting (α β γ : Type) where
  | done
  | leaf (b : β) (rest : Nesting α β γ)
  | group (a : α) (body : Nesting α β γ) (ending : γ) (rest : Nesting α β γ)

inductive Nesting.Event (α β γ : Type) where
  | opens (a : α)
  | leaf (b : β)
  | closes (a : α) (ending : γ)

namespace Nesting

variable {α β γ : Type}

def events : Nesting α β γ → List (Event α β γ)
  | done => []
  | leaf b rest => .leaf b :: rest.events
  | group a body ending rest => .opens a :: (body.events ++ .closes a ending :: rest.events)

/-- Every event with the innermost group that is open when it happens; `outer` is the one around. -/
def within (outer : Option α) : Nesting α β γ → List (Event α β γ × Option α)
  | done => []
  | leaf b rest => (.leaf b, outer) :: rest.within outer
  | group a body ending rest =>
    (.opens a, outer) :: (body.within (some a) ++ (.closes a ending, some a) :: rest.within outer)

/-- What an event does to the stack of a reader. -/
def Event.next (stack : List α) : Event α β γ → List α
  | opens a => stack ++ [a]
  | leaf _ => stack
  | closes _ _ => stack.dropLast

/-- Every event with the top of the stack that the reader has when it comes to it. -/
def tops (stack : List α) : List (Event α β γ) → List (Event α β γ × Option α)
  | [] => []
  | event :: rest => (event, stack.getLast?) :: tops (event.next stack) rest

theorem tops_append (events rest : List (Event α β γ)) : ∀ stack : List α,
    tops stack (events ++ rest) = tops stack events ++ tops (events.foldl Event.next stack) rest := by
  induction events with
  | nil => exact fun _ => rfl
  | cons event events ih => exact fun stack => congrArg _ (ih _)

/-- Stopping early is reading what there is up to there. -/
theorem tops_take (events : List (Event α β γ)) : ∀ (stack : List α) (k : Nat),
    tops stack (events.take k) = (tops stack events).take k := by
  induction events with
  | nil => intro stack k; simp [tops]
  | cons event events ih =>
    rintro stack (_ | k)
    · rfl
    · exact congrArg _ (ih _ _)

/-- A complete list of events leaves the stack as it was. -/
theorem foldl_events (t : Nesting α β γ) :
    ∀ stack : List α, t.events.foldl Event.next stack = stack := by
  induction t with
  | done => exact fun _ => rfl
  | leaf b rest ih => exact ih
  | group a body ending rest ihbody ihrest =>
    intro stack
    simp only [events, List.foldl_cons, List.foldl_append, Event.next, ihbody, ihrest,
      List.dropLast_concat]

/-- **The top of the stack is the innermost open group.** -/
theorem tops_events (t : Nesting α β γ) :
    ∀ stack : List α, tops stack t.events = t.within stack.getLast? := by
  induction t with
  | done => exact fun _ => rfl
  | leaf b rest ih => exact fun stack => congrArg _ (ih stack)
  | group a body ending rest ihbody ihrest =>
    intro stack
    simp only [events, within, tops, tops_append, Event.next, ihbody, ihrest, foldl_events,
      List.getLast?_concat, List.dropLast_concat]

end Nesting

end SubqlSolana.Lib
