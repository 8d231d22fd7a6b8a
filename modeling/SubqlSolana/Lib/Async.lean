import Mathlib.Tactic.Common

/-!
# Computations of a single-threaded event loop

An `async` function runs alone from one `await` to the next. At an `await` it is suspended; other
tasks of the same process may change the shared state before it is resumed, and the process may be
gone before it is resumed at all. Both are decided by a *schedule*, one entry per `await`, so a
computation is a function of the schedule, of the number of `await`s already passed, and of the
state:

```
Async E σ ε α  =  E → Nat → σ → Outcome ε α × Nat × σ
```

An outcome never rolls the state back: what a function assigned before it threw stays assigned.

`Sat env s m Q` is the program logic: run from `s` under the schedule `env`, at whatever number of
`await`s, `m` ends in an outcome and a state that `Q` accepts. There is one rule per construct, and
`Sat.bind` is the only one that composes; a proof about a function is a walk down its body.
-/

set_option autoImplicit false

namespace SubqlSolana.Lib

/-- How a computation ends: with a value, or with the reason why it did not. -/
inductive Outcome (ε α : Type) where
  | ok (value : α)
  | fail (reason : ε)
  deriving Repr, DecidableEq

/-- The same end, with another value if there is one. -/
def Outcome.replace {ε α β : Type} (b : β) : Outcome ε α → Outcome ε β
  | ok _ => ok b
  | fail e => fail e

/-- What a schedule decides at each `await`: whether the process is lost there, and if it is not,
what the other tasks do to the shared state before the computation is resumed. -/
class EventLoop (E σ ε : Type) where
  lost : E → Nat → Option ε
  others : E → Nat → σ → σ

/-- A computation under a schedule `E`, over a shared state `σ`, failing with `ε`. -/
def Async (E σ ε α : Type) : Type := E → Nat → σ → Outcome ε α × Nat × σ

namespace Async

variable {E σ ε α β : Type}

instance : Monad (Async E σ ε) where
  pure a := fun _ n s => (.ok a, n, s)
  bind m f := fun env n s =>
    match m env n s with
    | (.ok a, n', s') => f a env n' s'
    | (.fail e, n', s') => (.fail e, n', s')

instance : MonadExceptOf ε (Async E σ ε) where
  throw e := fun _ n s => (.fail e, n, s)
  tryCatch m handler := fun env n s =>
    match m env n s with
    | (.ok a, n', s') => (.ok a, n', s')
    | (.fail e, n', s') => handler e env n' s'

/-- The shared state, read without giving up control. -/
def read : Async E σ ε σ := fun _ n s => (.ok s, n, s)

/-- An assignment to the shared state. -/
def update (f : σ → σ) : Async E σ ε Unit := fun _ n s => (.ok (), n, f s)

/-- The reply the schedule holds for a request made now. -/
def reply (ask : E → Nat → β) : Async E σ ε β := fun env n s => (.ok (ask env n), n, s)

/-- One `await`: the computation is resumed after the other tasks ran, unless the process is lost. -/
def yield [EventLoop E σ ε] : Async E σ ε Unit := fun env n s =>
  match EventLoop.lost (σ := σ) env n with
  | some e => (.fail e, n + 1, s)
  | none => (.ok (), n + 1, EventLoop.others ε env n s)

/-- `await m`: the promise of `m` settles, and the caller is resumed some time later. -/
def awaits [EventLoop E σ ε] (m : Async E σ ε α) : Async E σ ε α := do
  let a ← m
  yield
  pure a

/-- Run from `s` under `env`, `m` ends as `Q` says. -/
def Sat (env : E) (s : σ) (m : Async E σ ε α) (Q : Outcome ε α → σ → Prop) : Prop :=
  ∀ n, Q (m env n s).1 (m env n s).2.2

variable {env : E} {s : σ} {m : Async E σ ε α} {Q R : Outcome ε α → σ → Prop}

/-- A run is what its triple says of it: the way back from the logic to the machine. -/
theorem Sat.of_run (h : Sat env s m Q) {n n' : Nat} {s' : σ} {o : Outcome ε α}
    (hrun : m env n s = (o, n', s')) : Q o s' := by
  have := h n
  rwa [hrun] at this

theorem Sat.mono (h : Sat env s m Q) (himp : ∀ o s', Q o s' → R o s') : Sat env s m R :=
  fun n => himp _ _ (h n)

theorem Sat.pure {a : α} (h : Q (.ok a) s) : Sat env s (Pure.pure a : Async E σ ε α) Q :=
  fun _ => h

theorem Sat.throw {e : ε} (h : Q (.fail e) s) :
    Sat env s (MonadExcept.throw e : Async E σ ε α) Q :=
  fun _ => h

theorem Sat.read {Q : Outcome ε σ → σ → Prop} (h : Q (.ok s) s) :
    Sat env s (Async.read : Async E σ ε σ) Q :=
  fun _ => h

theorem Sat.update {f : σ → σ} {Q : Outcome ε Unit → σ → Prop} (h : Q (.ok ()) (f s)) :
    Sat env s (Async.update f : Async E σ ε Unit) Q :=
  fun _ => h

/-- A reply is *some* entry of the schedule: which one depends on the number of `await`s passed. -/
theorem Sat.reply {ask : E → Nat → β} {Q : Outcome ε β → σ → Prop}
    (h : ∀ n, Q (.ok (ask env n)) s) : Sat env s (Async.reply ask : Async E σ ε β) Q :=
  fun n => h n

/-- Sequencing. `R` is what holds between the two computations; a failure of the first one is the
failure of the whole. -/
theorem Sat.bind {f : α → Async E σ ε β} {Q : Outcome ε β → σ → Prop} (hm : Sat env s m R)
    (hok : ∀ a s', R (.ok a) s' → Sat env s' (f a) Q)
    (hfail : ∀ e s', R (.fail e) s' → Q (.fail e) s') : Sat env s (m >>= f) Q := by
  intro n
  have hR := hm n
  show Q ((m >>= f) env n s).1 ((m >>= f) env n s).2.2
  simp only [Bind.bind]
  rcases hrun : m env n s with ⟨o, n', s'⟩
  rw [hrun] at hR
  cases o with
  | ok a => exact hok a s' hR n'
  | fail e => exact hfail e s' hR

theorem Sat.tryCatch {handler : ε → Async E σ ε α} (hm : Sat env s m R)
    (hok : ∀ a s', R (.ok a) s' → Q (.ok a) s')
    (hfail : ∀ e s', R (.fail e) s' → Sat env s' (handler e) Q) :
    Sat env s (MonadExcept.tryCatch m handler) Q := by
  intro n
  have hR := hm n
  show Q ((MonadExcept.tryCatch m handler : Async E σ ε α) env n s).1
    ((MonadExcept.tryCatch m handler : Async E σ ε α) env n s).2.2
  simp only [MonadExcept.tryCatch, tryCatchThe, MonadExceptOf.tryCatch]
  rcases hrun : m env n s with ⟨o, n', s'⟩
  rw [hrun] at hR
  cases o with
  | ok a => exact hok a s' hR
  | fail e => exact hfail e s' hR n'

/-- At an `await` the postcondition must hold of the state the other tasks leave, and of the state
as it is if the process is lost here. -/
theorem Sat.yield [EventLoop E σ ε] {Q : Outcome ε Unit → σ → Prop}
    (hok : ∀ n, EventLoop.lost (σ := σ) (ε := ε) env n = none →
      Q (.ok ()) (EventLoop.others ε env n s))
    (hlost : ∀ n e, EventLoop.lost (σ := σ) (ε := ε) env n = some e → Q (.fail e) s) :
    Sat env s (Async.yield : Async E σ ε Unit) Q := by
  intro n
  unfold Async.yield
  cases h : EventLoop.lost (σ := σ) (ε := ε) env n with
  | none => exact hok n h
  | some e => exact hlost n e h

/-- What no other task undoes still holds when the caller is resumed. -/
theorem Sat.awaits_stable [EventLoop E σ ε] {I : σ → Prop}
    (hm : Sat env s m fun o s' => ∀ a, o = .ok a → I s')
    (hstable : ∀ n s', I s' → I (EventLoop.others ε env n s')) :
    Sat env s (Async.awaits m) fun o s' => ∀ a, o = .ok a → I s' := by
  refine Sat.bind hm ?_ fun e _ _ a ha => by cases ha
  intro a s₁ h₁
  refine Sat.bind (R := fun o s' => o = .ok () → I s') (Sat.yield ?_ ?_) ?_ ?_
  · exact fun n _ _ => hstable n s₁ (h₁ a rfl)
  · exact fun _ _ _ he => by cases he
  · exact fun _ _ h₂ => Sat.pure fun _ _ => h₂ rfl
  · exact fun _ _ _ _ ha => by cases ha

end Async

end SubqlSolana.Lib
