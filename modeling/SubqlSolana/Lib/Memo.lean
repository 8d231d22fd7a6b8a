import Mathlib.Logic.Function.Basic

/-!
# Memoized calls

A call that is memoized looks for its key in a cache first, and keeps what it returns there; an error is
not kept. The key is made of the call, but need not say everything that the result depends on. **The
call that is memoized is the call itself exactly if no earlier call with the same key returned something
else than this one returns** (`memoized_eq_iff`).
-/

set_option autoImplicit false

namespace SubqlSolana.Lib

/-! ## Caches and calls -/

/-- A `Map`. -/
abbrev Cache (κ β : Type) : Type := κ → Option β

variable {α κ β ε : Type} (body : α → Except ε β) (key : α → κ)

/-- What the cache holds is what the calls so far have returned, each of them under its key. -/
def Cache.Records (cache : Cache κ β) (calls : List (α × Except ε β)) : Prop :=
  ∀ k b, cache k = some b ↔ ∃ call ∈ calls, key call.1 = k ∧ call.2 = .ok b

/-- Each call has returned what the body returns. -/
def Transparent (calls : List (α × Except ε β)) : Prop := ∀ call ∈ calls, call.2 = body call.1

variable {body key} {cache : Cache κ β} {calls : List (α × Except ε β)} {call : α} {b : β} {e : ε}

theorem transparent_append {result : Except ε β} (h : Transparent body calls) :
    Transparent body (calls ++ [(call, result)]) ↔ result = body call := by
  unfold Transparent at h ⊢
  rw [List.forall_mem_append, List.forall_mem_singleton]
  exact and_iff_right h

namespace Cache.Records

theorem empty : Cache.Records key (fun _ => none) ([] : List (α × Except ε β)) := by
  intro k b
  constructor
  · intro h
    cases h
  · rintro ⟨call, hcall, -⟩
    cases hcall

/-- Some call returned this under the key: one of the earlier ones, or the last one. -/
theorem returned_append {k : κ} {result : Except ε β} :
    (∃ c ∈ calls ++ [(call, result)], key c.1 = k ∧ c.2 = .ok b) ↔
      (∃ c ∈ calls, key c.1 = k ∧ c.2 = .ok b) ∨ key call = k ∧ result = .ok b := by
  simp only [List.mem_append, List.mem_singleton, or_and_right, exists_or, exists_eq_left]

/-- One more call, which adds nothing to what was returned under its key. -/
theorem append_of_known (h : cache.Records key calls) {result : Except ε β}
    (hknown : ∀ b, result = .ok b → cache (key call) = some b) :
    cache.Records key (calls ++ [(call, result)]) := by
  intro k b
  rw [returned_append, ← h k b]
  constructor
  · exact .inl
  · rintro (hcached | ⟨rfl, hresult⟩)
    · exact hcached
    · exact hknown b hresult

/-- The first call with its key that returns. -/
theorem append_of_new [DecidableEq κ] (h : cache.Records key calls)
    (hnew : cache (key call) = none) (b : β) :
    Cache.Records key (Function.update cache (key call) (some b)) (calls ++ [(call, .ok b)]) := by
  intro k b'
  rw [returned_append, ← h k b']
  by_cases hkey : key call = k
  · subst hkey
    rw [Function.update_self, hnew]
    simp
  · rw [Function.update_of_ne (Ne.symm hkey)]
    simp [hkey]

/-- In a cache of calls that returned what the body returns, so are the results. -/
theorem eq_some_iff (h : cache.Records key calls) (hcalls : Transparent body calls) (k : κ) (b : β) :
    cache k = some b ↔ ∃ call ∈ calls, key call.1 = k ∧ body call.1 = .ok b := by
  rw [h k b]
  constructor
  · rintro ⟨call, hmem, hkey, hreturned⟩
    exact ⟨call, hmem, hkey, hcalls call hmem ▸ hreturned⟩
  · rintro ⟨call, hmem, hkey, hreturned⟩
    exact ⟨call, hmem, hkey, (hcalls call hmem).trans hreturned⟩

end Cache.Records

/-! ## Memoized calls -/

variable [DecidableEq κ]

def memoized (body : α → Except ε β) (key : α → κ) (cache : Cache κ β) (call : α) :
    Except ε β × Cache κ β :=
  match cache (key call) with
  | some b => (.ok b, cache)
  | none =>
    match body call with
    | .ok b => (.ok b, Function.update cache (key call) (some b))
    | .error e => (.error e, cache)

theorem memoized_hit (h : cache (key call) = some b) :
    memoized body key cache call = (.ok b, cache) := by
  simp only [memoized, h]

theorem memoized_ok (h : cache (key call) = none) (hbody : body call = .ok b) :
    memoized body key cache call = (.ok b, Function.update cache (key call) (some b)) := by
  simp only [memoized, h, hbody]

theorem memoized_error (h : cache (key call) = none) (hbody : body call = .error e) :
    memoized body key cache call = (.error e, cache) := by
  simp only [memoized, h, hbody]

theorem memoized_miss (h : cache (key call) = none) :
    (memoized body key cache call).1 = body call := by
  cases hbody : body call with
  | ok b => rw [memoized_ok h hbody]
  | error e => rw [memoized_error h hbody]

/-- **A memoized call keeps the cache a record.** -/
theorem Cache.Records.memoized (h : cache.Records key calls) (body : α → Except ε β) (call : α) :
    Cache.Records key (memoized body key cache call).2
      (calls ++ [(call, (Lib.memoized body key cache call).1)]) := by
  cases hcache : cache (key call) with
  | some b =>
    rw [memoized_hit hcache]
    exact h.append_of_known fun b' hb' => Except.ok.inj hb' ▸ hcache
  | none =>
    cases hbody : body call with
    | error e =>
      rw [memoized_error hcache hbody]
      exact h.append_of_known fun b hb => by cases hb
    | ok b =>
      rw [memoized_ok hcache hbody]
      exact h.append_of_new hcache b

/-- **When the cache makes no difference**, if it made none so far. -/
theorem memoized_eq_iff (h : cache.Records key calls) (hcalls : Transparent body calls) :
    (memoized body key cache call).1 = body call ↔
      ∀ earlier ∈ calls, key earlier.1 = key call → ∀ b, body earlier.1 = .ok b →
        body call = .ok b := by
  have hrecord := h.eq_some_iff hcalls (key call)
  cases hcache : cache (key call) with
  | some b =>
    rw [memoized_hit hcache]
    obtain ⟨first, hmem, hkey, hreturned⟩ := (hrecord b).mp hcache
    constructor
    · intro hsame earlier hearlier hkey' b' hb'
      have hcached := (hrecord b').mpr ⟨earlier, hearlier, hkey', hb'⟩
      rw [hcache] at hcached
      cases hcached
      exact hsame.symm
    · intro hall
      exact (hall first hmem hkey b hreturned).symm
  | none =>
    refine ⟨fun _ earlier hearlier hkey b hb => ?_, fun _ => memoized_miss hcache⟩
    -- an earlier call that returned would be in the cache
    have hcached := (hrecord b).mpr ⟨earlier, hearlier, hkey, hb⟩
    rw [hcache] at hcached
    cases hcached

end SubqlSolana.Lib
