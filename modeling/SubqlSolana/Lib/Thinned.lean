import SubqlSolana.Lib.Fallible

/-!
# Loops over less

A source hands out a list of which some elements are left out and others are cut down. A loop that has
nothing to do for what is left out, and does the same for an element that is cut down, **does the same
for the whole list** (`Thinned.forM_eq`), in whatever monad it runs: it makes the same calls in the same
order, and stops at the same one.
-/

set_option autoImplicit false

namespace SubqlSolana.Lib

variable {α β ε : Type}

/-- What is left of a list: an element may be left out if `drops`, and replaced by one that it `cuts`
down to. -/
inductive Thinned (drops : α → Prop) (cuts : α → α → Prop) : List α → List α → Prop where
  | nil : Thinned drops cuts [] []
  | leftOut {a : α} {l l' : List α} (h : drops a) (hrest : Thinned drops cuts l l') :
    Thinned drops cuts (a :: l) l'
  | kept {a a' : α} {l l' : List α} (h : cuts a a') (hrest : Thinned drops cuts l l') :
    Thinned drops cuts (a :: l) (a' :: l')

variable {drops : α → Prop} {cuts : α → α → Prop} {l l' : List α}

section

variable {m : Type → Type} [Monad m]

theorem forM_cons (f : β → m Unit) (b : β) (bs : List β) :
    (b :: bs).forM f = f b >>= fun _ => bs.forM f := rfl

variable [LawfulMonad m]

/-- Nothing to do at all. -/
theorem forM_eq_pure {f : α → m Unit} (h : ∀ a ∈ l, f a = pure ()) : l.forM f = pure () := by
  induction l with
  | nil => rfl
  | cons a l ih =>
    rw [forM_cons, h a List.mem_cons_self, pure_bind]
    exact ih fun b hb => h b (List.mem_cons_of_mem _ hb)

/-- **A loop over what is left is the loop over everything.** Each element is read first, one that is cut
down perhaps in another way, and it must still be readable. -/
theorem Thinned.forM_eq {read read' : α → Except ε β} {f : β → m Unit} (h : Thinned drops cuts l l')
    (hread : ∀ a ∈ l, ∃ b, read a = .ok b)
    (hdrops : ∀ a ∈ l, drops a → ∀ b, read a = .ok b → f b = pure ())
    (hcuts : ∀ a ∈ l, ∀ a', cuts a a' → ∀ b, read a = .ok b →
      ∃ b', read' a' = .ok b' ∧ f b' = f b) :
    ∃ bs bs', l.mapM read = .ok bs ∧ l'.mapM read' = .ok bs' ∧ bs'.forM f = bs.forM f := by
  induction h with
  | nil => exact ⟨[], [], rfl, rfl, rfl⟩
  | @leftOut a l l' hdrop _ ih =>
    obtain ⟨b, hb⟩ := hread a List.mem_cons_self
    obtain ⟨bs, bs', hbs, hbs', hsame⟩ := ih (fun c hc => hread c (.tail _ hc))
      (fun c hc => hdrops c (.tail _ hc)) fun c hc => hcuts c (.tail _ hc)
    refine ⟨b :: bs, bs', by rw [List.mapM_cons, hb, hbs]; rfl, hbs', ?_⟩
    have hskip : f b = pure () := hdrops a List.mem_cons_self hdrop b hb
    rw [hsame, forM_cons, hskip, pure_bind]
  | @kept a a' l l' hcut _ ih =>
    obtain ⟨b, hb⟩ := hread a List.mem_cons_self
    obtain ⟨b', hb', hf⟩ := hcuts a List.mem_cons_self a' hcut b hb
    obtain ⟨bs, bs', hbs, hbs', hsame⟩ := ih (fun c hc => hread c (.tail _ hc))
      (fun c hc => hdrops c (.tail _ hc)) fun c hc => hcuts c (.tail _ hc)
    refine ⟨b :: bs, b' :: bs', by rw [List.mapM_cons, hb, hbs]; rfl,
      by rw [List.mapM_cons, hb', hbs']; rfl, ?_⟩
    rw [forM_cons, forM_cons, hf, hsame]

end

end SubqlSolana.Lib
