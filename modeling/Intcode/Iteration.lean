/-!
# Iteration

Repeating a step until it answers. A machine may run for ever, so the number of repetitions has a
bound, the fuel; `none` means that the fuel is used up. An answer does not depend on the amount of
fuel: `iterate_mono` says that more of it gives the same answer.
-/

namespace Intcode

/-- Repeats `step` from a state, at most `fuel` times, until it gives an answer instead of the next
state. -/
def iterate {State Answer : Type} (step : State → State ⊕ Answer) : Nat → State → Option Answer
  | 0, _ => none
  | fuel + 1, state =>
    match step state with
    | .inl next => iterate step fuel next
    | .inr answer => some answer

variable {State Answer : Type} {step : State → State ⊕ Answer}

@[simp] theorem iterate_zero (s : State) : iterate step 0 s = none := rfl

theorem iterate_succ (n : Nat) (s : State) :
    iterate step (n + 1) s =
      match step s with
      | .inl next => iterate step n next
      | .inr answer => some answer := rfl

/-- An answer stays the same with more fuel. -/
theorem iterate_mono {m n : Nat} {s : State} {a : Answer} (hle : m ≤ n)
    (h : iterate step m s = some a) : iterate step n s = some a := by
  induction m generalizing n s with
  | zero => contradiction
  | succ m ih =>
    obtain ⟨n, rfl⟩ : ∃ k, n = k + 1 := ⟨n - 1, by omega⟩
    rw [iterate_succ] at h ⊢
    cases hs : step s with
    | inl next => rw [hs] at h; exact ih (by omega) h
    | inr answer => rw [hs] at h; exact h

/-- Two iterations in lockstep: if related states step to related states or to related answers, then
with the same fuel both iterations answer, and their answers are related, or neither of them does. -/
theorem iterate_liftRel {State' Answer' : Type} {step' : State' → State' ⊕ Answer'}
    {R : State → State' → Prop} {A : Answer → Answer' → Prop}
    (hstep : ∀ s s', R s s' → Sum.LiftRel R A (step s) (step' s')) (fuel : Nat) {s : State}
    {s' : State'} (h : R s s') : Option.Rel A (iterate step fuel s) (iterate step' fuel s') := by
  induction fuel generalizing s s' with
  | zero => exact .none
  | succ fuel ih =>
    have hlift := hstep s s' h
    rw [iterate_succ, iterate_succ]
    generalize step s = next, step' s' = next' at hlift ⊢
    cases hlift with
    | inl hnext => exact ih hnext
    | inr hanswer => exact .some hanswer

theorem exists_of_rel_some {α β : Type} {R : α → β → Prop} {a : α} {y : Option β}
    (h : Option.Rel R (some a) y) : ∃ b, y = some b ∧ R a b := by
  cases h with
  | some h => exact ⟨_, rfl, h⟩

theorem exists_of_rel_some_right {α β : Type} {R : α → β → Prop} {b : β} {x : Option α}
    (h : Option.Rel R x (some b)) : ∃ a, x = some a ∧ R a b := by
  cases h with
  | some h => exact ⟨_, rfl, h⟩

theorem rel_map {α β γ δ : Type} {R : α → β → Prop} {S : γ → δ → Prop} {f : α → γ} {g : β → δ}
    (h : ∀ a b, R a b → S (f a) (g b)) {x : Option α} {y : Option β} (hxy : Option.Rel R x y) :
    Option.Rel S (x.map f) (y.map g) := by
  cases hxy with
  | none => exact .none
  | some hab => exact .some (h _ _ hab)

theorem rel_join {α β : Type} {R : α → β → Prop} {x : Option (Option α)} {y : Option (Option β)}
    (hxy : Option.Rel (Option.Rel R) x y) : Option.Rel R x.join y.join := by
  cases hxy with
  | none => exact .none
  | some hab => exact hab

/-- Two amounts of fuel that lead to an answer lead to the same one. -/
theorem iterate_unique {m n : Nat} {s : State} {a b : Answer} (ha : iterate step m s = some a)
    (hb : iterate step n s = some b) : a = b := by
  have ha := iterate_mono (Nat.le_max_left m n) ha
  have hb := iterate_mono (Nat.le_max_right m n) hb
  exact Option.some.inj (ha.symm.trans hb)

end Intcode
