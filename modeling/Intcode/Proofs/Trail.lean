import Mathlib.Data.List.Chain
import Mathlib.Data.List.Forall2
import Intcode.Iteration

/-!
# The states of an iteration

An answer says where an iteration ends. What is said of the time before is said of its trail, the
states that it takes a step from. The trail is a function of the same step, so a statement about it
is one about the iteration, also about one that fuel does not suffice for.

* `trail` — the states that an iteration takes a step from;
* `iterate_of_trail` — an answer ends the trail;
* `isChain_trail` — the states follow each other by steps;
* `trail_induction`, `forall₂_trail` — what holds of all states, of one iteration and of two.
-/

namespace Intcode

/-- The states that an iteration takes a step from, as far as its fuel goes. -/
def trail {State Answer : Type} (step : State → State ⊕ Answer) : Nat → State → List State
  | 0, _ => []
  | fuel + 1, state =>
    state :: match step state with
      | .inl next => trail step fuel next
      | .inr _ => []

variable {State Answer : Type} {step : State → State ⊕ Answer}

/-- A state that gives an answer is the last one. -/
theorem iterate_of_trail {fuel : Nat} {s t : State} {front rest : List State} {a : Answer}
    (htrail : trail step fuel s = front ++ t :: rest) (ht : step t = .inr a) :
    rest = [] ∧ iterate step fuel s = some a := by
  induction fuel generalizing s front with
  | zero => simp [trail] at htrail
  | succ fuel ih =>
    rw [trail] at htrail
    rw [iterate_succ]
    cases front with
    | nil =>
      obtain ⟨rfl, hrest⟩ := List.cons.inj htrail
      rw [ht] at hrest ⊢
      exact ⟨hrest.symm, rfl⟩
    | cons s' front =>
      obtain ⟨-, htrail⟩ := List.cons.inj htrail
      -- another state follows, so the first one has given no answer
      cases hs : step s with
      | inl next =>
        rw [hs] at htrail
        exact ih htrail
      | inr b =>
        rw [hs] at htrail
        simp at htrail

/-- What holds at first and is kept by every step holds of all states. -/
theorem trail_induction {P : State → Prop} (hstep : ∀ s t, P s → step s = .inl t → P t)
    {fuel : Nat} {s : State} (h : P s) : ∀ t ∈ trail step fuel s, P t := by
  induction fuel generalizing s with
  | zero => simp [trail]
  | succ fuel ih =>
    intro t ht
    rw [trail] at ht
    rcases List.mem_cons.mp ht with rfl | ht
    · exact h
    · cases hs : step s with
      | inl next =>
        rw [hs] at ht
        exact ih (hstep s next h hs) t ht
      | inr a =>
        rw [hs] at ht
        contradiction

/-- Each state but the first one is what a step of the one in front of it leads to. -/
theorem isChain_trail (fuel : Nat) (s : State) :
    (trail step fuel s).IsChain fun s t => step s = .inl t := by
  induction fuel generalizing s with
  | zero => exact .nil
  | succ fuel ih =>
    rw [trail]
    cases hs : step s with
    | inr a => exact .singleton _
    | inl next =>
      cases fuel with
      | zero => exact .singleton _
      | succ fuel =>
        -- the trail from the next state begins with that state
        have hnext := ih next
        dsimp only
        rw [trail] at hnext ⊢
        exact .cons_cons hs hnext

/-- Iterations whose states stay related step from related states. -/
theorem forall₂_trail {State' Answer' : Type} {step' : State' → State' ⊕ Answer'}
    {R : State → State' → Prop} {A : Answer → Answer' → Prop}
    (hstep : ∀ s s', R s s' → Sum.LiftRel R A (step s) (step' s')) (fuel : Nat) {s : State}
    {s' : State'} (h : R s s') : List.Forall₂ R (trail step fuel s) (trail step' fuel s') := by
  induction fuel generalizing s s' with
  | zero => exact .nil
  | succ fuel ih =>
    have hlift := hstep s s' h
    unfold trail
    generalize step s = next, step' s' = next' at hlift ⊢
    cases hlift with
    | inl hnext => exact .cons h (ih hnext)
    | inr => exact .cons h .nil

end Intcode
