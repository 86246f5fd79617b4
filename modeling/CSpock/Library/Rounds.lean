import Mathlib

/-! Loops by their rounds. A round ends the loop with a result, or leads to the state in front of the next one. -/
namespace CSpock.Library.Rounds

variable {State Result : Type}

/-- A loop that has fuel for so many rounds. -/
def loop (round : State → Option (Result ⊕ State)) : Nat → State → Option Result
  | 0,_ => none
  | fuel+1,state => (round state).bind (Sum.elim some (loop round fuel))

inductive Turns (round : State → Option (Result ⊕ State)) : Nat → State → State → Prop where
  | start {state : State} : Turns round 0 state state
  | next {count : Nat} {state between last : State} (on : round state = some (.inr between))
      (turns : Turns round count between last) : Turns round (count+1) state last

variable {round : State → Option (Result ⊕ State)} {fuel : Nat} {state last : State} {result : Result}

theorem loop_ends (ran : loop round fuel state = some result) :
    ∃ count last, count < fuel ∧ Turns round count state last ∧ round last = some (.inl result) := by
  induction fuel generalizing state with
  | zero => cases ran
  | succ fuel ih =>
    obtain ⟨outcome,once,ran⟩ := Option.bind_eq_some_iff.mp ran
    cases outcome with
    | inl value =>
      cases ran
      exact ⟨0,state,Nat.succ_pos fuel,.start,once⟩
    | inr between =>
      obtain ⟨count,last,less,turns,ends⟩ := ih ran
      exact ⟨count+1,last,Nat.succ_lt_succ less,.next once turns,ends⟩

theorem Turns.loop_add {count : Nat} (turns : Turns round count state last) (fuel : Nat) :
    loop round (fuel+count) state = loop round fuel last := by
  induction turns with
  | start => rfl
  | next on _ ih =>
    rw [← Nat.add_assoc,loop,on]
    exact ih

theorem Turns.loop {count : Nat} (turns : Turns round count state last) (ends : round last = some (.inl result))
    (enough : count < fuel) : loop round fuel state = some result := by
  obtain ⟨spare,rfl⟩ : ∃ spare, fuel = spare + 1 + count := ⟨fuel-1-count,by omega⟩
  rw [turns.loop_add,Rounds.loop,ends]
  rfl

theorem Turns.runs {count : Nat} (turns : Turns round count state last)
    (runs : ∃ outcome, round last = some outcome) : ∃ outcome, round state = some outcome := by
  cases turns with
  | start => exact runs
  | next on => exact ⟨_,on⟩

/-- A loop that answers every round of another one by a round of its own stays beside it. Only the rounds that
lead to a state with another round have to be answered. -/
theorem Turns.beside {Other Answer : Type} {other : Other → Option (Answer ⊕ Other)} {R : State → Other → Prop}
    (answers : ∀ a b c, R a c → round a = some (.inr b) → (∃ outcome, round b = some outcome) →
      ∃ d, other c = some (.inr d) ∧ R b d) {count : Nat} (turns : Turns round count state last)
    (runs : ∃ outcome, round last = some outcome) {start : Other} (related : R state start) :
    ∃ stop, Turns other count start stop ∧ R last stop := by
  induction turns generalizing start with
  | start => exact ⟨start,.start,related⟩
  | next on turns ih =>
    obtain ⟨between,once,related⟩ := answers _ _ _ related on (turns.runs runs)
    obtain ⟨stop,more,ended⟩ := ih runs related
    exact ⟨stop,.next once more,ended⟩

end CSpock.Library.Rounds
