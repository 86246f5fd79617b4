import Mathlib

/-! Readers of a stream that comes in chunks. A reader looks at its state and at what is
queued and stops for good, waits for more or hands an item out. Where its steps do not
depend on how much of the stream has come yet, neither do the items of a whole run. -/
namespace CSpock.Library.Chunked

universe u v w
variable {σ : Type u} {α : Type v} {β : Type w}

inductive Step (σ : Type u) (α : Type v) (β : Type w) where
  | stops
  | waits (state : σ) (queue : List α)
  | hands (item : β) (state : σ) (queue : List α)

/-- All that is handed out of a queue, with the state in which the reader waits; `none` has stopped. -/
inductive Drains (step : σ → List α → Step σ α β) : σ → List α → List β → Option (σ × List α) → Prop where
  | stops {state : σ} {queue : List α} (stepped : step state queue = .stops) : Drains step state queue [] none
  | waits {state next : σ} {queue left : List α} (stepped : step state queue = .waits next left) :
      Drains step state queue [] (some (next,left))
  | hands {state next : σ} {queue left : List α} {item : β} {items : List β} {outcome : Option (σ × List α)}
      (stepped : step state queue = .hands item next left) (drains : Drains step next left items outcome) :
      Drains step state queue (item::items) outcome

inductive Feeds (step : σ → List α → Step σ α β) :
    σ → List α → List (List α) → List β → Option (σ × List α) → Prop where
  | done {state : σ} {queue : List α} : Feeds step state queue [] [] (some (state,queue))
  | stop {state : σ} {queue chunk : List α} {chunks : List (List α)} {items : List β}
      (drains : Drains step state (queue ++ chunk) items none) : Feeds step state queue (chunk::chunks) items none
  | next {state next : σ} {queue left chunk : List α} {chunks : List (List α)} {items more : List β}
      {outcome : Option (σ × List α)} (drains : Drains step state (queue ++ chunk) items (some (next,left)))
      (feeds : Feeds step next left chunks more outcome) :
      Feeds step state queue (chunk::chunks) (items ++ more) outcome

/-- The states and queues behind the items of a drain. -/
def Reaches (step : σ → List α → Step σ α β) : σ × List α → σ × List α → Prop :=
  Relation.ReflTransGen fun before after => ∃ item, step before.1 before.2 = .hands item after.1 after.2

/-- What comes later changes no item and no stop, and on a safe stream it changes no wait. -/
structure Steady (step : σ → List α → Step σ α β) (safe : σ → List α → Prop) : Prop where
  stops : ∀ state queue more, step state queue = .stops → step state (queue ++ more) = .stops
  hands : ∀ state queue more item next left, step state queue = .hands item next left →
    step state (queue ++ more) = .hands item next (left ++ more)
  waits : ∀ state queue more next left, safe state (queue ++ more) → step state queue = .waits next left →
    step state (queue ++ more) = step next (left ++ more) ∧ step next left = .waits next left ∧
      safe next (left ++ more)
  onward : ∀ state queue item next left, safe state queue → step state queue = .hands item next left →
    safe next left

variable {step : σ → List α → Step σ α β} {safe : σ → List α → Prop}

theorem Drains.unique {state : σ} {queue : List α} {items others : List β} {outcome other : Option (σ × List α)}
    (drains : Drains step state queue items outcome) (again : Drains step state queue others other) :
    items = others ∧ outcome = other := by
  induction drains generalizing others with
  | stops stepped => cases again <;> simp_all
  | waits stepped => cases again <;> simp_all
  | hands stepped _ ih =>
    cases again with
    | stops stopped => simp [stepped] at stopped
    | waits waited => simp [stepped] at waited
    | hands handed drains =>
      rw [stepped] at handed
      cases handed
      obtain ⟨same,outcome⟩ := ih drains
      exact ⟨by rw [same],outcome⟩

theorem Drains.congr {state other : σ} {queue queued : List α} (same : step state queue = step other queued)
    {items : List β} {outcome : Option (σ × List α)} (drains : Drains step other queued items outcome) :
    Drains step state queue items outcome := by
  cases drains with
  | stops stepped => exact .stops (same.trans stepped)
  | waits stepped => exact .waits (same.trans stepped)
  | hands stepped drains => exact .hands (same.trans stepped) drains

theorem Drains.append_stopped (steady : Steady step safe) {state : σ} {queue : List α} {items : List β}
    (drains : Drains step state queue items none) (more : List α) :
    Drains step state (queue ++ more) items none := by
  generalize stopped : none = outcome at drains
  induction drains with
  | stops stepped => exact .stops (steady.stops _ _ more stepped)
  | waits => cases stopped
  | hands stepped _ ih => exact .hands (steady.hands _ _ more _ _ _ stepped) (ih stopped)

/-- A drain that waits goes on, with what comes later, as if that had been there from the start. -/
theorem Drains.append_waiting (steady : Steady step safe) {state next : σ} {queue left more : List α}
    {items : List β} (drains : Drains step state queue items (some (next,left)))
    (secure : safe state (queue ++ more)) :
    step next left = .waits next left ∧ safe next (left ++ more) ∧
      ∀ rest outcome, Drains step next (left ++ more) rest outcome →
        Drains step state (queue ++ more) (items ++ rest) outcome := by
  generalize waited : some (next,left) = outcome at drains
  induction drains with
  | stops => cases waited
  | waits stepped =>
    cases waited
    obtain ⟨same,idle,secure⟩ := steady.waits _ _ more _ _ secure stepped
    exact ⟨idle,secure,fun rest outcome drains => drains.congr same⟩
  | hands stepped _ ih =>
    have appended := steady.hands _ _ more _ _ _ stepped
    obtain ⟨idle,secure,onward⟩ := ih (steady.onward _ _ _ _ _ secure appended) waited
    exact ⟨idle,secure,fun rest outcome drains => .hands appended (onward rest outcome drains)⟩

theorem Reaches.append (steady : Steady step safe) {before after : σ × List α} (reaches : Reaches step before after)
    (more : List α) : Reaches step (before.1,before.2 ++ more) (after.1,after.2 ++ more) := by
  induction reaches with
  | refl => exact .refl
  | tail _ handed ih =>
    obtain ⟨item,handed⟩ := handed
    exact ih.tail ⟨item,steady.hands _ _ more _ _ _ handed⟩

/-- A safe stream is drained chunk by chunk as it is in one piece. -/
theorem Feeds.drains (steady : Steady step safe) {state : σ} {queue : List α} {chunks : List (List α)}
    {items : List β} {outcome : Option (σ × List α)} (feeds : Feeds step state queue chunks items outcome)
    (idle : step state queue = .waits state queue) (secure : safe state (queue ++ chunks.flatten)) :
    Drains step state (queue ++ chunks.flatten) items outcome := by
  induction feeds with
  | done =>
    rw [List.flatten_nil,List.append_nil]
    exact .waits idle
  | stop drains =>
    rw [List.flatten_cons,← List.append_assoc]
    exact drains.append_stopped steady _
  | next drains _ ih =>
    rw [List.flatten_cons,← List.append_assoc] at secure ⊢
    obtain ⟨idle,secure,onward⟩ := drains.append_waiting steady secure
    exact onward _ _ (ih idle secure)

/-- Wherever a safe stream is cut, the same items come out and the reader ends in the same state. -/
theorem Feeds.unique (steady : Steady step safe) {state : σ} {queue : List α} {chunks others : List (List α)}
    {items otherItems : List β} {outcome other : Option (σ × List α)}
    (feeds : Feeds step state queue chunks items outcome) (again : Feeds step state queue others otherItems other)
    (same : chunks.flatten = others.flatten) (idle : step state queue = .waits state queue)
    (secure : safe state (queue ++ chunks.flatten)) : items = otherItems ∧ outcome = other := by
  have first := feeds.drains steady idle secure
  rw [same] at secure first
  exact first.unique (again.drains steady idle secure)

end CSpock.Library.Chunked
