import Mathlib

/-! Runs of a partial step function, as far as they keep to a discipline, and things that
are in one place at a time. -/
namespace CSpock.Library.Transition

section Runs
variable {State Label : Type}

/-- The states that are reached from `start` by permitted steps. -/
inductive Run (step : State → Label → Option State) (permits : State → Label → Prop) (start : State) :
    State → Prop where
  | start : Run step permits start start
  | next {state after : State} {label : Label} (run : Run step permits start state)
      (permitted : permits state label) (stepped : step state label = some after) : Run step permits start after

variable {step : State → Label → Option State} {permits : State → Label → Prop} {start state : State}

theorem Run.invariant {inv : State → Prop} (initial : inv start)
    (preserved : ∀ state label after, inv state → permits state label → step state label = some after → inv after)
    (run : Run step permits start state) : inv state := by
  induction run with
  | start => exact initial
  | next _ permitted stepped ih => exact preserved _ _ _ ih permitted stepped

def replay (step : State → Label → Option State) (permits : State → Label → Prop)
    [∀ state label, Decidable (permits state label)] : State → List Label → Option State
  | state,[] => some state
  | state,label::labels =>
    if permits state label then (step state label).bind fun after => replay step permits after labels else none

theorem Run.replay [∀ state label, Decidable (permits state label)] {labels : List Label}
    (run : Run step permits start state) {after : State} (replayed : replay step permits state labels = some after) :
    Run step permits start after := by
  induction labels generalizing state with
  | nil => exact Option.some.inj replayed ▸ run
  | cons label labels ih =>
    simp only [Transition.replay] at replayed
    split at replayed
    next permitted =>
      obtain ⟨between,stepped,rest⟩ := Option.bind_eq_some_iff.mp replayed
      exact ih (.next run permitted stepped) rest
    next => cases replayed

end Runs

section Observed
variable {State Label Note : Type} {step : State → Label → Option State} {permits : State → Label → Prop}
  {observe : State → Label → State → Note → Note} {start state : State} {note first : Note}

/-- The steps with what an observer notes of them, who has no influence on them. -/
def observed (step : State → Label → Option State) (observe : State → Label → State → Note → Note)
    (seen : State × Note) (label : Label) : Option (State × Note) :=
  (step seen.1 label).map fun next => (next,observe seen.1 label next seen.2)

theorem Run.seen (observe : State → Label → State → Note → Note) (first : Note) (run : Run step permits start state) :
    ∃ note, Run (observed step observe) (fun seen => permits seen.1) (start,first) (state,note) := by
  induction run with
  | start => exact ⟨first,.start⟩
  | next _ permitted stepped ih =>
    obtain ⟨note,run⟩ := ih
    exact ⟨_,.next run permitted (by rw [observed,stepped]; rfl)⟩

end Observed

section Alone
variable {State Agent Act : Type} {step : State → Agent × Act → Option State} {agent : Agent}
  {start state after : State}

/-- The steps of one agent, with none of the others in between. -/
abbrev Alone (step : State → Agent × Act → Option State) (agent : Agent) (start : State) : State → Prop :=
  Run step (fun _ label => label.1 = agent) start

theorem Alone.extend {act : Act} (run : Alone step agent start state) (stepped : step state (agent,act) = some after) :
    Alone step agent start after := Run.next run rfl stepped

theorem Alone.others {Point : Type} {points : State → Agent → Point}
    (others : ∀ state after caller act other, step state (caller,act) = some after → other ≠ caller →
      points after other = points state other)
    (run : Alone step agent start state) {other : Agent} (different : other ≠ agent) :
    points state other = points start other := by
  induction run with
  | start => rfl
  | @next _ _ label _ mine stepped ih =>
    obtain ⟨caller,act⟩ := label
    subst mine
    exact (others _ _ _ _ _ stepped different).trans ih

end Alone

section Owners
variable {Owner Good : Type} {owns owned : Owner → Option Good} {owner : Owner}

/-- No good has two owners, if one of them changes what it owns and takes nothing from the others. -/
theorem unshared_step (others : ∀ other, other ≠ owner → owned other = owns other)
    (mine : ∀ good, owned owner = some good → ∀ other, other ≠ owner → owns other ≠ some good)
    (unshared : ∀ one two good, owns one = some good → owns two = some good → one = two) (one two : Owner) (good : Good)
    (first : owned one = some good) (second : owned two = some good) : one = two := by
  by_cases here : one = owner
  · by_cases there : two = owner
    · exact here.trans there.symm
    · rw [here] at first
      rw [others two there] at second
      exact absurd second (mine good first two there)
  · rw [others one here] at first
    by_cases there : two = owner
    · rw [there] at second
      exact absurd first (mine good second one here)
    · rw [others two there] at second
      exact unshared one two good first second

end Owners

section Custody
variable {Item Place : Type}

/-- Places that hold items, each item in one of them at most and there once. -/
structure Tidy (contents : Place → List Item) : Prop where
  nodup : ∀ place, (contents place).Nodup
  once : ∀ item here there, item ∈ contents here → item ∈ contents there → here = there

def Kept (contents : Place → List Item) : Prop := ∀ item, ∃ place, item ∈ contents place

/-- An item goes from one place to another, or out of the world. -/
structure Transfer (before after : Place → List Item) (item : Item) (source : Place) (target : Option Place) :
    Prop where
  apart : target ≠ some source
  taken : (before source).Perm (item :: after source)
  put : ∀ place, target = some place → (after place).Perm (item :: before place)
  others : ∀ place, place ≠ source → target ≠ some place → after place = before place

variable {before after : Place → List Item} {item : Item} {source : Place} {target : Option Place}

theorem Transfer.found (transfer : Transfer before after item source target) (tidy : Tidy before)
    {other : Item} {place : Place} (found : other ∈ after place) :
    (other = item ∧ target = some place) ∨ (other ≠ item ∧ other ∈ before place) := by
  have present : item ∈ before source := transfer.taken.mem_iff.mpr (List.mem_cons_self ..)
  by_cases goal : target = some place
  · have arrived := (transfer.put place goal).mem_iff.mp found
    rcases List.mem_cons.mp arrived with rfl | stayed
    · exact .inl ⟨rfl,goal⟩
    · refine .inr ⟨?_,stayed⟩
      rintro rfl
      have same := tidy.once other source place present stayed
      exact transfer.apart (same ▸ goal)
  · by_cases origin : place = source
    · subst origin
      have distinct := (transfer.taken.nodup_iff).mp (tidy.nodup place)
      refine .inr ⟨?_,transfer.taken.mem_iff.mpr (List.mem_cons_of_mem _ found)⟩
      rintro rfl
      exact (List.nodup_cons.mp distinct).1 found
    · rw [transfer.others place origin goal] at found
      refine .inr ⟨?_,found⟩
      rintro rfl
      exact origin (tidy.once other place source found present)

theorem Transfer.stays (transfer : Transfer before after item source target) {other : Item} {place : Place}
    (different : other ≠ item) (there : other ∈ before place) : other ∈ after place := by
  by_cases goal : target = some place
  · exact (transfer.put place goal).mem_iff.mpr (List.mem_cons_of_mem _ there)
  · by_cases origin : place = source
    · subst origin
      exact (List.mem_cons.mp (transfer.taken.mem_iff.mp there)).resolve_left different
    · rwa [transfer.others place origin goal]

theorem Tidy.transfer (tidy : Tidy before) (transfer : Transfer before after item source target) : Tidy after where
  nodup place := by
    by_cases goal : target = some place
    · have absent : item ∉ before place := by
        intro there
        have present : item ∈ before source := transfer.taken.mem_iff.mpr (List.mem_cons_self ..)
        have same := tidy.once item source place present there
        exact transfer.apart (same ▸ goal)
      exact (transfer.put place goal).nodup_iff.mpr (List.nodup_cons.mpr ⟨absent,tidy.nodup place⟩)
    · by_cases origin : place = source
      · subst origin
        exact (List.nodup_cons.mp (transfer.taken.nodup_iff.mp (tidy.nodup place))).2
      · rw [transfer.others place origin goal]
        exact tidy.nodup place
  once other here there first second := by
    rcases transfer.found tidy first with ⟨rfl,goal⟩ | ⟨different,first⟩
    · rcases transfer.found tidy second with ⟨_,goal'⟩ | ⟨different,_⟩
      · exact Option.some.inj (goal.symm.trans goal')
      · exact absurd rfl different
    · rcases transfer.found tidy second with ⟨rfl,_⟩ | ⟨_,second⟩
      · exact absurd rfl different
      · exact tidy.once other here there first second

theorem Kept.transfer {place : Place} (kept : Kept before)
    (transfer : Transfer before after item source (some place)) : Kept after := by
  intro other
  by_cases same : other = item
  · exact ⟨place,(transfer.put place rfl).mem_iff.mpr (same ▸ List.mem_cons_self ..)⟩
  · obtain ⟨there,found⟩ := kept other
    exact ⟨there,transfer.stays same found⟩

end Custody

section Tally
variable {Agent Point : Type} [DecidableEq Agent]

theorem tally (counts : Point → Bool) {before after : Agent → Point} {agent : Agent}
    (others : ∀ other, other ≠ agent → after other = before other) {agents : Finset Agent}
    (all : ∀ other, other ∈ agents ↔ counts (before other) = true) :
    ∃ now : Finset Agent, (∀ other, other ∈ now ↔ counts (after other) = true) ∧
      now.card + (counts (before agent)).toNat = agents.card + (counts (after agent)).toNat := by
  have inside := all agent
  cases old : counts (before agent) <;> cases new : counts (after agent)
  · refine ⟨agents,fun other => ?_,rfl⟩
    by_cases here : other = agent
    · rw [here,inside,old,new]
    · rw [others other here,all]
  · have absent : agent ∉ agents := by rw [inside,old]; exact Bool.false_ne_true
    refine ⟨insert agent agents,fun other => ?_,by rw [Finset.card_insert_of_notMem absent]; rfl⟩
    by_cases here : other = agent
    · simp [here,new]
    · rw [others other here,Finset.mem_insert,all]
      exact or_iff_right here
  · have present : agent ∈ agents := inside.mpr old
    refine ⟨agents.erase agent,fun other => ?_,Finset.card_erase_add_one present⟩
    by_cases here : other = agent
    · simp [here,new]
    · rw [others other here,Finset.mem_erase,all]
      exact and_iff_right here
  · refine ⟨agents,fun other => ?_,rfl⟩
    by_cases here : other = agent
    · rw [here,inside,old,new]
    · rw [others other here,all]

end Tally

end CSpock.Library.Transition
