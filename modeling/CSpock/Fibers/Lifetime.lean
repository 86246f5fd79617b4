import CSpock.Fibers.Conservation

/-! How long a thread that processes a finished job has to do with the counter. The users
set a counter again as soon as a wait for it has come back, and know nothing of the thread
that woke them. -/
set_option linter.unusedSectionVars false
namespace CSpock.Fibers
open CSpock.Library.Transition

variable {size : Nat} {Thread Counter Work : Type} [DecidableEq Thread] [DecidableEq Counter]

def Point.clears : Point size Counter Work → Option Counter
  | .leaving _ count _ => some count
  | .releasing count => some count
  | .unlocking _ count => some count
  | _ => none

/-- The counter whose lock the thread is about to take, when it is free. -/
def Point.takes : Point size Counter Work → Option Counter
  | .acquiring _ count _ => some count
  | .completing _ count => some count
  | _ => none

/-- The counter for which the thread processes a finished job. -/
def Point.completes : Point size Counter Work → Option Counter
  | .completing _ count => some count
  | .loading _ count => some count
  | .storing _ count _ => some count
  | .judging _ count => some count
  | .waking _ count _ => some count
  | .unlocking _ count => some count
  | _ => none

/-- The counter that the thread has to do with on behalf of a fiber that waits. -/
def Sys.serves (sys : Sys size Thread Counter Work) (thread : Thread) : Option Counter :=
  match sys.threads thread with
  | .acquiring _ count _ => some count
  | .adding _ count => some count
  | .recording _ count _ => some count
  | .releasing count => some count
  | _ => if (sys.threads thread).completes = none then sys.holds thread else none

/-- The job system with what has happened to the counters: who took a lock last and has not cleared it, whether
a wait has come back since the counter was set, and for which counter a thread has put a waiter on a queue. -/
structure Life (size : Nat) (Thread Counter Work : Type) where
  sys : Sys size Thread Counter Work
  holder : Counter → Option Thread
  ended : Counter → Bool
  woke : Thread → Option Counter

namespace Life

/-- The counter whose wait comes back without an error with a step: it was 0, or the fiber was woken. -/
def returns (life : Life size Thread Counter Work) (label : Thread × Act Counter Work) : Option Counter :=
  match label.2.fails,life.sys.threads label.1 with
  | false,.leaving _ count false => some count
  | false,.polling queue =>
    match life.sys.queues queue with
    | [] => none
    | fiber::_ => (life.sys.fibers fiber).dependencyCount.filter fun count =>
        (life.sys.batches count).any fun batch => fiber ∈ batch.woken
  | _,_ => none

def sets (label : Thread × Act Counter Work) : Option Counter :=
  match label.2 with
  | .schedule _ _ count _ => count
  | _ => none

def wakes (life : Life size Thread Counter Work) (label : Thread × Act Counter Work) : Option Counter :=
  match label.2.fails,life.sys.threads label.1 with
  | false,.waking _ count index => if index < (life.sys.counters count).waiters.length then some count else none
  | _,_ => none

def mark {Place Value : Type} [DecidableEq Place] (values : Place → Value) (place : Option Place) (value : Value) :
    Place → Value := fun other => if place = some other then value else values other

def step (life : Life size Thread Counter Work) (label : Thread × Act Counter Work) :
    Option (Life size Thread Counter Work) :=
  (life.sys.step label).map fun next =>
    { sys := next
      holder := mark (mark (mark life.holder (life.sys.threads label.1).takes (some label.1))
        (life.sys.threads label.1).clears none) (sets label) none
      ended := mark (mark life.ended (life.returns label) true) (sets label) false
      woke := Function.update life.woke label.1
        ((life.wakes label).or
          (if (life.sys.threads label.1).completes = none then none else life.woke label.1)) }

def init (size : Nat) (counters : Counter → VgcCounter size) : Life size Thread Counter Work :=
  ⟨.vgcSchedulerInit size counters,fun _ => none,fun _ => false,fun _ => none⟩

/-- A counter may be set when it never was, or when a wait for it has come back, and no other fiber waits for it
or enqueues jobs with it. -/
def Patient (life : Life size Thread Counter Work) (label : Thread × Act Counter Work) : Prop :=
  match label.2 with
  | .schedule jobs len (some count) _ => (0 ≤ len ∧ len ≤ jobs.length) ∧
      ((life.sys.batches count).isNone = true ∨ life.ended count = true) ∧ life.sys.pending count = [] ∧
      ∀ thread, life.sys.serves thread ≠ some count ∧ (life.sys.threads thread).schedules ≠ some count
  | .wait count _ => (life.sys.batches count).isSome
  | _ => True

/-- A thread that takes a counter to 0 finds no waiter. -/
def Unawaited (life : Life size Thread Counter Work) (label : Thread × Act Counter Work) : Prop :=
  life.Patient label ∧ ∀ count ∈ (life.sys.threads label.1).wakes,
    (life.sys.counters count).counter = 0 → (life.sys.counters count).waiters = []

instance [Fintype Thread] (life : Life size Thread Counter Work) (label : Thread × Act Counter Work) :
    Decidable (life.Patient label) :=
  match label with
  | (_,.schedule jobs len (some count) _) => inferInstanceAs (Decidable ((0 ≤ len ∧ len ≤ jobs.length) ∧
      ((life.sys.batches count).isNone = true ∨ life.ended count = true) ∧ life.sys.pending count = [] ∧
      ∀ thread, life.sys.serves thread ≠ some count ∧ (life.sys.threads thread).schedules ≠ some count))
  | (_,.schedule _ _ none _) => isTrue trivial
  | (_,.wait count _) => inferInstanceAs (Decidable ((life.sys.batches count).isSome = true))
  | (_,.enque _) => isTrue trivial
  | (_,.enter) => isTrue trivial
  | (_,.finish) => isTrue trivial
  | (_,.go) => isTrue trivial
  | (_,.fail) => isTrue trivial

instance [Fintype Thread] (life : Life size Thread Counter Work) (label : Thread × Act Counter Work) :
    Decidable (life.Unawaited label) := inferInstanceAs (Decidable (_ ∧ ∀ count ∈ (life.sys.threads label.1).wakes,
      (life.sys.counters count).counter = 0 → (life.sys.counters count).waiters = []))

/-- A thread leaves a counter alone once it has put a waiter for it on a queue, and clears only a lock that it
holds. -/
structure Lasts (life : Life size Thread Counter Work) : Prop where
  alone : ∀ thread count, life.woke thread = some count → (life.sys.threads thread).counter ≠ some count
  clears : ∀ thread count, (life.sys.threads thread).clears = some count → life.holder count = some thread

section Marks
variable {Place Value : Type} [DecidableEq Place] {values : Place → Value} {place : Option Place} {value : Value}
    {other : Place}

theorem mark_apart (apart : place ≠ some other) : mark values place value other = values other := if_neg apart

theorem mark_here : mark values (some other) value other = value := if_pos rfl

end Marks

end Life

open Sys

variable {sys next : Sys size Thread Counter Work} {thread : Thread} {act : Act Counter Work} {count : Counter}

theorem Step.holds (step : Step sys thread act next) (held : next.holds thread = some count) :
    (sys.threads thread).clears = none ∧ Life.sets (thread,act) = none ∧
      ((sys.threads thread).takes = some count ∨ (sys.threads thread).takes = none ∧ sys.holds thread = some count) := by
  cases step with
  | schedule point => simp [Sys.holds] at held
  | scheduled point back => obtain ⟨_,rfl⟩ | ⟨_,_,rfl⟩ := Caller.point_cases back <;> simp [Sys.holds] at held
  | starved point empty back => obtain ⟨_,rfl⟩ | ⟨_,_,rfl⟩ := Caller.point_cases back <;> simp [Sys.holds] at held
  | denied point back => obtain ⟨_,rfl⟩ | ⟨_,_,rfl⟩ := Caller.point_cases back <;> simp [Sys.holds] at held
  | undo point room back => obtain ⟨_,rfl⟩ | ⟨_,_,rfl⟩ := Caller.point_cases back <;> simp [Sys.holds] at held
  | @finish fiber point =>
    have done : (((sys.finish fiber).setPoint thread (.switched fiber)).fibers fiber).state = .done := by
      simp [Sys.finish,setFiber,setPoint]
    simp [Sys.holds,done] at held
  | @suspend fiber own point =>
    have own : ((sys.suspend fiber own).setPoint thread (.switched fiber)).fibers fiber =
        { sys.fibers fiber with state := .wait, dependencyCount := some own } := Function.update_self ..
    simp only [Sys.holds,setPoint_same,own,if_true] at held
    simp [Sys.holds,point,Point.clears,Point.takes,Life.sets,held]
  | waits point state dependency =>
    simp only [Sys.holds,setPoint_same] at held
    simp [Sys.holds,point,Point.clears,Point.takes,Life.sets,state,dependency,held]
  | _ =>
    simp only [Sys.holds,setPoint_same] at held
    simp_all [Sys.holds,Point.clears,Point.takes,Life.sets]

theorem Step.takes_free (step : Step sys thread act next) (takes : (sys.threads thread).takes = some count) :
    (sys.counters count).lock = false := by
  cases step <;> simp_all [Point.takes]

namespace Sys

theorem clears_holds (clears : (sys.threads thread).clears = some count) : sys.holds thread = some count := by
  unfold holds
  cases point : sys.threads thread <;> simp_all [Point.clears]

theorem serves_or_completes (named : (sys.threads thread).counter = some count ∨ sys.holds thread = some count) :
    sys.serves thread = some count ∨ (sys.threads thread).completes = some count := by
  unfold serves
  cases point : sys.threads thread <;> simp_all [holds,Point.completes]

theorem Sound.hold_apart (sound : sys.Sound) (step : Step sys thread act next) {other : Thread}
    (different : other ≠ thread) : next.holds other = sys.holds other := by
  have point := step.others different
  cases at_ : sys.threads other with
  | switched fiber =>
    have same := sound.hand_apart step different (show (sys.threads other).hand = some fiber by rw [at_]; rfl)
    simp only [holds,point,at_,same]
  | _ => simp only [holds,point,at_]

theorem Sound.held_set (sound : sys.Sound) (held : sys.holds thread = some count) : (sys.batches count).isSome := by
  by_cases named : (sys.threads thread).counter = some count
  · exact sound.known thread count named
  · have knows := sound.knows thread
    unfold holds at held
    unfold Knows at knows
    cases point : sys.threads thread with
    | switched fiber =>
      rw [point] at held knows
      simp only at held
      split at held
      next state =>
        obtain ⟨own,dependency,set,_⟩ := knows.2 state
        cases dependency.symm.trans held
        exact set
      next => cases held
    | _ => simp_all

theorem Sound.carried_live (sound : sys.Sound) {fiber : Fin size} (carried : sys.carries fiber = some count) :
    (sys.counters count).counter ≠ 0 := by
  obtain ⟨batch,set⟩ := Option.isSome_iff_exists.mp (sound.carried fiber count carried)
  have counted := (sound.settled count batch set).counted
  have some_live : 0 < sys.live count :=
    Finset.card_pos.mpr ⟨fiber,Finset.mem_filter.mpr ⟨Finset.mem_univ _,carried⟩⟩
  omega

end Sys

namespace Life

variable {life after : Life size Thread Counter Work} {label : Thread × Act Counter Work}

/-- The invariant of runs in which no waiter is woken: once a wait has come back, no one processes a job of the
counter any more. -/
structure Calm (life : Life size Thread Counter Work) : Prop where
  sound : life.sys.Sound
  holding : ∀ thread count, life.sys.holds thread = some count → life.holder count = some thread
  spent : ∀ count, life.ended count = true → (life.sys.batches count).isSome ∧
    (life.sys.counters count).counter = 0 ∧ ∀ thread, (life.sys.threads thread).completes ≠ some count
  unwoken : ∀ count batch, life.sys.batches count = some batch → batch.woken = []
  woke : ∀ thread, life.woke thread = none

theorem Calm.permits (calm : life.Calm) (patient : life.Patient label) : life.sys.Permits label := by
  obtain ⟨thread,act⟩ := label
  cases act with
  | schedule jobs len count fatal =>
    cases count with
    | none => trivial
    | some count =>
      obtain ⟨⟨natural,enough⟩,fresh,empty,others⟩ := patient
      have uncompleted : ∀ other, (life.sys.batches count).isSome →
          (life.sys.threads other).completes ≠ some count := by
        intro other set
        rcases fresh with never | ended
        · rw [Option.isNone_iff_eq_none.mp never] at set
          cases set
        · exact (calm.spent count ended).2.2 other
      refine ⟨natural,enough,fun other named => ?_,fun other held => ?_,fun other => (others other).2,
        fun fiber carried => ?_,empty⟩
      · have set := calm.sound.known other count named
        exact (serves_or_completes (.inl named)).elim (others other).1 (uncompleted other set)
      · have set := calm.sound.held_set held
        exact (serves_or_completes (.inr held)).elim (others other).1 (uncompleted other set)
      · rcases fresh with never | ended
        · have set := calm.sound.carried fiber count carried
          rw [Option.isNone_iff_eq_none.mp never] at set
          cases set
        · exact calm.sound.carried_live carried (calm.spent count ended).2.1
  | wait count checked => exact patient
  | _ => trivial

theorem Calm.wakes_not (calm : life.Calm) (unawaited : life.Unawaited label) : life.wakes label = none := by
  unfold wakes
  split
  next fiber count index _ point =>
    have knows := calm.sound.knows label.1
    simp only [Knows,point] at knows
    have none_waits := unawaited.2 count (by rw [point]; rfl) knows.2.1
    simp [none_waits]
  next => rfl

theorem unwoken_step {thread : Thread} {act : Act Counter Work} {sys next : Sys size Thread Counter Work}
    (step : Step sys thread act next) (asleep : ∀ fiber waiter count index,
      sys.threads thread = .waking fiber count index → (sys.counters count).waiters[index]? ≠ some waiter)
    (unwoken : ∀ count batch, sys.batches count = some batch → batch.woken = []) (count : Counter)
    (batch : Batch size) (set : next.batches count = some batch) : batch.woken = [] := by
  cases step with
  | @schedule fiber jobs len named fatal =>
    cases named with
    | none => exact unwoken count batch set
    | some named =>
      by_cases same : count = named
      · subst same
        have set' : (if 0 ≤ len then some (Batch.mk len.toNat []) else none) = some batch := by
          rw [← set]
          exact (Function.update_self count _ sys.batches).symm
        split at set' <;> cases set'
        rfl
      · refine unwoken count batch ?_
        rw [← set]
        exact (Function.update_of_ne same _ sys.batches).symm
  | @dispatch caller index fiber job jobs named queue =>
    change (Sys.carry _ fiber named).batches count = some batch at set
    rw [carry_batches] at set
    split at set
    next =>
      obtain ⟨before,set',rfl⟩ := Option.map_eq_some_iff.mp set
      exact unwoken count before set'
    next => exact unwoken count batch set
  | wake point recorded => exact absurd recorded (asleep _ _ _ _ point)
  | skip point recorded => exact absurd recorded (asleep _ _ _ _ point)
  | _ => exact unwoken count batch set

theorem counter_step {thread : Thread} {act : Act Counter Work} {sys next : Sys size Thread Counter Work}
    (step : Step sys thread act next) {count : Counter} (completes : (sys.threads thread).completes ≠ some count)
    (unset : sets (thread,act) ≠ some count) : (next.counters count).counter = (sys.counters count).counter := by
  cases step with
  | @schedule fiber jobs len named fatal =>
    cases named with
    | none => rfl
    | some named =>
      have different : count ≠ named := fun same => unset (by rw [same]; rfl)
      exact congrArg VgcCounter.counter (Function.update_of_ne different ..)
  | @dispatch caller index fiber job jobs named queue =>
    exact congrArg VgcCounter.counter (congrFun (carry_frame fiber named).2.2.2.1 count)
  | acquire point free => exact (setLock_data _ _ count).1
  | leave point => exact (setLock_data _ _ count).1
  | release point => exact (setLock_data _ _ count).1
  | complete point free => exact (setLock_data _ _ count).1
  | unlock point => exact (setLock_data _ _ count).1
  | @record fiber named len point =>
    by_cases same : count = named
    · subst same
      simp [record,setCounter,setPoint]
    · simp [record,setCounter,setPoint,same]
  | @store fiber named value point =>
    have different : count ≠ named := fun same => completes (by rw [point,same]; rfl)
    exact congrArg VgcCounter.counter (Function.update_of_ne different ..)
  | @wake fiber waiter named index =>
    exact congrArg VgcCounter.counter (congrFun (wake_frame waiter named).2.2 count)
  | _ => rfl

theorem turn_batches {sys : Sys size Thread Counter Work} {waiter : Fin size} (named : Counter) {count : Counter}
    (set : (sys.batches count).isSome) : ((sys.turn waiter named).batches count).isSome := by
  by_cases same : count = named
  · subst same
    simpa [turn] using set
  · simpa [turn,same] using set

theorem batches_step {thread : Thread} {act : Act Counter Work} {sys next : Sys size Thread Counter Work}
    (step : Step sys thread act next) {count : Counter} (unset : sets (thread,act) ≠ some count)
    (set : (sys.batches count).isSome) : (next.batches count).isSome := by
  cases step with
  | @schedule fiber jobs len named fatal =>
    cases named with
    | none => exact set
    | some named =>
      have different : count ≠ named := fun same => unset (by rw [same]; rfl)
      have same : ((sys.initCounter len (some named)).batches count) = sys.batches count :=
        Function.update_of_ne different _ sys.batches
      exact (congrArg Option.isSome same).trans set
  | @dispatch caller index fiber job jobs named queue =>
    change ((Sys.carry _ fiber named).batches count).isSome = true
    rw [carry_batches]
    split
    next => rw [Option.isSome_map]; exact set
    next => exact set
  | @wake fiber waiter named index =>
    refine turn_batches named ?_
    cases woken : (sys.fibers waiter).priority.queue.bind fun queue => sys.vgcEnqueue queue waiter with
    | none => exact set
    | some after =>
      obtain ⟨queue,_,enqueued⟩ := Option.bind_eq_some_iff.mp woken
      unfold Sys.vgcEnqueue at enqueued
      split at enqueued <;> cases enqueued
      exact set
  | @skip fiber waiter named index => exact turn_batches named set
  | _ => exact set

theorem completes_step {thread : Thread} {act : Act Counter Work} {sys next : Sys size Thread Counter Work}
    (step : Step sys thread act next) {count : Counter} (completes : (next.threads thread).completes = some count) :
    (sys.threads thread).completes = some count ∨
      ∃ fiber, sys.threads thread = .switched fiber ∧ (sys.fibers fiber).parentCount = some count := by
  cases step with
  | @done fiber named point state parent =>
    simp only [setPoint_same,Point.completes,Option.some.injEq] at completes
    exact .inr ⟨fiber,point,completes ▸ parent⟩
  | scheduled point back => obtain ⟨_,rfl⟩ | ⟨_,_,rfl⟩ := Caller.point_cases back <;> simp [Point.completes] at completes
  | starved point empty back =>
    rcases Caller.point_cases back with ⟨_,rfl⟩ | ⟨_,_,rfl⟩ <;> simp [Point.completes] at completes
  | denied point back => obtain ⟨_,rfl⟩ | ⟨_,_,rfl⟩ := Caller.point_cases back <;> simp [Point.completes] at completes
  | undo point room back => obtain ⟨_,rfl⟩ | ⟨_,_,rfl⟩ := Caller.point_cases back <;> simp [Point.completes] at completes
  | _ =>
    simp only [setPoint_same,Point.completes] at completes
    simp_all [Point.completes]

def Spent (sys : Sys size Thread Counter Work) (count : Counter) : Prop :=
  (sys.batches count).isSome ∧ (sys.counters count).counter = 0 ∧
    ∀ thread, (sys.threads thread).completes ≠ some count

theorem Spent.step {thread : Thread} {act : Act Counter Work} {sys next : Sys size Thread Counter Work}
    {count : Counter} (spent : Spent sys count) (sound : sys.Sound) (step : Step sys thread act next)
    (unset : sets (thread,act) ≠ some count) : Spent next count := by
  obtain ⟨set,zero,completes⟩ := spent
  refine ⟨batches_step step unset set,(counter_step step (completes thread) unset).trans zero,fun other => ?_⟩
  by_cases here : other = thread
  · subst here
    intro now
    rcases completes_step step now with already | ⟨fiber,point,parent⟩
    · exact completes other already
    · have knows := sound.knows other
      simp only [Knows,point] at knows
      exact sound.carried_live (knows.1.carries.trans parent) zero
  · rw [step.others here]
    exact completes other

theorem Calm.returns_spent (calm : life.Calm) {thread : Thread} {act : Act Counter Work} {count : Counter}
    (returns : life.returns (thread,act) = some count) : Spent life.sys count := by
  unfold Life.returns at returns
  split at returns
  next fiber own _ point =>
    cases returns
    change life.sys.threads thread = _ at point
    have knows := calm.sound.knows thread
    simp only [Knows,point] at knows
    have zero := knows trivial
    have held : life.sys.holds thread = some count := by simp only [Sys.holds,point]
    refine ⟨calm.sound.held_set held,zero,fun other completes => ?_⟩
    have knows' := calm.sound.knows other
    unfold Knows at knows'
    have apart : other ≠ thread := by
      rintro rfl
      rw [point] at completes
      cases completes
    have unheld := calm.sound.apart held other apart
    unfold Sys.holds at unheld
    cases at_ : life.sys.threads other with
    | completing own named =>
      rw [at_] at completes knows'
      cases completes
      exact calm.sound.carried_live knows' zero
    | _ =>
      rw [at_] at completes unheld
      first | exact unheld completes | cases completes
  next queue _ point =>
    split at returns
    next => cases returns
    next fiber rest head =>
      obtain ⟨_,woken⟩ := Option.filter_eq_some_iff.mp returns
      cases set : life.sys.batches count with
      | none => simp [set] at woken
      | some batch => simp [set,calm.unwoken count batch set] at woken
  next => cases returns

theorem Calm.step (calm : life.Calm) (unawaited : life.Unawaited label) (stepped : life.step label = some after) :
    after.Calm := by
  obtain ⟨thread,act⟩ := label
  obtain ⟨next,moved,rfl⟩ := Option.map_eq_some_iff.mp stepped
  have step := step_cases moved
  have permitted := calm.permits unawaited.1
  have asleep := calm.wakes_not unawaited
  refine ⟨(calm.sound.step permitted step).sound,fun other count held => ?_,fun count ended => ?_,?_,fun other => ?_⟩
  · by_cases here : other = thread
    · subst here
      obtain ⟨clears,unset,taken | ⟨takes,held⟩⟩ := step.holds held
      · simp only [unset,clears,taken,mark,if_true,reduceCtorEq,if_false]
      · simp only [unset,clears,takes,mark,reduceCtorEq,if_false]
        exact calm.holding other count held
    · rw [calm.sound.hold_apart step here] at held
      have before := calm.holding other count held
      have unset : sets (thread,act) ≠ some count := by
        intro named
        cases act with
        | schedule jobs len own fatal =>
          cases named
          exact permitted.2.2.unheld other held
        | _ => cases named
      change mark (mark (mark life.holder _ _) _ _) _ _ count = some other
      rw [mark_apart unset,mark_apart,mark_apart,before]
      · exact fun takes => calm.sound.unheld (step.takes_free takes) other held
      · exact fun clears => here (calm.sound.mutex other thread count held (clears_holds clears))
  · change mark (mark life.ended _ _) _ _ count = true at ended
    by_cases unset : sets (thread,act) = some count
    · rw [unset,mark_here] at ended
      cases ended
    · rw [mark_apart unset] at ended
      have spent : Spent life.sys count := by
        by_cases returns : life.returns (thread,act) = some count
        · exact calm.returns_spent returns
        · rw [mark_apart returns] at ended
          exact calm.spent count ended
      exact spent.step calm.sound step unset
  · refine unwoken_step step ?_ calm.unwoken
    intro fiber waiter count index point recorded
    have knows := calm.sound.knows thread
    simp only [Knows,point] at knows
    have none_waits := unawaited.2 count (by rw [show life.sys.threads (thread,act).1 = _ from point]; rfl) knows.2.1
    rw [none_waits] at recorded
    cases recorded
  · by_cases here : other = thread
    · subst here
      change Function.update life.woke other _ other = none
      rw [Function.update_self,asleep,calm.woke other]
      simp
    · exact (Function.update_of_ne here ..).trans (calm.woke other)

theorem init_calm (counters : Counter → VgcCounter size) : (init size counters : Life size Thread Counter Work).Calm :=
  ⟨init_sound,nofun,nofun,nofun,fun _ => rfl⟩

end Life

/-- As long as no thread that takes a counter to 0 finds a waiter. -/
theorem run_lasts {counters : Counter → VgcCounter size} {life : Life size Thread Counter Work}
    (run : Run Life.step Life.Unawaited (Life.init size counters) life) : life.Lasts := by
  have calm := run.invariant (Life.init_calm counters) fun _ _ _ calm unawaited stepped => calm.step unawaited stepped
  refine ⟨fun thread count woke => ?_,fun thread count clears => calm.holding thread count (Sys.clears_holds clears)⟩
  rw [calm.woke thread] at woke
  cases woke

/-- Up to where a fiber that schedules a job runs on one thread and its job on another. -/
def jobStarted (main worker : Fin 2) (count : Fin 1) : List (Fin 2 × Act (Fin 1) Unit) :=
  [(main,.enque ⟨(),.hi⟩),(main,.go),(main,.go),(main,.go),(main,.enter),(main,.go),
    (main,.schedule [⟨(),.mid⟩] 1 (some count) false),(main,.go),(main,.go),(main,.go),(worker,.enter),(worker,.go),(worker,.go)]

/-- The job is over before it is waited for, and the counter is set again. -/
def jobOutrun (main worker : Fin 2) (count : Fin 1) : List (Fin 2 × Act (Fin 1) Unit) :=
  [(worker,.finish),(worker,.go),(worker,.go),(worker,.go),(worker,.go),(worker,.go),(worker,.go),(worker,.go),
    (main,.wait count false),(main,.go),(main,.go),(main,.go),(main,.schedule [⟨(),.mid⟩] 1 (some count) false),(main,.go),(main,.go),(main,.go),
    (main,.wait count false),(main,.go)]

theorem run_lasts_outrun : ∃ life : Life 4 (Fin 2) (Fin 1) Unit,
    replay Life.step Life.Unawaited (Life.init 4 fun _ => ⟨true,-1,[]⟩) (jobStarted 0 1 0 ++ jobOutrun 0 1 0) = some life ∧
      life.holder 0 = some 0 ∧ life.Lasts := by
  have held : (replay Life.step Life.Unawaited (Life.init 4 fun _ => ⟨true,-1,[]⟩) (jobStarted 0 1 0 ++ jobOutrun 0 1 0)).map
      (fun life => life.holder 0) = some (some (0 : Fin 2)) := by decide +kernel
  obtain ⟨life,replayed,holder⟩ := Option.map_eq_some_iff.mp held
  exact ⟨life,replayed,holder,run_lasts (Run.start.replay replayed)⟩

/-- The fiber waits for the job and is woken; it sets the counter again and waits for the next job, while the
thread that woke it has not cleared the lock. -/
def counterReused (main worker : Fin 2) (count : Fin 1) : List (Fin 2 × Act (Fin 1) Unit) :=
  [(main,.wait count false),(main,.go),(main,.go),(main,.go),(main,.go),(main,.go),(main,.go),(main,.go),
    (worker,.finish),(worker,.go),(worker,.go),(worker,.go),(worker,.go),(worker,.go),(worker,.go),
    (main,.go),(main,.schedule [⟨(),.mid⟩] 1 (some count) false),(main,.go),(main,.go),(main,.go),(main,.wait count false),(main,.go),(worker,.go)]

theorem run_lasts_fails : ∃ life : Life 4 (Fin 2) (Fin 1) Unit,
    Run Life.step Life.Patient (Life.init 4 fun _ => vgcCounterInit 0) life ∧
      (life.woke 1 = some 0 ∧ (life.sys.threads 1).counter = some 0) ∧
      (life.sys.threads 1).clears = some 0 ∧ life.holder 0 = some 0 := by
  have late : (replay Life.step Life.Patient (Life.init 4 fun _ => vgcCounterInit 0) (jobStarted 0 1 0 ++ counterReused 0 1 0)).map
      (fun life => decide ((life.woke 1 = some 0 ∧ (life.sys.threads 1).counter = some 0) ∧
        (life.sys.threads 1).clears = some 0 ∧ life.holder 0 = some 0)) = some true := by decide +kernel
  obtain ⟨life,replayed,state⟩ := Option.map_eq_some_iff.mp late
  exact ⟨life,Run.start.replay replayed,of_decide_eq_true state⟩

end CSpock.Fibers
