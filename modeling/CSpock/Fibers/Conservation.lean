import CSpock.Fibers.Counter

/-! Where the fibers are between the operations of the threads. -/
set_option linter.unusedSectionVars false
namespace CSpock.Fibers
open CSpock.Library.Transition

variable {size : Nat} {Thread Counter Work : Type} [DecidableEq Thread] [DecidableEq Counter]

def Point.rests : Point size Counter Work → Bool
  | .outside => true
  | .polling _ => true
  | .running _ => true
  | _ => false

theorem Point.rests_wakes {point : Point size Counter Work} (rests : point.rests = true) : point.wakes = none := by
  cases point <;> first | rfl | cases rests

def Point.adds : Point size Counter Work → Option Counter
  | .adding _ count => some count
  | _ => none

def Point.enqueues : Point size Counter Work → Bool
  | .assigning _ _ _ _ _ _ => true
  | .waking _ _ _ => true
  | _ => false

def Act.jobs : Act Counter Work → List (VgcJob Work)
  | .enque job => [job]
  | .schedule jobs _ _ _ => jobs
  | _ => []

def Act.finishes : Act Counter Work → Bool
  | .finish => true
  | _ => false

inductive Station (Thread Counter : Type) where
  | free
  | queued (queue : RunQueue)
  | running (thread : Thread)
  | waits (count : Counter)

def Station.place : Station Thread Counter → Place Thread Counter
  | .free => .pool
  | .queued queue => .queue queue
  | .running thread => .host thread
  | .waits count => .waiting count

namespace Sys

def Resting (sys : Sys size Thread Counter Work) : Prop := ∀ thread, (sys.threads thread).rests = true

def At (sys : Sys size Thread Counter Work) (fiber : Fin size) : Station Thread Counter → Prop
  | .free => Pooled.fiber fiber ∈ sys.freeQPool
  | .queued queue => fiber ∈ sys.queues queue
  | .running thread => sys.threads thread = .running fiber
  | .waits count => (sys.batches count).isSome ∧ (sys.counters count).counter ≠ 0 ∧
      fiber ∈ (sys.counters count).waiters

/-- The job of the fiber has finished, and the loop is about to process that. -/
def Ended (sys : Sys size Thread Counter Work) (thread : Thread) (fiber : Fin size) : Prop :=
  (sys.fibers fiber).state = .done ∧
    match sys.threads thread with
    | .switched own => own = fiber
    | .completing own _ => own = fiber
    | .loading own _ => own = fiber
    | .storing own _ _ => own = fiber
    | .judging own _ => own = fiber
    | .waking own _ _ => own = fiber
    | .unlocking own _ => own = fiber
    | .retiring own => own = fiber
    | _ => False

/-- No fiber is lost or in two places, and those whose jobs have finished go back to the pool. -/
structure Conserved (sys : Sys size Thread Counter Work) : Prop where
  placed : sys.Resting → ∀ fiber, ∃! station, sys.At fiber station
  distinct : (sys.freeQPool.filterMap Pooled.held).Nodup ∧ (∀ queue, (sys.queues queue).Nodup) ∧
    ∀ count, (sys.batches count).isSome → (sys.counters count).waiters.Nodup
  returned : ∀ thread fiber act next, sys.Ended thread fiber → sys.step (thread,act) = some next →
    next.Ended thread fiber ∨ Pooled.fiber fiber ∈ next.freeQPool

/-- The priorities of jobs are valid, and at most `WAIT_FIBER_LEN` fibers wait for a counter. -/
def Admits (sys : Sys size Thread Counter Work) (label : Thread × Act Counter Work) : Prop :=
  sys.Permits label ∧ (∀ job ∈ label.2.jobs, job.priority.queue.isSome = true) ∧
    ∀ count ∈ (sys.threads label.1).adds, (sys.counters count).waiters.length ≠ waitFiberLen

/-- The jobs that finish were scheduled with a counter, and no push on a run queue comes to a cell whose pop, of the
round before, has claimed it and is not done. -/
def Counted (sys : Sys size Thread Counter Work) (label : Thread × Act Counter Work) : Prop :=
  sys.Admits label ∧ (label.2.finishes = true →
    ∀ fiber ∈ (sys.threads label.1).host, (sys.fibers fiber).parentCount.isSome = true) ∧
      (label.2.fails = true → (sys.threads label.1).enqueues = false)

instance [Fintype Thread] (sys : Sys size Thread Counter Work) (label : Thread × Act Counter Work) :
    Decidable (sys.Admits label) := inferInstanceAs (Decidable (_ ∧ _ ∧ _))

instance [Fintype Thread] (sys : Sys size Thread Counter Work) (label : Thread × Act Counter Work) :
    Decidable (sys.Counted label) := inferInstanceAs (Decidable (_ ∧ (_ → _) ∧ (_ → _)))

/-- What a thread needs so that the fiber in its hand has somewhere to go. -/
def Guides (sys : Sys size Thread Counter Work) (thread : Thread) : Prop :=
  match sys.threads thread with
  | .scheduling _ _ jobs _ => ∀ job ∈ jobs, job.priority.queue.isSome
  | .assigning _ _ _ job jobs _ => job.priority.queue.isSome ∧ ∀ job ∈ jobs, job.priority.queue.isSome
  | .switched fiber => (sys.fibers fiber).state = .wait ∨
      (sys.fibers fiber).state = .done ∧ (sys.fibers fiber).parentCount.isSome = true
  | _ => True

end Sys

open Sys

variable {sys next : Sys size Thread Counter Work} {thread : Thread} {act : Act Counter Work}

theorem wake_frame (waiter : Fin size) (count : Counter) : (sys.wake waiter count).threads = sys.threads ∧
    (sys.wake waiter count).fibers = sys.fibers ∧ (sys.wake waiter count).counters = sys.counters := by
  unfold Sys.wake
  cases woken : (sys.fibers waiter).priority.queue.bind fun queue => sys.vgcEnqueue queue waiter with
  | none => exact ⟨rfl,rfl,rfl⟩
  | some after =>
    obtain ⟨queue,_,enqueued⟩ := Option.bind_eq_some_iff.mp woken
    unfold Sys.vgcEnqueue at enqueued
    split at enqueued <;> cases enqueued
    exact ⟨rfl,rfl,rfl⟩

theorem Step.others (step : Step sys thread act next) {other : Thread} (different : other ≠ thread) :
    next.threads other = sys.threads other := by
  have point : ∀ (sys : Sys size Thread Counter Work) point,
      (sys.setPoint thread point).threads other = sys.threads other := fun _ point => setPoint_other point different
  cases step with
  | @schedule fiber jobs len count => cases count <;> exact point _ _
  | @dispatch caller index fiber job jobs count queue =>
    refine (point _ _).trans ?_
    rw [(Sys.carry_frame fiber count).1]
    rfl
  | @wake fiber waiter count index =>
    exact (point _ _).trans (congrFun (wake_frame waiter count).1 other)
  | _ => exact point _ _

theorem Step.fibers (step : Step sys thread act next) : next.fibers = sys.fibers ∨
    ∃ fiber, (∀ other, other ≠ fiber → next.fibers other = sys.fibers other) ∧
      (fiber ∈ sys.contents (.host thread) ∨ fiber ∈ sys.contents (.hand thread) ∨
        ∃ queue, fiber ∈ sys.contents (.queue queue : Place Thread Counter)) := by
  have elsewhere : ∀ (sys : Sys size Thread Counter Work) (fiber : Fin size) fd other, other ≠ fiber →
      (sys.setFiber fiber fd).fibers other = sys.fibers other :=
    fun _ _ _ _ different => Function.update_of_ne different ..
  cases step with
  | @schedule fiber jobs len count => cases count <;> exact .inl rfl
  | @finish fiber point => exact .inr ⟨fiber,elsewhere _ _ _,.inl (by simp [contents,point])⟩
  | @suspend fiber count point => exact .inr ⟨fiber,elsewhere _ _ _,.inl (by simp [contents,point])⟩
  | @resume queue fiber rest point head =>
    exact .inr ⟨fiber,elsewhere _ _ _,.inr (.inr ⟨queue,by simp [contents,head]⟩)⟩
  | @reject caller index fiber job jobs count point =>
    exact .inr ⟨fiber,elsewhere _ _ _,.inr (.inl (by simp [contents,point]))⟩
  | @refuse caller index fiber job jobs count point =>
    exact .inr ⟨fiber,elsewhere _ _ _,.inr (.inl (by simp [contents,point]))⟩
  | @dispatch caller index fiber job jobs count queue point =>
    refine .inr ⟨fiber,fun other different => ?_,.inr (.inl (by simp [contents,point]))⟩
    exact (congrFun (Sys.carry_frame fiber count).2.2.2.2 other).trans (elsewhere _ _ _ _ different)
  | @wake fiber waiter count index => exact .inl (wake_frame waiter count).2.1
  | _ => exact .inl rfl

namespace Sys

theorem Sound.hand_apart (sound : sys.Sound) (step : Step sys thread act next) {other : Thread}
    (different : other ≠ thread) {fiber : Fin size} (held : (sys.threads other).hand = some fiber) :
    next.fibers fiber = sys.fibers fiber := by
  rcases step.fibers with same | ⟨changed,keep,mine⟩
  · rw [same]
  · refine keep fiber ?_
    rintro rfl
    rcases mine with there | there | ⟨queue,there⟩
    · cases sound.hand_alone held there
    · exact different (Place.hand.inj (sound.hand_alone held there)).symm
    · cases sound.hand_alone held there

theorem Guides.apart (guides : sys.Guides thread) (point : next.threads thread = sys.threads thread)
    (held : ∀ fiber, (sys.threads thread).hand = some fiber → next.fibers fiber = sys.fibers fiber) :
    next.Guides thread := by
  unfold Guides at guides ⊢
  rw [point]
  cases at_ : sys.threads thread with
  | switched fiber =>
    rw [at_] at guides
    simp only [held fiber (by rw [at_]; rfl)]
    exact guides
  | _ =>
    rw [at_] at guides
    exact guides

theorem Guides.back {caller : Caller size} {result : Int} {point : Point size Counter Work}
    (back : caller.point result = some point) : (sys.setPoint thread point).Guides thread := by
  rcases Caller.point_cases back with ⟨_,rfl⟩ | ⟨fiber,_,rfl⟩ <;> simp [Guides]

theorem Guides.step (guides : sys.Guides thread) (step : Step sys thread act next)
    (counted : sys.Counted (thread,act)) : next.Guides thread := by
  unfold Guides at guides
  obtain ⟨⟨_,valid,_⟩,parent,_⟩ := counted
  cases step with
  | enque point =>
    simp only [Guides,setPoint_same]
    exact valid
  | schedule point =>
    simp only [Guides,setPoint_same]
    exact fun job inside => valid job (List.mem_of_mem_take inside)
  | @finish fiber point =>
    have parent := parent rfl fiber (by rw [point]; rfl)
    have own : (sys.finish fiber).fibers fiber = { sys.fibers fiber with state := .done } := Function.update_self ..
    simp only [Guides,setPoint_same]
    right
    change ((sys.finish fiber).fibers fiber).state = .done ∧ ((sys.finish fiber).fibers fiber).parentCount.isSome = true
    rw [own]
    exact ⟨rfl,parent⟩
  | scheduled point back => exact Guides.back back
  | starved point empty back => exact Guides.back back
  | denied point back => exact Guides.back back
  | pop point head =>
    rw [point] at guides
    simp only [Guides,setPoint_same]
    exact ⟨guides _ (List.mem_cons_self ..),fun job inside => guides job (List.mem_cons_of_mem _ inside)⟩
  | dispatch point valid room =>
    rw [point] at guides
    simp only [Guides,setPoint_same]
    exact guides.2
  | undo point room back => exact Guides.back back
  | @suspend fiber count point =>
    have own : ((sys.suspend fiber count).fibers fiber).state = .wait := by simp [suspend,setFiber]
    simp only [Guides,setPoint_same]
    exact .inl own
  | _ => simp only [Guides,setPoint_same]

/-- With somewhere to go for every fiber in a hand, none is lost. -/
theorem Sound.holds_on (sound : sys.Sound) (guides : sys.Guides thread)
    (room : ∀ count ∈ (sys.threads thread).adds, (sys.counters count).waiters.length ≠ waitFiberLen)
    (fails : act.fails = true → (sys.threads thread).enqueues = false) : ¬ sys.Loses thread act := by
  unfold Guides at guides
  unfold Loses
  cases point : sys.threads thread with
  | assigning caller index fiber job jobs count =>
    rw [point] at guides fails
    rintro (failed | full)
    · cases fails failed
    obtain ⟨queue,valid⟩ := Option.isSome_iff_exists.mp guides.1
    have mine : fiber ∈ sys.contents (.hand thread) := by simp [contents,point]
    exact absurd (full queue valid) (Nat.not_le.mpr (sound.queue_room mine (by simp)))
  | switched fiber =>
    rw [point] at guides
    rintro ⟨notWait,parent⟩
    rcases guides with wait | ⟨done,some_parent⟩
    · exact notWait wait
    · rw [parent done] at some_parent
      cases some_parent
  | adding fiber count => exact room count (by rw [point]; rfl)
  | waking fiber count index =>
    rw [point] at fails
    exact fun failed => absurd (fails failed) Bool.true_eq_false.mp
  | _ => exact id

structure Safe (sys : Sys size Thread Counter Work) : Prop where
  sound : sys.Sound
  kept : Kept sys.contents
  guided : ∀ thread, sys.Guides thread

theorem init_safe (counters : Counter → VgcCounter size) :
    (vgcSchedulerInit size counters : Sys size Thread Counter Work).Safe where
  sound := init_sound
  kept fiber := ⟨.pool,List.mem_filterMap.mpr ⟨.fiber fiber,List.mem_map_of_mem (List.mem_finRange fiber),rfl⟩⟩
  guided _ := trivial

theorem Safe.step (safe : sys.Safe) (counted : sys.Counted (thread,act)) (step : Step sys thread act next) :
    next.Safe := by
  have outcome := safe.sound.step counted.1.1 step
  refine ⟨outcome.sound,?_,fun other => ?_⟩
  · rcases outcome.placed with same | ⟨fiber,source,target,transfer,lost⟩
    · exact same ▸ safe.kept
    · cases target with
      | none => exact absurd (lost rfl) (safe.sound.holds_on (safe.guided thread) counted.1.2.2 counted.2.2)
      | some place => exact safe.kept.transfer transfer
  · by_cases here : other = thread
    · subst here
      exact (safe.guided other).step step counted
    · exact (safe.guided other).apart (step.others here) fun fiber held => safe.sound.hand_apart step here held

theorem Sound.pending_eq_waiters (sound : sys.Sound) {count : Counter} (set : (sys.batches count).isSome)
    (live : (sys.counters count).counter ≠ 0) : sys.pending count = (sys.counters count).waiters := by
  obtain ⟨batch,set⟩ := Option.isSome_iff_exists.mp set
  simp only [pending,set,(sound.settled count batch set).asleep live,List.length_nil,List.drop_zero]

theorem Sound.at_place (sound : sys.Sound) {fiber : Fin size} {station : Station Thread Counter}
    (at_ : sys.At fiber station) : fiber ∈ sys.contents station.place := by
  cases station with
  | free => exact List.mem_filterMap.mpr ⟨_,at_,rfl⟩
  | queued queue => exact at_
  | running thread =>
    change sys.threads thread = .running fiber at at_
    simp [contents,Station.place,at_]
  | waits count =>
    obtain ⟨set,live,recorded⟩ := at_
    change fiber ∈ sys.pending count
    rwa [sound.pending_eq_waiters set live]

theorem Sound.place_at (sound : sys.Sound) (resting : sys.Resting) {fiber : Fin size} {place : Place Thread Counter}
    (found : fiber ∈ sys.contents place) : ∃ station, station.place = place ∧ sys.At fiber station := by
  cases place with
  | pool =>
    refine ⟨.free,rfl,?_⟩
    obtain ⟨pooled,inside,held⟩ := List.mem_filterMap.mp found
    cases pooled with
    | fiber own =>
      cases held
      exact inside
    | stray => cases held
  | queue queue => exact ⟨.queued queue,rfl,found⟩
  | host thread =>
    refine ⟨.running thread,rfl,?_⟩
    have rests := resting thread
    change fiber ∈ ((sys.threads thread).host).toList at found
    change sys.threads thread = .running fiber
    cases point : sys.threads thread with
    | running own =>
      rw [point] at found
      rw [List.mem_singleton.mp found]
    | outside => rw [point] at found; cases found
    | polling => rw [point] at found; cases found
    | _ => rw [point] at rests; cases rests
  | hand thread =>
    have rests := resting thread
    change fiber ∈ ((sys.threads thread).hand).toList at found
    cases point : sys.threads thread with
    | running own => rw [point] at found; cases found
    | outside => rw [point] at found; cases found
    | polling => rw [point] at found; cases found
    | _ => rw [point] at rests; cases rests
  | waiting count =>
    refine ⟨.waits count,rfl,?_⟩
    change fiber ∈ sys.pending count at found
    cases set : sys.batches count with
    | none =>
      simp only [pending,set] at found
      cases found
    | some batch =>
      have live : (sys.counters count).counter ≠ 0 := by
        intro zero
        rcases (sound.settled count batch set).awake zero with woken | ⟨thread,wakes⟩
        · simp only [pending,set,woken,List.drop_length] at found
          cases found
        · rw [Point.rests_wakes (resting thread)] at wakes
          cases wakes
      have some_batch : (sys.batches count).isSome := by rw [set]; rfl
      exact ⟨some_batch,live,sound.pending_eq_waiters some_batch live ▸ found⟩

theorem Safe.conserved (safe : sys.Safe) : sys.Conserved := by
  refine ⟨fun resting fiber => ?_,⟨safe.sound.tidy.nodup .pool,fun queue => safe.sound.tidy.nodup (.queue queue),?_⟩,?_⟩
  · obtain ⟨place,found⟩ := safe.kept fiber
    obtain ⟨station,rfl,at_⟩ := safe.sound.place_at resting found
    refine ⟨station,at_,fun other there => ?_⟩
    have same := safe.sound.tidy.once fiber _ _ (safe.sound.at_place there) found
    cases other <;> cases station <;> cases same <;> rfl
  · intro count set
    obtain ⟨batch,set⟩ := Option.isSome_iff_exists.mp set
    exact (safe.sound.settled count batch set).distinct
  · intro thread fiber act next ended stepped
    obtain ⟨state,here⟩ := ended
    have guides := safe.guided thread
    unfold Guides at guides
    have step := step_cases stepped
    cases step with
    | waits point wait =>
      rw [point] at here
      subst here
      rw [wait] at state
      cases state
    | drop point wait parent =>
      rw [point] at here guides
      subst here
      rcases guides with waiting | ⟨_,some_parent⟩
      · exact absurd waiting wait
      · rw [parent state] at some_parent
        cases some_parent
    | @retire own point =>
      rw [point] at here
      subst here
      exact .inr (List.mem_append_right _ (List.mem_singleton_self _))
    | @wake own waiter count index point =>
      rw [point] at here
      subst here
      refine .inl ⟨?_,by simp only [setPoint_same]⟩
      exact (congrArg FiberData.state (congrFun (wake_frame waiter count).2.1 own)).trans state
    | skip point =>
      rw [point] at here
      exact .inl ⟨state,by simpa only [setPoint_same] using here⟩
    | done point => rw [point] at here; exact .inl ⟨state,by simpa only [setPoint_same] using here⟩
    | complete point => rw [point] at here; exact .inl ⟨state,by simpa only [setPoint_same] using here⟩
    | load point => rw [point] at here; exact .inl ⟨state,by simpa only [setPoint_same] using here⟩
    | store point => rw [point] at here; exact .inl ⟨state,by simpa only [setPoint_same] using here⟩
    | last point => rw [point] at here; exact .inl ⟨state,by simpa only [setPoint_same] using here⟩
    | more point => rw [point] at here; exact .inl ⟨state,by simpa only [setPoint_same] using here⟩
    | woken point => rw [point] at here; exact .inl ⟨state,by simpa only [setPoint_same] using here⟩
    | unlock point => rw [point] at here; exact .inl ⟨state,by simpa only [setPoint_same] using here⟩
    | _ => simp_all only

end Sys

/-- As long as the jobs that finish were scheduled with a counter, and no push on a run queue fails. -/
theorem run_conserved {counters : Counter → VgcCounter size} {sys : Sys size Thread Counter Work}
    (run : Run Sys.step Sys.Counted (Sys.vgcSchedulerInit size counters) sys) : sys.Conserved := by
  have safe := run.invariant (Sys.init_safe counters) fun _ _ _ safe counted stepped =>
    safe.step counted (step_cases stepped)
  exact safe.conserved

theorem run_conserved_awaited : ∃ sys : Sys 2 (Fin 2) (Fin 1) Unit,
    replay Sys.step Sys.Counted (Sys.vgcSchedulerInit 2 fun _ => ⟨true,-1,[]⟩) (jobAwaited ++ [(1,.go)]) = some sys ∧
      sys.freeQPool = [.fiber 1] ∧ sys.Conserved := by
  have returned : (replay Sys.step Sys.Counted (Sys.vgcSchedulerInit 2 fun _ => ⟨true,-1,[]⟩)
      (jobAwaited ++ [(1,.go)])).map Sys.freeQPool = some [.fiber 1] := by decide +kernel
  obtain ⟨sys,replayed,pool⟩ := Option.map_eq_some_iff.mp returned
  exact ⟨sys,replayed,pool,run_conserved (Run.start.replay replayed)⟩

/-- What `main` does: a job without a counter. When it finishes its fiber is lost. -/
def uncounted (main : Fin 1) : List (Fin 1 × Act (Fin 1) Unit) :=
  [(main,.enque ⟨(),.hi⟩),(main,.go),(main,.go),(main,.go),(main,.enter),(main,.go),(main,.finish),(main,.go)]

theorem run_conserved_fails : ∃ sys : Sys 2 (Fin 1) (Fin 1) Unit,
    Run Sys.step Sys.Admits (Sys.vgcSchedulerInit 2 fun _ => vgcCounterInit 0) sys ∧ sys.Resting ∧
      ∀ station, ¬ sys.At 0 station := by
  have lost : (replay Sys.step Sys.Admits (Sys.vgcSchedulerInit 2 fun _ => vgcCounterInit 0) (uncounted 0)).map
      (fun sys => decide (sys.freeQPool = [.fiber 1] ∧ (∀ queue ∈ [RunQueue.hiQ,.midQ,.loQ], sys.queues queue = []) ∧
        (sys.threads 0).rests = true ∧ (sys.threads 0).host = none ∧ (sys.counters 0).waiters = [])) =
          some true := by decide +kernel
  obtain ⟨sys,replayed,state⟩ := Option.map_eq_some_iff.mp lost
  obtain ⟨pool,queues,rests,host,waiters⟩ := of_decide_eq_true state
  refine ⟨sys,Run.start.replay replayed,fun thread => ?_,fun station at_ => ?_⟩
  · rw [Subsingleton.elim thread 0]
    exact rests
  · cases station with
    | free =>
      change _ ∈ sys.freeQPool at at_
      rw [pool] at at_
      simp at at_
    | queued queue =>
      change _ ∈ sys.queues queue at at_
      rw [queues queue (by cases queue <;> simp)] at at_
      cases at_
    | running thread =>
      change sys.threads thread = _ at at_
      rw [Subsingleton.elim 0 thread,at_] at host
      cases host
    | waits count =>
      have recorded := at_.2.2
      rw [Subsingleton.elim count 0,waiters] at recorded
      cases recorded

end CSpock.Fibers
