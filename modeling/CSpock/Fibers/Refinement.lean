import CSpock.Fibers.Conservation
import CSpock.Fibers.Enqueue

/-! The scheduler with its rings, and the machine with its queues. What a call does to the rings its thread does to
the queues in steps that no other thread goes between. -/
set_option linter.unusedSectionVars false
namespace CSpock.Fibers
open CSpock.Library.Transition

variable {size : Nat} {Thread Counter Work : Type}

/-- The queues are what is in the rings, and the rest of the memory is the same. -/
structure Represents (sched : VgcScheduler size Counter Work) (sys : Sys size Thread Counter Work) : Prop where
  pool : ∃ first, Queued size sched.freeQPool first sys.freeQPool
  queues : ∀ queue, ∃ first, Queued size (sched.queues queue) first (sys.queues queue)
  fibers : sys.fibers = sched.fibers
  counters : sys.counters = sched.counters

variable [DecidableEq Thread] [DecidableEq Counter] {sched after : VgcScheduler size Counter Work}
  {start sys next : Sys size Thread Counter Work} {thread : Thread} {job : VgcJob Work} {jobs : List (VgcJob Work)}
  {count : Option Counter} {caller : Caller size} {index : Nat} {result : Int}

namespace Represents

theorem init (power : RingSize size) {queue : Nat → Fin size} {pool : Nat → Pooled size}
    {counters : Counter → VgcCounter size} {rounds : Nat → List Bool} (succeed : ∀ index, false ∈ rounds index)
    (started : VgcScheduler.vgcSchedulerInit queue pool counters rounds = some sched) :
    Represents sched (Sys.vgcSchedulerInit size counters : Sys size Thread Counter Work) := by
  obtain ⟨filled,ran,full⟩ := VgcScheduler.fill_queued power succeed (List.finRange size) (Queued.init power pool)
    (by simp)
  unfold VgcScheduler.vgcSchedulerInit at started
  split at started
  next => cases started
  next =>
    rw [ran] at started
    cases started
    exact ⟨⟨0,full⟩,fun _ => ⟨0,Queued.init power queue⟩,rfl,rfl⟩

theorem setPoint (represents : Represents sched sys) (point : Point size Counter Work) :
    Represents sched (sys.setPoint thread point) :=
  ⟨represents.pool,represents.queues,represents.fibers,represents.counters⟩

theorem carry (represents : Represents sched sys) (fiber : Fin size) (count : Option Counter) :
    Represents sched (sys.carry fiber count) := by
  cases count <;> exact ⟨represents.pool,represents.queues,represents.fibers,represents.counters⟩

theorem initCounter (represents : Represents sched sys) (len : Int) (count : Option Counter) :
    Represents (sched.initCounter len count) (sys.initCounter len count) := by
  cases count with
  | none => exact represents
  | some count =>
    refine ⟨represents.pool,represents.queues,represents.fibers,?_⟩
    exact congrArg (Function.update · count (vgcCounterInit len)) represents.counters

theorem assign (represents : Represents sched sys) (fiber : Fin size) (job : VgcJob Work) (count : Option Counter) :
    Represents (sched.assign fiber job count) (sys.assign fiber job count) := by
  refine ⟨represents.pool,represents.queues,?_,represents.counters⟩
  rw [Sys.assign,Sys.setFiber,VgcScheduler.assign,represents.fibers]

theorem setPool (represents : Represents sched sys) {pool : VgcRingbuf (Pooled size)} {first : Nat}
    {entries : List (Pooled size)} (queued : Queued size pool first entries) :
    Represents (sched.setPool pool) { sys with freeQPool := entries } :=
  ⟨⟨first,queued⟩,represents.queues,represents.fibers,represents.counters⟩

theorem setQueue (represents : Represents sched sys) {queue : RunQueue} {rb : VgcRingbuf (Fin size)} {first : Nat}
    {items : List (Fin size)} (queued : Queued size rb first items) :
    Represents (sched.setQueue queue rb) { sys with queues := Function.update sys.queues queue items } := by
  refine ⟨represents.pool,fun other => ?_,represents.fibers,represents.counters⟩
  by_cases here : other = queue
  · subst here
    refine ⟨first,?_⟩
    simpa [VgcScheduler.setQueue] using queued
  · simpa [VgcScheduler.setQueue,Function.update_of_ne here] using represents.queues other

end Represents

theorem step_go : sys.step (thread,.go) = sys.go thread := by
  cases point : sys.threads thread <;> simp only [Sys.step,point]

theorem back_point {point : Point size Counter Work} (goes : caller.point result = some point) :
    sys.back thread result caller = some (sys.setPoint thread point) := by
  cases caller with
  | thread =>
    cases goes
    rfl
  | fiber own fatal =>
    simp only [Caller.point] at goes
    simp only [Sys.back]
    split at goes
    next => cases goes
    next returns =>
      cases goes
      rw [if_neg returns]

theorem err_alone (power : RingSize size) (represents : Represents sched sys) {rounds : List Bool}
    (succeeds : false ∈ rounds) (run : Alone Sys.step thread start sys)
    (point : sys.threads thread = .undoing caller index count) (ran : sched.err rounds = some (result,after)) :
    result = -1 ∧ ∀ goal, caller.point index = some goal →
      ∃ next, Alone Sys.step thread start next ∧ Represents after next ∧ next.threads thread = goal := by
  obtain ⟨first,pool⟩ := represents.pool
  rcases pool.vgcPush power .stray succeeds with ⟨room,pushed⟩ | ⟨full,pushed⟩
  · rw [VgcScheduler.err,pushed] at ran
    cases ran
    refine ⟨rfl,fun goal goes => ?_⟩
    have stepped : sys.step (thread,.go) =
        some ({ sys with freeQPool := sys.freeQPool ++ [Pooled.stray] }.setPoint thread goal) := by
      simp only [step_go,Sys.go,point,Sys.vgcPush,if_pos room]
      exact back_point goes
    exact ⟨_,run.extend stepped,(represents.setPool (pool.put power room .stray)).setPoint goal,
      Sys.setPoint_same _⟩
  · rw [VgcScheduler.err,pushed] at ran
    cases ran

theorem place_alone (power : RingSize size) (represents : Represents sched sys) {exchanges : Exchanges}
    (succeed : exchanges.Succeed) (run : Alone Sys.step thread start sys) {fiber : Fin size}
    (point : sys.threads thread = .assigning caller index fiber job jobs count)
    (ran : (sched.assign fiber job count).place fiber job.priority exchanges = some (result,after)) :
    (result = 0 ∧ ∃ next, Alone Sys.step thread start next ∧ Represents after next ∧
      next.threads thread = .scheduling caller (index+1) jobs count) ∨
    (result = -1 ∧ ∀ goal, caller.point index = some goal →
      ∃ next, Alone Sys.step thread start next ∧ Represents after next ∧ next.threads thread = goal) := by
  have assigned := represents.assign fiber job count
  have rejected
      (none_takes : (job.priority.queue.bind fun queue => (sys.assign fiber job count).vgcEnqueue queue fiber) = none)
      (ran : (sched.assign fiber job count).err exchanges.undo = some (result,after)) :
      result = -1 ∧ ∀ goal, caller.point index = some goal →
        ∃ next, Alone Sys.step thread start next ∧ Represents after next ∧ next.threads thread = goal := by
    have stepped : sys.step (thread,.go) =
        some ((sys.assign fiber job count).setPoint thread (.undoing caller index count)) := by
      rw [Sys.assign] at none_takes
      simp only [step_go,Sys.go,point,none_takes]
      rfl
    exact err_alone power (assigned.setPoint _) succeed.undo (run.extend stepped) (Sys.setPoint_same _) ran
  cases valid : job.priority.queue with
  | none =>
    simp only [VgcScheduler.place,valid] at ran
    exact .inr (rejected (by rw [valid]; rfl) ran)
  | some queue =>
    simp only [VgcScheduler.place,valid] at ran
    obtain ⟨first,queued⟩ := assigned.queues queue
    rcases VgcScheduler.vgcEnqueue_cases _ power queued fiber succeed.enqueue with
      ⟨room,rb,joined,sent⟩ | ⟨full,sent⟩
    · rw [sent] at ran
      cases ran
      have stepped : sys.step (thread,.go) =
          some (({ sys.assign fiber job count with
            queues := Function.update sys.queues queue (sys.queues queue ++ [fiber]) }.carry fiber count).setPoint thread
              (.scheduling caller (index+1) jobs count)) := by
        have taken : (sys.assign fiber job count).vgcEnqueue queue fiber = _ := enqueue_room room
        rw [Sys.assign] at taken
        simp only [step_go,Sys.go,point,valid,Option.bind_some,taken]
        rfl
      exact .inl ⟨rfl,_,run.extend stepped,((assigned.setQueue joined).carry fiber count).setPoint _,
        Sys.setPoint_same _⟩
    · rw [sent] at ran
      refine .inr (rejected ?_ ran)
      rw [valid]
      exact enqueue_full (Nat.not_lt.mpr (Nat.le_of_eq full.symm))

theorem vgcEnqueJob_alone (power : RingSize size) (represents : Represents sched sys) {exchanges : Exchanges}
    (succeed : exchanges.Succeed) (run : Alone Sys.step thread start sys)
    (point : sys.threads thread = .scheduling caller index (job::jobs) count)
    (ran : sched.vgcEnqueJob job count exchanges = some (result,after)) :
    (result = 0 ∧ ∃ next, Alone Sys.step thread start next ∧ Represents after next ∧
      next.threads thread = .scheduling caller (index+1) jobs count) ∨
    (result = -1 ∧ ∀ goal, caller.point index = some goal →
      ∃ next, Alone Sys.step thread start next ∧ Represents after next ∧ next.threads thread = goal) := by
  obtain ⟨first,pool⟩ := represents.pool
  rcases pool.vgcPop power succeed.pop with ⟨entry,rest,head,popped⟩ | ⟨empty,popped⟩
  · rw [head] at pool
    rw [VgcScheduler.vgcEnqueJob,popped] at ran
    cases entry with
    | stray => cases ran
    | fiber fiber =>
      have taken : sys.step (thread,.go) =
          some ({ sys with freeQPool := rest }.setPoint thread (.assigning caller index fiber job jobs count)) := by
        simp only [step_go,Sys.go,point,head]
      have left := represents.setPool (pool.release power)
      exact place_alone power (left.setPoint _) succeed (run.extend taken) (Sys.setPoint_same _) ran
  · rw [VgcScheduler.vgcEnqueJob,popped] at ran
    cases ran
    refine .inr ⟨rfl,fun goal goes => ?_⟩
    have stepped : sys.step (thread,.go) = some (sys.setPoint thread goal) := by
      simp only [step_go,Sys.go,point,empty]
      exact back_point goes
    exact ⟨_,run.extend stepped,represents.setPoint goal,Sys.setPoint_same _⟩

theorem scheduleFrom_alone (power : RingSize size) (represents : Represents sched sys) {exchanges : Nat → Exchanges}
    (succeed : ∀ index, (exchanges index).Succeed) (run : Alone Sys.step thread start sys) {left : Nat}
    (point : sys.threads thread = .scheduling caller index (jobs.take left) count)
    (ran : VgcScheduler.scheduleFrom count exchanges left index jobs sched = some (result,after))
    {goal : Point size Counter Work} (goes : caller.point result = some goal) :
    ∃ next, Alone Sys.step thread start next ∧ Represents after next ∧ next.threads thread = goal := by
  induction left generalizing index jobs sched sys with
  | zero =>
    cases ran
    have stepped : sys.step (thread,.go) = some (sys.setPoint thread goal) := by
      simp only [step_go,Sys.go,point,List.take_zero]
      exact back_point goes
    exact ⟨_,run.extend stepped,represents.setPoint goal,Sys.setPoint_same _⟩
  | succ left ih =>
    cases jobs with
    | nil => cases ran
    | cons job jobs =>
      rw [List.take_succ_cons] at point
      obtain ⟨⟨status,between⟩,first,rest⟩ := Option.bind_eq_some_iff.mp ran
      rcases vgcEnqueJob_alone power represents (succeed index) run point first with
        ⟨rfl,next,run,represents,point⟩ | ⟨rfl,ended⟩
      · exact ih represents run point rest
      · cases rest
        exact ended goal goes

theorem vgcScheduleJobs_alone (power : RingSize size) (represents : Represents sched sys)
    {exchanges : Nat → Exchanges} (succeed : ∀ index, (exchanges index).Succeed) {fiber : Fin size} {fatal : Bool}
    {len : Int} (point : sys.threads thread = .running fiber)
    (ran : sched.vgcScheduleJobs jobs len count exchanges = some (result,after)) (returns : fatal = true → result = 0) :
    ∃ next, Alone Sys.step thread sys next ∧ Represents after next ∧ next.threads thread = .running fiber ∧
      ∀ other, other ≠ thread → next.threads other = sys.threads other := by
  have called : sys.step (thread,.schedule jobs len count fatal) = some ((sys.initCounter len count).setPoint thread
      (.scheduling (.fiber fiber fatal) 0 (jobs.take len.toNat) count)) := by
    simp only [Sys.step,point]
  have goes : (Caller.fiber fiber fatal).point result = some (.running fiber : Point size Counter Work) :=
    if_neg fun failed => failed.2 (returns failed.1)
  obtain ⟨next,run,represents,home⟩ := scheduleFrom_alone power ((represents.initCounter len count).setPoint _) succeed
    (Alone.extend .start called) (Sys.setPoint_same _) ran goes
  exact ⟨next,run,represents,home,fun other =>
    Alone.others (fun _ _ _ _ _ stepped => (step_cases stepped).others) run⟩

end CSpock.Fibers
