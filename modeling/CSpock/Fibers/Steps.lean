import CSpock.Fibers.Scheduler

/-! What one step of a thread can do. Everything that is proved of all steps goes through
the cases of `Step`. -/
namespace CSpock.Fibers

variable {size : Nat} {Thread Counter Work : Type} [DecidableEq Thread] [DecidableEq Counter]

namespace Sys

def assign (sys : Sys size Thread Counter Work) (fiber : Fin size) (job : VgcJob Work) (count : Option Counter) :
    Sys size Thread Counter Work :=
  sys.setFiber fiber
    { sys.fibers fiber with work := some job.work, priority := job.priority, parentCount := count }

/-- The state behind the jump into a fiber from the head of a queue. -/
def resume (sys : Sys size Thread Counter Work) (queue : RunQueue) (rest : List (Fin size)) (fiber : Fin size) :
    Sys size Thread Counter Work :=
  { sys with queues := Function.update sys.queues queue rest }.setFiber fiber
    { sys.fibers fiber with state := .run }

def suspend (sys : Sys size Thread Counter Work) (fiber : Fin size) (count : Counter) : Sys size Thread Counter Work :=
  sys.setFiber fiber { sys.fibers fiber with state := .wait, dependencyCount := some count }

def finish (sys : Sys size Thread Counter Work) (fiber : Fin size) : Sys size Thread Counter Work :=
  sys.setFiber fiber { sys.fibers fiber with state := .done }

def record (sys : Sys size Thread Counter Work) (fiber : Fin size) (count : Counter) (len : Nat) :
    Sys size Thread Counter Work :=
  sys.setCounter count { sys.counters count with waiters := (sys.counters count).waiters.take len ++ [fiber] }

def store (sys : Sys size Thread Counter Work) (fiber : Fin size) (count : Counter) (value : Int) :
    Sys size Thread Counter Work :=
  { sys with carries := Function.update sys.carries fiber none }.setCounter count
    { sys.counters count with counter := value }

end Sys

open Sys

/-- Where a call returns to, unless the process exits. -/
def Caller.point (result : Int) : Caller size → Option (Point size Counter Work)
  | .thread => some .outside
  | .fiber own fatal => if fatal = true ∧ result ≠ 0 then none else some (.running own)

inductive Step (sys : Sys size Thread Counter Work) (thread : Thread) :
    Act Counter Work → Sys size Thread Counter Work → Prop where
  | enque {job : VgcJob Work} (point : sys.threads thread = .outside) :
      Step sys thread (.enque job) (sys.setPoint thread (.scheduling .thread 0 [job] none))
  | enter (point : sys.threads thread = .outside) : Step sys thread .enter (sys.setPoint thread (.polling .hiQ))
  | schedule {fiber : Fin size} {jobs : List (VgcJob Work)} {len : Int} {count : Option Counter} {fatal : Bool}
      (point : sys.threads thread = .running fiber) : Step sys thread (.schedule jobs len count fatal)
        ((sys.initCounter len count).setPoint thread (.scheduling (.fiber fiber fatal) 0 (jobs.take len.toNat) count))
  | wait {fiber : Fin size} {count : Counter} {checked : Bool} (point : sys.threads thread = .running fiber) :
      Step sys thread (.wait count checked) (sys.setPoint thread (.acquiring fiber count checked))
  | finish {fiber : Fin size} (point : sys.threads thread = .running fiber) :
      Step sys thread .finish ((sys.finish fiber).setPoint thread (.switched fiber))
  | pass {queue : RunQueue} (point : sys.threads thread = .polling queue) (empty : sys.queues queue = []) :
      Step sys thread .go (sys.setPoint thread (.polling queue.next))
  | resume {queue : RunQueue} {fiber : Fin size} {rest : List (Fin size)}
      (point : sys.threads thread = .polling queue) (head : sys.queues queue = fiber::rest) :
      Step sys thread .go ((sys.resume queue rest fiber).setPoint thread (.running fiber))
  | scheduled {caller : Caller size} {index : Nat} {count : Option Counter} {next : Point size Counter Work}
      (point : sys.threads thread = .scheduling caller index [] count) (back : caller.point 0 = some next) :
      Step sys thread .go (sys.setPoint thread next)
  | starved {caller : Caller size} {index : Nat} {job : VgcJob Work} {jobs : List (VgcJob Work)}
      {count : Option Counter} {next : Point size Counter Work}
      (point : sys.threads thread = .scheduling caller index (job::jobs) count) (empty : sys.freeQPool = [])
      (back : caller.point index = some next) : Step sys thread .go (sys.setPoint thread next)
  | pop {caller : Caller size} {index : Nat} {job : VgcJob Work} {jobs : List (VgcJob Work)}
      {count : Option Counter} {fiber : Fin size} {pool : List (Pooled size)}
      (point : sys.threads thread = .scheduling caller index (job::jobs) count)
      (head : sys.freeQPool = .fiber fiber::pool) :
      Step sys thread .go
        ({ sys with freeQPool := pool }.setPoint thread (.assigning caller index fiber job jobs count))
  | reject {caller : Caller size} {index : Nat} {fiber : Fin size} {job : VgcJob Work} {jobs : List (VgcJob Work)}
      {count : Option Counter} (point : sys.threads thread = .assigning caller index fiber job jobs count)
      (rejected : ∀ queue, job.priority.queue = some queue → size ≤ (sys.queues queue).length) :
      Step sys thread .go ((sys.assign fiber job count).setPoint thread (.undoing caller index count))
  | dispatch {caller : Caller size} {index : Nat} {fiber : Fin size} {job : VgcJob Work}
      {jobs : List (VgcJob Work)} {count : Option Counter} {queue : RunQueue}
      (point : sys.threads thread = .assigning caller index fiber job jobs count)
      (valid : job.priority.queue = some queue) (room : (sys.queues queue).length < size) :
      Step sys thread .go
        (({ sys.assign fiber job count with
          queues := Function.update sys.queues queue (sys.queues queue ++ [fiber]) }.carry fiber count).setPoint thread
            (.scheduling caller (index+1) jobs count))
  | undo {caller : Caller size} {index : Nat} {count : Option Counter} {next : Point size Counter Work}
      (point : sys.threads thread = .undoing caller index count) (room : sys.freeQPool.length < size)
      (back : caller.point index = some next) :
      Step sys thread .go ({ sys with freeQPool := sys.freeQPool ++ [Pooled.stray] }.setPoint thread next)
  | acquire {fiber : Fin size} {count : Counter} {checked : Bool}
      (point : sys.threads thread = .acquiring fiber count checked) (free : (sys.counters count).lock = false) :
      Step sys thread .go ((sys.setLock count true).setPoint thread (.testing fiber count checked))
  | ended {fiber : Fin size} {count : Counter} {checked : Bool}
      (point : sys.threads thread = .testing fiber count checked) (zero : (sys.counters count).counter = 0) :
      Step sys thread .go (sys.setPoint thread (.leaving fiber count false))
  | block {fiber : Fin size} {count : Counter} (point : sys.threads thread = .testing fiber count false)
      (live : (sys.counters count).counter ≠ 0) : Step sys thread .go (sys.setPoint thread (.blocking fiber count))
  | measure {fiber : Fin size} {count : Counter} (point : sys.threads thread = .testing fiber count true)
      (live : (sys.counters count).counter ≠ 0) : Step sys thread .go (sys.setPoint thread (.measuring fiber count))
  | full {fiber : Fin size} {count : Counter} (point : sys.threads thread = .measuring fiber count)
      (full : (sys.counters count).waiters.length = waitFiberLen) :
      Step sys thread .go (sys.setPoint thread (.leaving fiber count true))
  | room {fiber : Fin size} {count : Counter} (point : sys.threads thread = .measuring fiber count)
      (room : (sys.counters count).waiters.length ≠ waitFiberLen) :
      Step sys thread .go (sys.setPoint thread (.blocking fiber count))
  | leave {fiber : Fin size} {count : Counter} {err : Bool} (point : sys.threads thread = .leaving fiber count err) :
      Step sys thread .go ((sys.setLock count false).setPoint thread (.running fiber))
  | suspend {fiber : Fin size} {count : Counter} (point : sys.threads thread = .blocking fiber count) :
      Step sys thread .go ((sys.suspend fiber count).setPoint thread (.switched fiber))
  | waits {fiber : Fin size} {count : Counter} (point : sys.threads thread = .switched fiber)
      (state : (sys.fibers fiber).state = .wait) (dependency : (sys.fibers fiber).dependencyCount = some count) :
      Step sys thread .go (sys.setPoint thread (.adding fiber count))
  | done {fiber : Fin size} {count : Counter} (point : sys.threads thread = .switched fiber)
      (state : (sys.fibers fiber).state = .done) (parent : (sys.fibers fiber).parentCount = some count) :
      Step sys thread .go (sys.setPoint thread (.completing fiber count))
  | drop {fiber : Fin size} (point : sys.threads thread = .switched fiber)
      (state : (sys.fibers fiber).state ≠ .wait)
      (parent : (sys.fibers fiber).state = .done → (sys.fibers fiber).parentCount = none) :
      Step sys thread .go (sys.setPoint thread (.polling .hiQ))
  | overflow {fiber : Fin size} {count : Counter} (point : sys.threads thread = .adding fiber count)
      (full : (sys.counters count).waiters.length = waitFiberLen) :
      Step sys thread .go (sys.setPoint thread (.releasing count))
  | add {fiber : Fin size} {count : Counter} (point : sys.threads thread = .adding fiber count)
      (room : (sys.counters count).waiters.length ≠ waitFiberLen) :
      Step sys thread .go (sys.setPoint thread (.recording fiber count (sys.counters count).waiters.length))
  | record {fiber : Fin size} {count : Counter} {len : Nat} (point : sys.threads thread = .recording fiber count len) :
      Step sys thread .go ((sys.record fiber count len).setPoint thread (.releasing count))
  | release {count : Counter} (point : sys.threads thread = .releasing count) :
      Step sys thread .go ((sys.setLock count false).setPoint thread (.polling .hiQ))
  | complete {fiber : Fin size} {count : Counter} (point : sys.threads thread = .completing fiber count)
      (free : (sys.counters count).lock = false) :
      Step sys thread .go ((sys.setLock count true).setPoint thread (.loading fiber count))
  | load {fiber : Fin size} {count : Counter} (point : sys.threads thread = .loading fiber count) :
      Step sys thread .go (sys.setPoint thread (.storing fiber count (sys.counters count).counter))
  | store {fiber : Fin size} {count : Counter} {value : Int} (point : sys.threads thread = .storing fiber count value) :
      Step sys thread .go ((sys.store fiber count (value-1)).setPoint thread (.judging fiber count))
  | last {fiber : Fin size} {count : Counter} (point : sys.threads thread = .judging fiber count)
      (zero : (sys.counters count).counter = 0) :
      Step sys thread .go (sys.setPoint thread (.waking fiber count 0))
  | more {fiber : Fin size} {count : Counter} (point : sys.threads thread = .judging fiber count)
      (live : (sys.counters count).counter ≠ 0) : Step sys thread .go (sys.setPoint thread (.unlocking fiber count))
  | wake {fiber waiter : Fin size} {count : Counter} {index : Nat}
      (point : sys.threads thread = .waking fiber count index)
      (recorded : (sys.counters count).waiters[index]? = some waiter) :
      Step sys thread .go ((sys.wake waiter count).setPoint thread (.waking fiber count (index+1)))
  | woken {fiber : Fin size} {count : Counter} {index : Nat} (point : sys.threads thread = .waking fiber count index)
      (ended : (sys.counters count).waiters[index]? = none) :
      Step sys thread .go (sys.setPoint thread (.unlocking fiber count))
  | unlock {fiber : Fin size} {count : Counter} (point : sys.threads thread = .unlocking fiber count) :
      Step sys thread .go ((sys.setLock count false).setPoint thread (.retiring fiber))
  | retire {fiber : Fin size} (point : sys.threads thread = .retiring fiber) (room : sys.freeQPool.length < size) :
      Step sys thread .go ({ sys with freeQPool := sys.freeQPool ++ [Pooled.fiber fiber] }.setPoint thread (.polling .hiQ))
  | miss {queue : RunQueue} (point : sys.threads thread = .polling queue) :
      Step sys thread .fail (sys.setPoint thread (.polling queue.next))
  | denied {caller : Caller size} {index : Nat} {job : VgcJob Work} {jobs : List (VgcJob Work)}
      {count : Option Counter} {next : Point size Counter Work}
      (point : sys.threads thread = .scheduling caller index (job::jobs) count) (back : caller.point index = some next) :
      Step sys thread .fail (sys.setPoint thread next)
  | refuse {caller : Caller size} {index : Nat} {fiber : Fin size} {job : VgcJob Work} {jobs : List (VgcJob Work)}
      {count : Option Counter} (point : sys.threads thread = .assigning caller index fiber job jobs count) :
      Step sys thread .fail ((sys.assign fiber job count).setPoint thread (.undoing caller index count))
  | skip {fiber waiter : Fin size} {count : Counter} {index : Nat}
      (point : sys.threads thread = .waking fiber count index)
      (recorded : (sys.counters count).waiters[index]? = some waiter) :
      Step sys thread .fail ((sys.turn waiter count).setPoint thread (.waking fiber count (index+1)))

variable {sys next : Sys size Thread Counter Work} {thread : Thread}

omit [DecidableEq Counter] in
theorem back_cases {result : Int} {caller : Caller size} (returned : sys.back thread result caller = some next) :
    ∃ point, caller.point result = some point ∧ next = sys.setPoint thread point := by
  cases caller with
  | thread => exact ⟨.outside,rfl,(Option.some.inj returned).symm⟩
  | fiber own fatal =>
    simp only [back] at returned
    split at returned
    next => cases returned
    next goes => exact ⟨.running own,if_neg goes,(Option.some.inj returned).symm⟩

omit [DecidableEq Thread] [DecidableEq Counter] in
theorem enqueue_room {queue : RunQueue} {fiber : Fin size} (room : (sys.queues queue).length < size) :
    sys.vgcEnqueue queue fiber =
      some { sys with queues := Function.update sys.queues queue (sys.queues queue ++ [fiber]) } := if_pos room

omit [DecidableEq Thread] [DecidableEq Counter] in
theorem enqueue_full {queue : RunQueue} {fiber : Fin size} (full : ¬ (sys.queues queue).length < size) :
    sys.vgcEnqueue queue fiber = none := if_neg full

theorem go_cases (stepped : sys.go thread = some next) : Step sys thread .go next := by
  unfold Sys.go at stepped
  split at stepped
  next => cases stepped
  next => cases stepped
  next queue point =>
    split at stepped
    next empty => cases stepped; exact .pass point empty
    next fiber rest head => cases stepped; exact .resume point head
  next caller index count point =>
    obtain ⟨after,back,rfl⟩ := back_cases stepped
    exact .scheduled point back
  next caller index job jobs count point =>
    split at stepped
    next empty =>
      obtain ⟨after,back,rfl⟩ := back_cases stepped
      exact .starved point empty back
    next => cases stepped
    next fiber pool head => cases stepped; exact .pop point head
  next caller index fiber job jobs count point =>
    cases valid : job.priority.queue with
    | none =>
      simp only [valid,Option.bind_none,Option.some.injEq] at stepped
      subst stepped
      exact .reject point (by simp [valid])
    | some queue =>
      simp only [valid,Option.bind_some] at stepped
      by_cases room : (sys.queues queue).length < size
      · rw [enqueue_room (by exact room)] at stepped
        cases stepped
        exact .dispatch point valid room
      · rw [enqueue_full (by exact room)] at stepped
        cases stepped
        refine .reject point fun other valid' => ?_
        cases valid.symm.trans valid'
        omega
  next caller index count point =>
    obtain ⟨pushed,push,returned⟩ := Option.bind_eq_some_iff.mp stepped
    unfold vgcPush at push
    split at push
    next room =>
      cases push
      obtain ⟨after,back,rfl⟩ := back_cases returned
      exact .undo point room back
    next => cases push
  next fiber count checked point =>
    split at stepped
    next => cases stepped
    next free => cases stepped; exact .acquire point (by simpa using free)
  next fiber count checked point =>
    cases stepped
    split
    next zero => exact .ended point zero
    next live => cases checked with
      | false => exact .block point live
      | true => exact .measure point live
  next fiber count point =>
    cases stepped
    split
    next full => exact .full point full
    next room => exact .room point room
  next fiber count err point => cases stepped; exact .leave point
  next fiber count point => cases stepped; exact .suspend point
  next fiber point =>
    split at stepped
    next state =>
      obtain ⟨count,dependency,rfl⟩ := Option.map_eq_some_iff.mp stepped
      exact .waits point state dependency
    next state =>
      split at stepped
      next parent => cases stepped; exact .drop point (by simp [state]) fun _ => parent
      next count parent => cases stepped; exact .done point state parent
    next notWait notDone =>
      cases stepped
      exact .drop point notWait fun done => absurd done notDone
  next fiber count point =>
    cases stepped
    split
    next full => exact .overflow point full
    next room => exact .add point room
  next fiber count len point => cases stepped; exact .record point
  next count point => cases stepped; exact .release point
  next fiber count point =>
    split at stepped
    next => cases stepped
    next free => cases stepped; exact .complete point (by simpa using free)
  next fiber count point => cases stepped; exact .load point
  next fiber count value point => cases stepped; exact .store point
  next fiber count point =>
    cases stepped
    split
    next zero => exact .last point zero
    next live => exact .more point live
  next fiber count index point =>
    split at stepped
    next ended => cases stepped; exact .woken point ended
    next waiter recorded => cases stepped; exact .wake point recorded
  next fiber count point => cases stepped; exact .unlock point
  next fiber point =>
    obtain ⟨pushed,push,rfl⟩ := Option.map_eq_some_iff.mp stepped
    unfold vgcPush at push
    split at push
    next room => cases push; exact .retire point room
    next => cases push

theorem fail_cases (stepped : sys.fail thread = some next) : Step sys thread .fail next := by
  unfold Sys.fail at stepped
  split at stepped
  next queue point => cases stepped; exact .miss point
  next caller index job jobs count point =>
    obtain ⟨after,back,rfl⟩ := back_cases stepped
    exact .denied point back
  next caller index fiber job jobs count point => cases stepped; exact .refuse point
  next fiber count index point =>
    obtain ⟨waiter,recorded,rfl⟩ := Option.map_eq_some_iff.mp stepped
    exact .skip point recorded
  next => cases stepped

theorem step_cases {act : Act Counter Work} (stepped : sys.step (thread,act) = some next) :
    Step sys thread act next := by
  unfold Sys.step at stepped
  dsimp only at stepped
  cases act with
  | go =>
    have same : sys.go thread = some next := by
      split at stepped <;> first | exact stepped | contradiction
    exact go_cases same
  | fail =>
    have same : sys.fail thread = some next := by
      split at stepped <;> first | exact stepped | contradiction
    exact fail_cases same
  | enque job =>
    split at stepped <;> first | contradiction | skip
    next point act => cases act; cases stepped; exact .enque point
  | enter =>
    split at stepped <;> first | contradiction | skip
    next point _ => cases stepped; exact .enter point
  | schedule jobs len count fatal =>
    split at stepped <;> first | contradiction | skip
    next point act => cases act; cases stepped; exact .schedule point
  | wait count checked =>
    split at stepped <;> first | contradiction | skip
    next point act => cases act; cases stepped; exact .wait point
  | finish =>
    split at stepped <;> first | contradiction | skip
    next point _ => cases stepped; exact .finish point

end CSpock.Fibers
