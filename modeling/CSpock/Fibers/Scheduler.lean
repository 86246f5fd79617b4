import CSpock.Library.Transition

/-! The job system of `fibers/scheduler.c`: threads that run fibers, and what the fibers
call. A step of a thread is one access to what threads share, but for the rings: a
`vgc_push` or `vgc_pop`, which is several accesses, is one step on the queue of what the ring
holds, the one that claims its position, or it fails, since another thread has claimed the
cell that it comes to and is not done with it. When that is the case is left open. Waiting
for a condition variable is polling. -/
namespace CSpock.Fibers

def waitFiberLen : Nat := 4

inductive FiberPriority where
  | lo
  | mid
  | hi
  | other
  deriving Repr, DecidableEq

inductive FiberState where
  | start
  | resume
  | run
  | wait
  | done
  deriving Repr, DecidableEq

inductive RunQueue where
  | hiQ
  | midQ
  | loQ
  deriving Repr, DecidableEq

def RunQueue.next : RunQueue → RunQueue
  | .hiQ => .midQ
  | .midQ => .loQ
  | .loQ => .hiQ

/-- The switches on a priority; an invalid one has no queue. -/
def FiberPriority.queue : FiberPriority → Option RunQueue
  | .hi => some .hiQ
  | .mid => some .midQ
  | .lo => some .loQ
  | .other => none

/-- `work` stands for the procedure with its data. -/
structure VgcJob (Work : Type) where
  work : Work
  priority : FiberPriority

structure FiberData (Counter Work : Type) where
  state : FiberState
  priority : FiberPriority
  dependencyCount : Option Counter
  parentCount : Option Counter
  work : Option Work

/-- `waiters` is the part of the array below `waiters_len`. A lock other than 0 is taken. -/
structure VgcCounter (size : Nat) where
  lock : Bool
  counter : Int
  waiters : List (Fin size)

def vgcCounterInit {size : Nat} (count : Int) : VgcCounter size := ⟨false,count,[]⟩

/-- What the free pool holds: a fiber, or the address of a variable that has gone out of scope. -/
inductive Pooled (size : Nat) where
  | fiber (fiber : Fin size)
  | stray
  deriving Repr, DecidableEq

/-- Whose call of a scheduling function it is. `fatal` callers end the process on a result other than 0. -/
inductive Caller (size : Nat) where
  | thread
  | fiber (fiber : Fin size) (fatal : Bool)
  deriving Repr, DecidableEq

inductive Point (size : Nat) (Counter Work : Type) where
  /-- Outside of `vgc_scheduler_run`. -/
  | outside
  | polling (queue : RunQueue)
  /-- In the code of a fiber. -/
  | running (fiber : Fin size)
  /-- The loop of `vgc_schedule_jobs` in front of `vgc_enque_job`. -/
  | scheduling (caller : Caller size) (index : Nat) (jobs : List (VgcJob Work)) (count : Option Counter)
  | assigning (caller : Caller size) (index : Nat) (fiber : Fin size) (job : VgcJob Work)
      (jobs : List (VgcJob Work)) (count : Option Counter)
  | undoing (caller : Caller size) (index : Nat) (count : Option Counter)
  /-- `vgc_wait_for_counter`, or `vgc_wait_for_counter2` when `checked`. -/
  | acquiring (fiber : Fin size) (count : Counter) (checked : Bool)
  | testing (fiber : Fin size) (count : Counter) (checked : Bool)
  | measuring (fiber : Fin size) (count : Counter)
  | leaving (fiber : Fin size) (count : Counter) (err : Bool)
  | blocking (fiber : Fin size) (count : Counter)
  /-- `vgc_scheduler_run` after the jump. -/
  | switched (fiber : Fin size)
  | adding (fiber : Fin size) (count : Counter)
  | recording (fiber : Fin size) (count : Counter) (len : Nat)
  | releasing (count : Counter)
  | completing (fiber : Fin size) (count : Counter)
  | loading (fiber : Fin size) (count : Counter)
  | storing (fiber : Fin size) (count : Counter) (value : Int)
  | judging (fiber : Fin size) (count : Counter)
  | waking (fiber : Fin size) (count : Counter) (index : Nat)
  | unlocking (fiber : Fin size) (count : Counter)
  | retiring (fiber : Fin size)

/-- The use of a counter since it was last set: the jobs of it that have not been enqueued, and the waiters
whose turn to be enqueued has come. -/
structure Batch (size : Nat) where
  missing : Nat
  woken : List (Fin size)

/-- The shared memory and the threads. `batches` and `carries` are not in the code: they say what a counter
was set to, and which fibers have a job of it whose completion has not been processed. -/
structure Sys (size : Nat) (Thread Counter Work : Type) where
  fibers : Fin size → FiberData Counter Work
  queues : RunQueue → List (Fin size)
  freeQPool : List (Pooled size)
  counters : Counter → VgcCounter size
  threads : Thread → Point size Counter Work
  batches : Counter → Option (Batch size)
  carries : Fin size → Option Counter

/-- What a thread does next: what the code that it runs decides, or the next access of where it is. -/
inductive Act (Counter Work : Type) where
  | enque (job : VgcJob Work)
  | enter
  | schedule (jobs : List (VgcJob Work)) (len : Int) (count : Option Counter) (fatal : Bool)
  | wait (count : Counter) (checked : Bool)
  | finish
  | go
  /-- The ring operation that is next comes to a cell that another thread has claimed and is not done with. -/
  | fail

def Act.fails {Counter Work : Type} : Act Counter Work → Bool
  | .fail => true
  | _ => false

namespace Sys
variable {size : Nat} {Thread Counter Work : Type} [DecidableEq Thread] [DecidableEq Counter]

def setPoint (sys : Sys size Thread Counter Work) (thread : Thread) (point : Point size Counter Work) :
    Sys size Thread Counter Work :=
  { sys with threads := Function.update sys.threads thread point }

def setCounter (sys : Sys size Thread Counter Work) (count : Counter) (value : VgcCounter size) :
    Sys size Thread Counter Work :=
  { sys with counters := Function.update sys.counters count value }

def setLock (sys : Sys size Thread Counter Work) (count : Counter) (lock : Bool) : Sys size Thread Counter Work :=
  sys.setCounter count { sys.counters count with lock := lock }

def setFiber (sys : Sys size Thread Counter Work) (fiber : Fin size) (fd : FiberData Counter Work) :
    Sys size Thread Counter Work :=
  { sys with fibers := Function.update sys.fibers fiber fd }

/-- `*count = vgc_counter_init(len)` for a batch of jobs. -/
def initCounter (sys : Sys size Thread Counter Work) (len : Int) : Option Counter → Sys size Thread Counter Work
  | none => sys
  | some count => { sys.setCounter count (vgcCounterInit len) with
      batches := Function.update sys.batches count (if 0 ≤ len then some ⟨len.toNat,[]⟩ else none) }

def carry (sys : Sys size Thread Counter Work) (fiber : Fin size) : Option Counter → Sys size Thread Counter Work
  | none => { sys with carries := Function.update sys.carries fiber none }
  | some count => { sys with
      carries := Function.update sys.carries fiber (some count)
      batches := Function.update sys.batches count
        ((sys.batches count).map fun batch => { batch with missing := batch.missing - 1 }) }

/-- A result of `none` is one of -1. -/
def vgcEnqueue (sys : Sys size Thread Counter Work) (queue : RunQueue) (fiber : Fin size) :
    Option (Sys size Thread Counter Work) :=
  if (sys.queues queue).length < size then
    some { sys with queues := Function.update sys.queues queue (sys.queues queue ++ [fiber]) }
  else none

def vgcPush (sys : Sys size Thread Counter Work) (pooled : Pooled size) : Option (Sys size Thread Counter Work) :=
  if sys.freeQPool.length < size then some { sys with freeQPool := sys.freeQPool ++ [pooled] } else none

/-- The end of a call that returns `result`; a process that exits has no next state. -/
def back (sys : Sys size Thread Counter Work) (thread : Thread) (result : Int) :
    Caller size → Option (Sys size Thread Counter Work)
  | .thread => some (sys.setPoint thread .outside)
  | .fiber fiber fatal => if fatal = true ∧ result ≠ 0 then none else some (sys.setPoint thread (.running fiber))

/-- The turn of one waiter is over. -/
def turn (sys : Sys size Thread Counter Work) (waiter : Fin size) (count : Counter) : Sys size Thread Counter Work :=
  { sys with
    batches := Function.update sys.batches count
      ((sys.batches count).map fun batch => { batch with woken := batch.woken ++ [waiter] }) }

/-- The wake-up of one waiter. Its result is not looked at. -/
def wake (sys : Sys size Thread Counter Work) (waiter : Fin size) (count : Counter) : Sys size Thread Counter Work :=
  (((sys.fibers waiter).priority.queue.bind fun queue => sys.vgcEnqueue queue waiter).getD sys).turn waiter count

/-- The next access of a thread that is not in the code of a fiber. -/
def go (sys : Sys size Thread Counter Work) (thread : Thread) : Option (Sys size Thread Counter Work) :=
  match sys.threads thread with
  | .outside => none
  | .running _ => none
  | .polling queue =>
    match sys.queues queue with
    | [] => some (sys.setPoint thread (.polling queue.next))
    | fiber::rest =>
      let left := { sys with queues := Function.update sys.queues queue rest }
      some ((left.setFiber fiber { sys.fibers fiber with state := .run }).setPoint thread (.running fiber))
  | .scheduling caller _ [] _ => sys.back thread 0 caller
  | .scheduling caller index (job::jobs) count =>
    match sys.freeQPool with
    | [] => sys.back thread index caller
    -- what is behind the address is not known
    | .stray::_ => none
    | .fiber fiber::pool =>
      some ({ sys with freeQPool := pool }.setPoint thread (.assigning caller index fiber job jobs count))
  | .assigning caller index fiber job jobs count =>
    let assigned := sys.setFiber fiber
      { sys.fibers fiber with work := some job.work, priority := job.priority, parentCount := count }
    match job.priority.queue.bind fun queue => assigned.vgcEnqueue queue fiber with
    | none => some (assigned.setPoint thread (.undoing caller index count))
    | some sys => some ((sys.carry fiber count).setPoint thread (.scheduling caller (index+1) jobs count))
  -- it is the address of the variable that is pushed, not what it holds
  | .undoing caller index _ => (sys.vgcPush .stray).bind fun sys => sys.back thread index caller
  | .acquiring fiber count checked =>
    if (sys.counters count).lock then none
    else some ((sys.setLock count true).setPoint thread (.testing fiber count checked))
  | .testing fiber count checked =>
    some (sys.setPoint thread
      (if (sys.counters count).counter = 0 then .leaving fiber count false
      else if checked then .measuring fiber count else .blocking fiber count))
  | .measuring fiber count =>
    some (sys.setPoint thread
      (if (sys.counters count).waiters.length = waitFiberLen then .leaving fiber count true
      else .blocking fiber count))
  | .leaving fiber count _ => some ((sys.setLock count false).setPoint thread (.running fiber))
  | .blocking fiber count =>
    some ((sys.setFiber fiber { sys.fibers fiber with state := .wait, dependencyCount := some count }).setPoint thread
      (.switched fiber))
  | .switched fiber =>
    match (sys.fibers fiber).state with
    | .wait => (sys.fibers fiber).dependencyCount.map fun count => sys.setPoint thread (.adding fiber count)
    | .done =>
      match (sys.fibers fiber).parentCount with
      | none => some (sys.setPoint thread (.polling .hiQ))
      | some count => some (sys.setPoint thread (.completing fiber count))
    | _ => some (sys.setPoint thread (.polling .hiQ))
  | .adding fiber count =>
    some (sys.setPoint thread
      (if (sys.counters count).waiters.length = waitFiberLen then .releasing count
      else .recording fiber count (sys.counters count).waiters.length))
  | .recording fiber count len =>
    some ((sys.setCounter count
      { sys.counters count with waiters := (sys.counters count).waiters.take len ++ [fiber] }).setPoint thread
        (.releasing count))
  | .releasing count => some ((sys.setLock count false).setPoint thread (.polling .hiQ))
  | .completing fiber count =>
    if (sys.counters count).lock then none
    else some ((sys.setLock count true).setPoint thread (.loading fiber count))
  | .loading fiber count => some (sys.setPoint thread (.storing fiber count (sys.counters count).counter))
  | .storing fiber count value =>
    some (({ sys with carries := Function.update sys.carries fiber none }.setCounter count
      { sys.counters count with counter := value - 1 }).setPoint thread (.judging fiber count))
  | .judging fiber count =>
    some (sys.setPoint thread
      (if (sys.counters count).counter = 0 then .waking fiber count 0 else .unlocking fiber count))
  | .waking fiber count index =>
    match (sys.counters count).waiters[index]? with
    | none => some (sys.setPoint thread (.unlocking fiber count))
    | some waiter => some ((sys.wake waiter count).setPoint thread (.waking fiber count (index+1)))
  | .unlocking fiber count => some ((sys.setLock count false).setPoint thread (.retiring fiber))
  | .retiring fiber => (sys.vgcPush (.fiber fiber)).map fun sys => sys.setPoint thread (.polling .hiQ)

/-- A `vgc_push` or `vgc_pop` that returns -1. Where the process exits there is no next state. -/
def fail (sys : Sys size Thread Counter Work) (thread : Thread) : Option (Sys size Thread Counter Work) :=
  match sys.threads thread with
  | .polling queue => some (sys.setPoint thread (.polling queue.next))
  | .scheduling caller index (_::_) _ => sys.back thread index caller
  | .assigning caller index fiber job _ count =>
    let assigned := sys.setFiber fiber
      { sys.fibers fiber with work := some job.work, priority := job.priority, parentCount := count }
    some (assigned.setPoint thread (.undoing caller index count))
  | .waking fiber count index =>
    (sys.counters count).waiters[index]?.map fun waiter =>
      (sys.turn waiter count).setPoint thread (.waking fiber count (index+1))
  | _ => none

def step (sys : Sys size Thread Counter Work) (label : Thread × Act Counter Work) :
    Option (Sys size Thread Counter Work) :=
  match sys.threads label.1,label.2 with
  | .outside,.enque job => some (sys.setPoint label.1 (.scheduling .thread 0 [job] none))
  | .outside,.enter => some (sys.setPoint label.1 (.polling .hiQ))
  | .running fiber,.schedule jobs len count fatal =>
    some ((sys.initCounter len count).setPoint label.1 (.scheduling (.fiber fiber fatal) 0 (jobs.take len.toNat) count))
  | .running fiber,.wait count checked => some (sys.setPoint label.1 (.acquiring fiber count checked))
  | .running fiber,.finish =>
    some ((sys.setFiber fiber { sys.fibers fiber with state := .done }).setPoint label.1 (.switched fiber))
  | _,.go => sys.go label.1
  | _,.fail => sys.fail label.1
  | _,_ => none

/-- After `vgc_scheduler_init`, in front of anything else. The memory of the counters is as it comes. -/
def vgcSchedulerInit (size : Nat) (counters : Counter → VgcCounter size) : Sys size Thread Counter Work where
  fibers _ := ⟨.start,.other,none,none,none⟩
  queues _ := []
  freeQPool := (List.finRange size).map .fiber
  counters := counters
  threads _ := .outside
  batches _ := none
  carries _ := none

end Sys

end CSpock.Fibers
