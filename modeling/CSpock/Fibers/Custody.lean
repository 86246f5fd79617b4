import CSpock.Fibers.Steps

/-! Who has what: the places of the fibers, the holders of the counters' locks, and what
a thread may rely on at each of its points. -/
namespace CSpock.Fibers
open CSpock.Library.Transition

variable {size : Nat} {Thread Counter Work : Type}

/-- Where a fiber can be. A thread has one fiber whose code it runs and one in its hand, in the middle of
an operation. -/
inductive Place (Thread Counter : Type) where
  | pool
  | queue (queue : RunQueue)
  | host (thread : Thread)
  | hand (thread : Thread)
  | waiting (count : Counter)

def Pooled.held : Pooled size → Option (Fin size)
  | .fiber own => some own
  | .stray => none

def Caller.own : Caller size → Option (Fin size)
  | .thread => none
  | .fiber own _ => some own

namespace Point

@[simp] def host : Point size Counter Work → Option (Fin size)
  | .running fiber => some fiber
  | .scheduling caller _ _ _ => caller.own
  | .assigning caller _ _ _ _ _ => caller.own
  | .undoing caller _ _ => caller.own
  | .acquiring fiber _ _ => some fiber
  | .testing fiber _ _ => some fiber
  | .measuring fiber _ => some fiber
  | .leaving fiber _ _ => some fiber
  | .blocking fiber _ => some fiber
  | _ => none

@[simp] def hand : Point size Counter Work → Option (Fin size)
  | .assigning _ _ fiber _ _ _ => some fiber
  | .switched fiber => some fiber
  | .adding fiber _ => some fiber
  | .recording fiber _ _ => some fiber
  | .completing fiber _ => some fiber
  | .loading fiber _ => some fiber
  | .storing fiber _ _ => some fiber
  | .judging fiber _ => some fiber
  | .waking fiber _ _ => some fiber
  | .unlocking fiber _ => some fiber
  | .retiring fiber => some fiber
  | _ => none

@[simp] def counter : Point size Counter Work → Option Counter
  | .acquiring _ count _ => some count
  | .testing _ count _ => some count
  | .measuring _ count => some count
  | .leaving _ count _ => some count
  | .blocking _ count => some count
  | .adding _ count => some count
  | .recording _ count _ => some count
  | .releasing count => some count
  | .completing _ count => some count
  | .loading _ count => some count
  | .storing _ count _ => some count
  | .judging _ count => some count
  | .waking _ count _ => some count
  | .unlocking _ count => some count
  | _ => none

@[simp] def schedules : Point size Counter Work → Option Counter
  | .scheduling _ _ _ count => count
  | .assigning _ _ _ _ _ count => count
  | .undoing _ _ count => count
  | _ => none

/-- The thread has taken the last completion and has not gone through the waiters. -/
@[simp] def wakes : Point size Counter Work → Option Counter
  | .judging _ count => some count
  | .waking _ count _ => some count
  | _ => none

theorem wakes_cases {point : Point size Counter Work} {count : Counter} (wakes : point.wakes = some count) :
    (∃ fiber, point = .judging fiber count) ∨ ∃ fiber index, point = .waking fiber count index := by
  cases point with
  | judging fiber own => cases wakes; exact .inl ⟨fiber,rfl⟩
  | waking fiber own index => cases wakes; exact .inr ⟨fiber,index,rfl⟩
  | _ => cases wakes

end Point

namespace Sys

/-- The waiters that are recorded and have not been put on a queue. -/
def pending (sys : Sys size Thread Counter Work) (count : Counter) : List (Fin size) :=
  match sys.batches count with
  | none => []
  | some batch => (sys.counters count).waiters.drop batch.woken.length

def contents (sys : Sys size Thread Counter Work) : Place Thread Counter → List (Fin size)
  | .pool => sys.freeQPool.filterMap Pooled.held
  | .queue queue => sys.queues queue
  | .host thread => (sys.threads thread).host.toList
  | .hand thread => (sys.threads thread).hand.toList
  | .waiting count => sys.pending count

/-- The counter whose lock the thread has taken, or has been left by the fiber that jumped. -/
def holds (sys : Sys size Thread Counter Work) (thread : Thread) : Option Counter :=
  match sys.threads thread with
  | .testing _ count _ => some count
  | .measuring _ count => some count
  | .leaving _ count _ => some count
  | .blocking _ count => some count
  | .switched fiber => if (sys.fibers fiber).state = .wait then (sys.fibers fiber).dependencyCount else none
  | .adding _ count => some count
  | .recording _ count _ => some count
  | .releasing count => some count
  | .loading _ count => some count
  | .storing _ count _ => some count
  | .judging _ count => some count
  | .waking _ count _ => some count
  | .unlocking _ count => some count
  | _ => none

/-- The fiber carries the job that it was assigned, and has a queue to go to. -/
structure Bears (sys : Sys size Thread Counter Work) (fiber : Fin size) : Prop where
  carries : sys.carries fiber = (sys.fibers fiber).parentCount
  queue : (sys.fibers fiber).priority.queue.isSome

/-- A pooled fiber has no job, and outside of the pool and the hands of a thread each has the one that it was
assigned. -/
def Fits (sys : Sys size Thread Counter Work) (fiber : Fin size) : Place Thread Counter → Prop
  | .pool => sys.carries fiber = none
  | .hand _ => True
  | _ => sys.Bears fiber

/-- The jobs of a counter whose completion has not been processed, among those that were enqueued. -/
def live [DecidableEq Counter] (sys : Sys size Thread Counter Work) (count : Counter) : Nat :=
  (Finset.univ.filter fun fiber => sys.carries fiber = some count).card

/-- What a thread knows where it is, of what it holds. -/
def Knows (sys : Sys size Thread Counter Work) (thread : Thread) : Prop :=
  match sys.threads thread with
  | .scheduling _ _ jobs (some count) => ∃ batch, sys.batches count = some batch ∧ batch.missing = jobs.length
  | .assigning _ _ fiber _ jobs count => sys.carries fiber = none ∧
      ∀ own, count = some own → ∃ batch, sys.batches own = some batch ∧ batch.missing = jobs.length + 1
  | .undoing _ _ count => ∀ own, count = some own → ∃ batch, sys.batches own = some batch ∧ batch.missing ≠ 0
  | .measuring _ count => (sys.counters count).counter ≠ 0
  | .leaving _ count err => err = false → (sys.counters count).counter = 0
  | .blocking _ count => (sys.counters count).counter ≠ 0
  | .switched fiber => sys.Bears fiber ∧ ((sys.fibers fiber).state = .wait →
      ∃ count, (sys.fibers fiber).dependencyCount = some count ∧ (sys.batches count).isSome ∧
        (sys.counters count).counter ≠ 0)
  | .adding fiber count => sys.Bears fiber ∧ (sys.counters count).counter ≠ 0
  | .recording fiber count len => sys.Bears fiber ∧ (sys.counters count).counter ≠ 0 ∧
      len = (sys.counters count).waiters.length
  | .completing fiber count => sys.carries fiber = some count
  | .loading fiber count => sys.carries fiber = some count
  | .storing fiber count value => sys.carries fiber = some count ∧ value = (sys.counters count).counter
  | .judging fiber count => sys.carries fiber = none ∧ ∀ batch, sys.batches count = some batch → batch.woken = []
  | .waking fiber count index => sys.carries fiber = none ∧ (sys.counters count).counter = 0 ∧
      index ≤ (sys.counters count).waiters.length ∧
      ∀ batch, sys.batches count = some batch → batch.woken = (sys.counters count).waiters.take index
  | .unlocking fiber _ => sys.carries fiber = none
  | .retiring fiber => sys.carries fiber = none
  | _ => True

/-- What is true of a counter that was set, at every moment. -/
structure Settled [DecidableEq Counter] (sys : Sys size Thread Counter Work) (count : Counter)
    (batch : Batch size) : Prop where
  counted : (sys.counters count).counter = sys.live count + batch.missing
  asleep : (sys.counters count).counter ≠ 0 → batch.woken = []
  awake : (sys.counters count).counter = 0 →
    batch.woken = (sys.counters count).waiters ∨ ∃ thread, (sys.threads thread).wakes = some count
  distinct : (sys.counters count).waiters.Nodup

structure Sound [DecidableEq Counter] (sys : Sys size Thread Counter Work) : Prop where
  tidy : Tidy sys.contents
  mutex : ∀ thread other count, sys.holds thread = some count → sys.holds other = some count → thread = other
  locked : ∀ thread count, sys.holds thread = some count → (sys.counters count).lock = true
  sole : ∀ thread other count, (sys.threads thread).schedules = some count →
    (sys.threads other).schedules = some count → thread = other
  known : ∀ thread count, (sys.threads thread).counter = some count → (sys.batches count).isSome
  knows : ∀ thread, sys.Knows thread
  settled : ∀ count batch, sys.batches count = some batch → sys.Settled count batch
  carried : ∀ fiber count, sys.carries fiber = some count → (sys.batches count).isSome
  fits : ∀ fiber place, fiber ∈ sys.contents place → sys.Fits fiber place

end Sys

end CSpock.Fibers
