import CSpock.Fibers.Scheduler

/-! How the threads of the scheduler go to sleep when there is nothing to run, and how
`vgc_enqueue` wakes them. As in the job system a push or a pop is one step on what a ring
holds, or fails because of what another thread has not finished. -/
set_option linter.unusedSectionVars false
namespace CSpock.Fibers
open CSpock.Library.Transition

/-- Where a thread is between two fibers, or in `vgc_enqueue`, in front of the operation that the name says. -/
inductive WaiterPoint where
  /-- In the code of a fiber, or outside of the scheduler. -/
  | working
  | polling (queue : RunQueue)
  | locking
  | announcing
  | checking (queue : RunQueue)
  | blocking
  /-- In `uv_cond_wait`, without the mutex. -/
  | blocked
  /-- In `uv_cond_wait`, waiting for the mutex. -/
  | signalled
  | withdrawing
  | unlocking
  | loading
  | calling
  | broadcasting
  | releasing
  deriving DecidableEq

inductive WaiterAct (Item : Type) where
  | enter
  | enqueue (queue : RunQueue) (item : Item)
  /-- `uv_cond_wait` may return for no reason. -/
  | spurious
  | go
  /-- A `vgc_push` or `vgc_pop` comes to a cell that another thread has claimed and is not done with. -/
  | fail

structure WaiterSys (Thread Item : Type) where
  size : Nat
  queues : RunQueue → List Item
  waiterMux : Option Thread
  isWaiter : Bool
  threads : Thread → WaiterPoint

namespace WaiterSys
variable {Thread Item : Type} [DecidableEq Thread]

def setPoint (sys : WaiterSys Thread Item) (thread : Thread) (point : WaiterPoint) : WaiterSys Thread Item :=
  { sys with threads := Function.update sys.threads thread point }

/-- A result of `none` is one of -1. -/
def vgcPush (sys : WaiterSys Thread Item) (queue : RunQueue) (item : Item) : Option (WaiterSys Thread Item) :=
  if (sys.queues queue).length < sys.size then
    some { sys with queues := Function.update sys.queues queue (sys.queues queue ++ [item]) }
  else none

/-- `vgc_dequeue`: on to `found` with an item, or to `missed`. -/
def dequeue (sys : WaiterSys Thread Item) (thread : Thread) (queue : RunQueue) (found missed : WaiterPoint) :
    WaiterSys Thread Item :=
  match sys.queues queue with
  | [] => sys.setPoint thread missed
  | _::rest => { sys with queues := Function.update sys.queues queue rest }.setPoint thread found

def lock (sys : WaiterSys Thread Item) (thread : Thread) (point : WaiterPoint) :
    Option (WaiterSys Thread Item) :=
  if sys.waiterMux.isSome then none else some ({ sys with waiterMux := some thread }.setPoint thread point)

def broadcast (sys : WaiterSys Thread Item) : WaiterSys Thread Item :=
  { sys with threads := fun thread => if sys.threads thread = .blocked then .signalled else sys.threads thread }

def go (sys : WaiterSys Thread Item) (thread : Thread) : Option (WaiterSys Thread Item) :=
  match sys.threads thread with
  | .working => none
  | .polling .loQ => some (sys.dequeue thread .loQ .working .locking)
  | .polling queue => some (sys.dequeue thread queue .working (.polling queue.next))
  | .locking => sys.lock thread .announcing
  | .announcing => some ({ sys with isWaiter := true }.setPoint thread (.checking .hiQ))
  | .checking .loQ => some (sys.dequeue thread .loQ .withdrawing .blocking)
  | .checking queue => some (sys.dequeue thread queue .withdrawing (.checking queue.next))
  | .blocking => some ({ sys with waiterMux := none }.setPoint thread .blocked)
  | .blocked => none
  | .signalled => sys.lock thread .announcing
  | .withdrawing => some ({ sys with isWaiter := false }.setPoint thread .unlocking)
  | .unlocking => some ({ sys with waiterMux := none }.setPoint thread .working)
  | .loading => some (sys.setPoint thread (if sys.isWaiter then .calling else .working))
  | .calling => sys.lock thread .broadcasting
  | .broadcasting => some (sys.broadcast.setPoint thread .releasing)
  | .releasing => some ({ sys with waiterMux := none }.setPoint thread .working)

/-- A push that fails ends `vgc_enqueue`, a pop that fails is like one that finds nothing. -/
def fail (sys : WaiterSys Thread Item) (thread : Thread) : Option (WaiterSys Thread Item) :=
  match sys.threads thread with
  | .working => some sys
  | .polling .loQ => some (sys.setPoint thread .locking)
  | .polling queue => some (sys.setPoint thread (.polling queue.next))
  | .checking .loQ => some (sys.setPoint thread .blocking)
  | .checking queue => some (sys.setPoint thread (.checking queue.next))
  | _ => none

def step (sys : WaiterSys Thread Item) (label : Thread × WaiterAct Item) : Option (WaiterSys Thread Item) :=
  match label.2,sys.threads label.1 with
  | .enter,.working => some (sys.setPoint label.1 (.polling .hiQ))
  | .enqueue queue item,.working =>
    match sys.vgcPush queue item with
    | none => some sys
    | some sys => some (sys.setPoint label.1 .loading)
  | .spurious,.blocked => some (sys.setPoint label.1 .signalled)
  | .go,_ => sys.go label.1
  | .fail,_ => sys.fail label.1
  | _,_ => none

def init (size : Nat) (Thread Item : Type) : WaiterSys Thread Item := ⟨size,fun _ => [],none,false,fun _ => .working⟩

end WaiterSys

def WaiterPoint.holds : WaiterPoint → Bool
  | .announcing => true
  | .checking _ => true
  | .blocking => true
  | .withdrawing => true
  | .unlocking => true
  | .broadcasting => true
  | .releasing => true
  | _ => false

def WaiterPoint.enqueues : WaiterPoint → Bool
  | .loading => true
  | .calling => true
  | .broadcasting => true
  | .releasing => true
  | _ => false

/-- The thread has found that there is a waiter, and has not broadcast. -/
def WaiterPoint.calls : WaiterPoint → Bool
  | .calling => true
  | .broadcasting => true
  | _ => false

/-- The flag is known to be set. -/
def WaiterPoint.announces : WaiterPoint → Bool
  | .checking _ => true
  | .blocking => true
  | _ => false

namespace WaiterSys
variable {Thread Item : Type} [DecidableEq Thread]

/-- No sleeper is left without the flag that makes the next enqueue wake it. -/
def Announced (sys : WaiterSys Thread Item) : Prop :=
  (∀ thread, (sys.threads thread).enqueues = false) → (∃ thread, sys.threads thread = .blocked) → sys.isWaiter = true

/-- A thread that takes a job with the mutex leaves no one asleep, or someone is on the way to wake them. -/
def Covered (sys : WaiterSys Thread Item) (label : Thread × WaiterAct Item) : Prop :=
  sys.threads label.1 = .withdrawing →
    (∀ other, sys.threads other ≠ .blocked) ∨ ∃ other, (sys.threads other).calls = true

instance [Fintype Thread] (sys : WaiterSys Thread Item) (label : Thread × WaiterAct Item) :
    Decidable (sys.Covered label) := inferInstanceAs (Decidable (_ → _ ∨ _))

structure Watched (sys : WaiterSys Thread Item) : Prop where
  mutex : ∀ thread, (sys.threads thread).holds = true → sys.waiterMux = some thread
  announced : ∀ thread, (sys.threads thread).announces = true → sys.isWaiter = true
  covered : (∃ thread, sys.threads thread = .blocked) →
    sys.isWaiter = true ∨ ∃ thread, (sys.threads thread).calls = true

variable {sys next : WaiterSys Thread Item} {thread : Thread}

@[simp] theorem setPoint_same (point : WaiterPoint) : (sys.setPoint thread point).threads thread = point :=
  Function.update_self ..

theorem setPoint_other (point : WaiterPoint) {other : Thread} (different : other ≠ thread) :
    (sys.setPoint thread point).threads other = sys.threads other := Function.update_of_ne different ..

/-- What a step of one thread has to show: of the point that it moves to, and of the others, who stay where they are. -/
theorem Watched.turn {point : WaiterPoint} (here : next.threads thread = point)
    (others : ∀ other, other ≠ thread → next.threads other = sys.threads other)
    (mine : point.holds = true → next.waiterMux = some thread)
    (theirs : ∀ other, other ≠ thread → (sys.threads other).holds = true → next.waiterMux = some other)
    (known : point.announces = true ∨ point = .blocked → next.isWaiter = true)
    (kept : ∀ other, other ≠ thread → (sys.threads other).announces = true → next.isWaiter = true)
    (covered : (∃ other, other ≠ thread ∧ sys.threads other = .blocked) →
      next.isWaiter = true ∨ ∃ caller, (next.threads caller).calls = true) : next.Watched := by
  refine ⟨fun other held => ?_,fun other announced => ?_,?_⟩
  · by_cases same : other = thread
    · subst same
      exact mine (here ▸ held)
    · exact theirs other same (others other same ▸ held)
  · by_cases same : other = thread
    · subst same
      exact known (.inl (here ▸ announced))
    · exact kept other same (others other same ▸ announced)
  · rintro ⟨other,asleep⟩
    by_cases same : other = thread
    · subst same
      exact .inl (known (.inr (here ▸ asleep)))
    · exact covered ⟨other,same,others other same ▸ asleep⟩

theorem Watched.still_covered (watched : sys.Watched) (flag : next.isWaiter = sys.isWaiter)
    (others : ∀ other, other ≠ thread → next.threads other = sys.threads other)
    (calls : (sys.threads thread).calls = true → (next.threads thread).calls = true)
    (asleep : ∃ other, other ≠ thread ∧ sys.threads other = .blocked) :
    next.isWaiter = true ∨ ∃ caller, (next.threads caller).calls = true := by
  obtain ⟨other,_,blocked⟩ := asleep
  rw [flag]
  refine (watched.covered ⟨other,blocked⟩).imp id ?_
  rintro ⟨caller,calling⟩
  refine ⟨caller,?_⟩
  by_cases same : caller = thread
  · subst same
    exact calls calling
  · rwa [others caller same]

theorem Watched.move (watched : sys.Watched) {point : WaiterPoint} (here : next.threads thread = point)
    (others : ∀ other, other ≠ thread → next.threads other = sys.threads other)
    (mux : next.waiterMux = sys.waiterMux) (flag : next.isWaiter = sys.isWaiter)
    (holds : point.holds = true → (sys.threads thread).holds = true)
    (announces : point.announces = true → (sys.threads thread).announces = true) (blocked : point ≠ .blocked)
    (calls : (sys.threads thread).calls = true → point.calls = true) : next.Watched := by
  refine Watched.turn here others ?_ ?_ ?_ ?_ (watched.still_covered flag others (here ▸ calls))
  · rw [mux]
    exact fun held => watched.mutex thread (holds held)
  · rw [mux]
    exact fun other _ => watched.mutex other
  · rw [flag]
    rintro (known | asleep)
    · exact watched.announced thread (announces known)
    · exact absurd asleep blocked
  · rw [flag]
    exact fun other _ => watched.announced other

theorem Watched.idle_move (watched : sys.Watched) {old point : WaiterPoint} (at_ : sys.threads thread = old)
    (calls : old.calls = false) (holds : point.holds ≠ true) (announces : point.announces ≠ true)
    (blocked : point ≠ .blocked) : (sys.setPoint thread point).Watched := by
  refine watched.move (setPoint_same _) (fun _ => setPoint_other _) rfl rfl (absurd · holds) (absurd · announces)
    blocked fun calling => ?_
  rw [at_,calls] at calling
  cases calling

theorem dequeue_frame (thread : Thread) (queue : RunQueue) (found missed : WaiterPoint) :
    (sys.dequeue thread queue found missed).waiterMux = sys.waiterMux ∧
      (sys.dequeue thread queue found missed).isWaiter = sys.isWaiter ∧
      (∀ other, other ≠ thread → (sys.dequeue thread queue found missed).threads other = sys.threads other) ∧
      ((sys.dequeue thread queue found missed).threads thread = found ∨
        (sys.dequeue thread queue found missed).threads thread = missed) := by
  unfold dequeue
  split
  next => exact ⟨rfl,rfl,fun _ => setPoint_other _,.inr (setPoint_same _)⟩
  next => exact ⟨rfl,rfl,fun _ => setPoint_other _,.inl (setPoint_same _)⟩

theorem Watched.dequeue (watched : sys.Watched) {queue : RunQueue} {found missed : WaiterPoint}
    (holds : ∀ point, point = found ∨ point = missed → point.holds = true → (sys.threads thread).holds = true)
    (announces : ∀ point, point = found ∨ point = missed → point.announces = true →
      (sys.threads thread).announces = true)
    (blocked : found ≠ .blocked ∧ missed ≠ .blocked) (calls : (sys.threads thread).calls = false) :
    (sys.dequeue thread queue found missed).Watched := by
  obtain ⟨mux,flag,others,here⟩ := sys.dequeue_frame thread queue found missed
  refine watched.move rfl others mux flag (holds _ here) (announces _ here) ?_ fun calling => ?_
  · rcases here with here | here <;> rw [here]
    · exact blocked.1
    · exact blocked.2
  · rw [calls] at calling
    cases calling

theorem Watched.lock (watched : sys.Watched) {point : WaiterPoint} (locked : sys.lock thread point = some next)
    (announces : point.announces = false) (blocked : point ≠ .blocked)
    (calls : (sys.threads thread).calls = true → point.calls = true) : next.Watched := by
  unfold WaiterSys.lock at locked
  split at locked
  next => cases locked
  next free =>
    cases locked
    have others : ∀ other, other ≠ thread →
        ({ sys with waiterMux := some thread }.setPoint thread point).threads other = sys.threads other :=
      fun _ => setPoint_other _
    refine Watched.turn (setPoint_same _) others (fun _ => rfl) (fun other _ held => ?_) ?_
      (fun other _ => watched.announced other) (watched.still_covered rfl others ?_)
    · exact absurd (by rw [watched.mutex other held]; rfl) free
    · rintro (known | asleep)
      · rw [announces] at known
        cases known
      · exact absurd asleep blocked
    · rw [setPoint_same]
      exact calls

theorem Watched.alone (watched : sys.Watched) (held : (sys.threads thread).holds = true) {other : Thread}
    (different : other ≠ thread) : (sys.threads other).holds = false := by
  by_contra holds
  have mine := watched.mutex thread held
  rw [watched.mutex other (by simpa using holds)] at mine
  exact different (Option.some.inj mine)

theorem announces_holds {point : WaiterPoint} (announces : point.announces = true) : point.holds = true := by
  cases point <;> first | rfl | cases announces

theorem calls_enqueues {point : WaiterPoint} (calls : point.calls = true) : point.enqueues = true := by
  cases point <;> first | rfl | cases calls

theorem Watched.unlock (watched : sys.Watched) {point : WaiterPoint} (held : (sys.threads thread).holds = true)
    (holds : point.holds = false) (calls : (sys.threads thread).calls = false)
    (blocked : point = .blocked → sys.isWaiter = true) :
    ({ sys with waiterMux := none }.setPoint thread point).Watched := by
  have others : ∀ other, other ≠ thread →
      ({ sys with waiterMux := none }.setPoint thread point).threads other = sys.threads other :=
    fun _ => setPoint_other _
  refine Watched.turn (setPoint_same _) others (fun owns => ?_) (fun other different owns => ?_) ?_
    (fun other _ => watched.announced other) (watched.still_covered rfl others fun calling => ?_)
  · rw [holds] at owns
    cases owns
  · rw [watched.alone held different] at owns
    cases owns
  · rintro (known | asleep)
    · rw [announces_holds known] at holds
      cases holds
    · exact blocked asleep
  · rw [calls] at calling
    cases calling

theorem Watched.announce (watched : sys.Watched) (point : sys.threads thread = .announcing) :
    ({ sys with isWaiter := true }.setPoint thread (.checking .hiQ)).Watched := by
  have held : sys.waiterMux = some thread := watched.mutex thread (by rw [point]; rfl)
  exact Watched.turn (setPoint_same _) (fun _ => setPoint_other _) (fun _ => held)
    (fun other _ => watched.mutex other) (fun _ => rfl) (fun _ _ _ => rfl) (fun _ => .inl rfl)

theorem Watched.withdraw (watched : sys.Watched) (point : sys.threads thread = .withdrawing)
    (covered : (∀ other, sys.threads other ≠ .blocked) ∨ ∃ other, (sys.threads other).calls = true) :
    ({ sys with isWaiter := false }.setPoint thread .unlocking).Watched := by
  have held : (sys.threads thread).holds = true := by rw [point]; rfl
  refine Watched.turn (setPoint_same _) (fun _ => setPoint_other _) (fun _ => watched.mutex thread held)
    (fun other _ => watched.mutex other) nofun (fun other different known => ?_) ?_
  · -- no one else has the mutex, which a thread that relies on the flag has
    have apart := watched.alone held different
    rw [announces_holds known] at apart
    cases apart
  · rintro ⟨other,_,asleep⟩
    rcases covered with awake | ⟨caller,calls⟩
    · exact absurd asleep (awake other)
    · refine .inr ⟨caller,?_⟩
      have different : caller ≠ thread := by
        rintro rfl
        rw [point] at calls
        cases calls
      rwa [setPoint_other _ different]

theorem broadcast_awake (sys : WaiterSys Thread Item) (other : Thread) :
    sys.broadcast.threads other = .signalled ∨
      sys.broadcast.threads other = sys.threads other ∧ sys.threads other ≠ .blocked := by
  unfold broadcast
  dsimp only
  split
  next => exact .inl rfl
  next awake => exact .inr ⟨rfl,awake⟩

theorem Watched.wake (watched : sys.Watched) (point : sys.threads thread = .broadcasting) :
    (sys.broadcast.setPoint thread .releasing).Watched := by
  have held : sys.waiterMux = some thread := watched.mutex thread (by rw [point]; rfl)
  refine @Watched.turn _ _ _ sys.broadcast _ _ _ (setPoint_same _) (fun _ => setPoint_other _) (fun _ => held)
    (fun other _ owns => ?_) nofun (fun other _ known => ?_) ?_
  · rcases sys.broadcast_awake other with woken | ⟨same,_⟩
    · rw [woken] at owns
      cases owns
    · exact watched.mutex other (same ▸ owns)
  · rcases sys.broadcast_awake other with woken | ⟨same,_⟩
    · rw [woken] at known
      cases known
    · exact watched.announced other (same ▸ known)
  · rintro ⟨other,_,asleep⟩
    rcases sys.broadcast_awake other with woken | ⟨same,awake⟩
    · rw [woken] at asleep
      cases asleep
    · exact absurd (same ▸ asleep) awake

theorem Watched.go (watched : sys.Watched) (covered : sys.threads thread = .withdrawing →
      (∀ other, sys.threads other ≠ .blocked) ∨ ∃ other, (sys.threads other).calls = true)
    (moved : sys.go thread = some next) : next.Watched := by
  have either : ∀ {found missed : WaiterPoint} {kind : WaiterPoint → Prop}, kind found → kind missed →
      ∀ point, point = found ∨ point = missed → kind point := by
    rintro found missed kind first second point (rfl | rfl)
    · exact first
    · exact second
  unfold WaiterSys.go at moved
  split at moved
  next => cases moved
  next point =>
    cases moved
    exact watched.dequeue (either nofun nofun) (either nofun nofun) ⟨nofun,nofun⟩ (by rw [point]; rfl)
  next queue _ point =>
    cases moved
    exact watched.dequeue (either nofun nofun) (either nofun nofun) ⟨nofun,nofun⟩ (by rw [point]; rfl)
  next point => exact watched.lock moved rfl nofun (by rw [point]; nofun)
  next point => cases moved; exact watched.announce point
  next point =>
    cases moved
    refine watched.dequeue ?_ ?_ ⟨nofun,nofun⟩ (by rw [point]; rfl) <;> rw [point] <;> exact fun _ _ _ => rfl
  next queue _ point =>
    cases moved
    refine watched.dequeue ?_ ?_ ⟨nofun,nofun⟩ (by rw [point]; rfl) <;> rw [point] <;> exact fun _ _ _ => rfl
  next point =>
    cases moved
    have known := watched.announced thread (by rw [point]; rfl)
    exact watched.unlock (by rw [point]; rfl) rfl (by rw [point]; rfl) fun _ => known
  next => cases moved
  next point => exact watched.lock moved rfl nofun (by rw [point]; nofun)
  next point => cases moved; exact watched.withdraw point (covered point)
  next point => cases moved; exact watched.unlock (by rw [point]; rfl) rfl (by rw [point]; rfl) nofun
  next point =>
    cases moved
    split
    next => exact watched.idle_move point rfl nofun nofun nofun
    next => exact watched.idle_move point rfl nofun nofun nofun
  next point => exact watched.lock moved rfl nofun fun _ => rfl
  next point => cases moved; exact watched.wake point
  next point => cases moved; exact watched.unlock (by rw [point]; rfl) rfl (by rw [point]; rfl) nofun

theorem Watched.fail (watched : sys.Watched) (moved : sys.fail thread = some next) : next.Watched := by
  unfold WaiterSys.fail at moved
  split at moved
  next => cases moved; exact watched
  next point => cases moved; exact watched.idle_move point rfl nofun nofun nofun
  next queue _ point => cases moved; exact watched.idle_move point rfl nofun nofun nofun
  next point =>
    cases moved
    refine watched.move (setPoint_same _) (fun _ => setPoint_other _) rfl rfl ?_ ?_ nofun ?_ <;> rw [point]
    · exact fun _ => rfl
    · exact fun _ => rfl
    · nofun
  next queue _ point =>
    cases moved
    refine watched.move (setPoint_same _) (fun _ => setPoint_other _) rfl rfl ?_ ?_ nofun ?_ <;> rw [point]
    · exact fun _ => rfl
    · exact fun _ => rfl
    · nofun
  next => cases moved

theorem Watched.step (watched : sys.Watched) {act : WaiterAct Item} (covered : sys.Covered (thread,act))
    (moved : sys.step (thread,act) = some next) : next.Watched := by
  unfold WaiterSys.step at moved
  split at moved
  next point =>
    cases moved
    exact watched.idle_move point (by rfl) nofun nofun nofun
  next queue item _ point =>
    split at moved
    next => cases moved; exact watched
    next pushed push =>
      cases moved
      unfold vgcPush at push
      split at push <;> cases push
      exact watched.move (setPoint_same _) (fun _ => setPoint_other _) rfl rfl nofun nofun nofun
        (by rw [show _ = WaiterPoint.working from point]; nofun)
  next point =>
    cases moved
    exact watched.idle_move point (by rfl) nofun nofun nofun
  next => exact watched.go covered moved
  next => exact watched.fail moved
  next => cases moved

theorem init_watched (size : Nat) : (init size Thread Item).Watched where
  mutex := nofun
  announced := nofun
  covered asleep := by
    obtain ⟨thread,asleep⟩ := asleep
    cases asleep

end WaiterSys

/-- As long as a thread that takes a job with the mutex does not clear the flag of another one that sleeps, unless
a broadcast is on its way. -/
theorem run_announced {size : Nat} {Thread Item : Type} [DecidableEq Thread] {sys : WaiterSys Thread Item}
    (run : Run WaiterSys.step WaiterSys.Covered (WaiterSys.init size Thread Item) sys) : sys.Announced := by
  have watched : sys.Watched := run.invariant (WaiterSys.init_watched size)
    fun _ _ _ watched covered moved => watched.step covered moved
  intro quiet asleep
  refine (watched.covered asleep).resolve_right ?_
  rintro ⟨caller,calls⟩
  have outside := quiet caller
  rw [WaiterSys.calls_enqueues calls] at outside
  cases outside

def sleeper : List (Fin 3 × WaiterAct Nat) :=
  [(0,.enter),(0,.go),(0,.go),(0,.go),(0,.go),(0,.go),(0,.go),(0,.go),(0,.go),(0,.go)]

theorem run_announced_sleeper : ∃ sys : WaiterSys (Fin 3) Nat,
    replay WaiterSys.step WaiterSys.Covered (WaiterSys.init 4 (Fin 3) Nat) sleeper = some sys ∧
      sys.threads 0 = .blocked ∧ sys.Announced := by
  have ran : (replay WaiterSys.step WaiterSys.Covered (WaiterSys.init 4 (Fin 3) Nat) sleeper).map
      (fun sys => sys.threads 0) = some .blocked := by decide +kernel
  obtain ⟨sys,replayed,point⟩ := Option.map_eq_some_iff.mp ran
  exact ⟨sys,replayed,point,run_announced (Run.start.replay replayed)⟩

/-- A second thread takes the mutex; a job is pushed, which the second thread takes, clearing the flag. Then the
flag is loaded. -/
def flagCleared : List (Fin 3 × WaiterAct Nat) :=
  [(1,.enter),(1,.go),(1,.go),(1,.go),(1,.go),(1,.go),(2,.enqueue .hiQ 7),(1,.go),(1,.go),(2,.go)]

theorem run_announced_fails : ∃ sys : WaiterSys (Fin 3) Nat,
    Run WaiterSys.step (fun _ _ => True) (WaiterSys.init 4 (Fin 3) Nat) sys ∧
      (∀ thread, (sys.threads thread).enqueues = false) ∧ sys.threads 0 = .blocked ∧ sys.isWaiter = false := by
  have ran : (replay WaiterSys.step (fun _ _ => True) (WaiterSys.init 4 (Fin 3) Nat) (sleeper ++ flagCleared)).map
      (fun sys => decide ((∀ thread, (sys.threads thread).enqueues = false) ∧ sys.threads 0 = .blocked ∧
        sys.isWaiter = false)) = some true := by decide +kernel
  obtain ⟨sys,replayed,state⟩ := Option.map_eq_some_iff.mp ran
  exact ⟨sys,Run.start.replay replayed,of_decide_eq_true state⟩

end CSpock.Fibers
