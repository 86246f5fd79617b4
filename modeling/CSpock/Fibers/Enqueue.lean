import CSpock.Fibers.Queue
import CSpock.Fibers.Scheduler

/-! Jobs onto the rings of a scheduler, by calls that nothing else goes between. -/
namespace CSpock.Fibers

/-- What the exchanges of the calls of a ring do for no reason. -/
structure Exchanges where
  pop : List Bool
  enqueue : List Bool
  undo : List Bool

structure Exchanges.Succeed (exchanges : Exchanges) : Prop where
  pop : false ∈ exchanges.pop
  enqueue : false ∈ exchanges.enqueue
  undo : false ∈ exchanges.undo

/-- The rings, the memory of the fibers and that of the counters. To wake sleepers changes none of it. -/
structure VgcScheduler (size : Nat) (Counter Work : Type) where
  queues : RunQueue → VgcRingbuf (Fin size)
  freeQPool : VgcRingbuf (Pooled size)
  fibers : Fin size → FiberData Counter Work
  counters : Counter → VgcCounter size

namespace VgcScheduler
variable {size : Nat} {Counter Work : Type}

def setQueue (sched : VgcScheduler size Counter Work) (queue : RunQueue) (rb : VgcRingbuf (Fin size)) :
    VgcScheduler size Counter Work := { sched with queues := Function.update sched.queues queue rb }

def setPool (sched : VgcScheduler size Counter Work) (pool : VgcRingbuf (Pooled size)) :
    VgcScheduler size Counter Work := { sched with freeQPool := pool }

def vgcEnqueue (sched : VgcScheduler size Counter Work) (queue : RunQueue) (fiber : Fin size) (rounds : List Bool) :
    Option (Int × VgcScheduler size Counter Work) := do
  let pushed ← vgcPush (sched.queues queue) fiber rounds
  return (if pushed.1 ≠ 0 then -1 else 0,sched.setQueue queue pushed.2)

/-- `vgc_enque_job` from `err` on. It is the address of the variable that is pushed, not what it holds; a process
that exits has no next state. -/
def err (sched : VgcScheduler size Counter Work) (rounds : List Bool) :
    Option (Int × VgcScheduler size Counter Work) := do
  let pushed ← vgcPush sched.freeQPool .stray rounds
  if pushed.1 ≠ 0 then none else some (-1,sched.setPool pushed.2)

def assign (sched : VgcScheduler size Counter Work) (fiber : Fin size) (job : VgcJob Work) (count : Option Counter) :
    VgcScheduler size Counter Work :=
  { sched with
    fibers := Function.update sched.fibers fiber
      { sched.fibers fiber with work := some job.work, priority := job.priority, parentCount := count } }

def place (sched : VgcScheduler size Counter Work) (fiber : Fin size) (priority : FiberPriority)
    (exchanges : Exchanges) : Option (Int × VgcScheduler size Counter Work) :=
  match priority.queue with
  | none => sched.err exchanges.undo
  | some queue => do
    let enqueued ← sched.vgcEnqueue queue fiber exchanges.enqueue
    if enqueued.1 ≠ 0 then enqueued.2.err exchanges.undo else some (0,enqueued.2)

def vgcEnqueJob (sched : VgcScheduler size Counter Work) (job : VgcJob Work) (count : Option Counter)
    (exchanges : Exchanges) : Option (Int × VgcScheduler size Counter Work) := do
  let popped ← vgcPop sched.freeQPool exchanges.pop
  match popped.1 with
  | none => some (-1,sched.setPool popped.2)
  -- what is behind the address is not known
  | some .stray => none
  | some (.fiber fiber) => ((sched.setPool popped.2).assign fiber job count).place fiber job.priority exchanges

/-- The loop of `vgc_schedule_jobs` from an index on, with what is left of the array. -/
def scheduleFrom (count : Option Counter) (exchanges : Nat → Exchanges) :
    Nat → Nat → List (VgcJob Work) → VgcScheduler size Counter Work → Option (Int × VgcScheduler size Counter Work)
  | 0,_,_,sched => some (0,sched)
  | _+1,_,[],_ => none
  | left+1,index,job::jobs,sched => do
    let enqueued ← sched.vgcEnqueJob job count (exchanges index)
    if enqueued.1 ≠ 0 then some (index,enqueued.2) else scheduleFrom count exchanges left (index+1) jobs enqueued.2

def initCounter [DecidableEq Counter] (sched : VgcScheduler size Counter Work) (len : Int) :
    Option Counter → VgcScheduler size Counter Work
  | none => sched
  | some count => { sched with counters := Function.update sched.counters count (vgcCounterInit len) }

def vgcScheduleJobs [DecidableEq Counter] (sched : VgcScheduler size Counter Work) (jobs : List (VgcJob Work))
    (len : Int) (count : Option Counter) (exchanges : Nat → Exchanges) :
    Option (Int × VgcScheduler size Counter Work) :=
  scheduleFrom count exchanges len.toNat 0 jobs (sched.initCounter len count)

/-- The loop of `vgc_scheduler_init`, which does not look at what its pushes return. -/
def fill (rounds : Nat → List Bool) : List (Fin size) → VgcRingbuf (Pooled size) → Option (VgcRingbuf (Pooled size))
  | [],pool => some pool
  | fiber::fibers,pool => do
    let pushed ← vgcPush pool (.fiber fiber) (rounds fiber)
    fill rounds fibers pushed.2

/-- The memory is as it comes. A size that is refused leaves a scheduler of zeros. -/
def vgcSchedulerInit (queue : Nat → Fin size) (pool : Nat → Pooled size) (counters : Counter → VgcCounter size)
    (rounds : Nat → List Bool) : Option (VgcScheduler size Counter Work) :=
  if size < 2 ∨ size &&& (size - 1) ≠ 0 then none else do
    let freeQPool ← fill rounds (List.finRange size) (vgcRingbufInit pool size)
    return ⟨fun _ => vgcRingbufInit queue size,freeQPool,fun _ => ⟨.start,.other,none,none,none⟩,counters⟩

def free (sched : VgcScheduler size Counter Work) : List (Pooled size) := sched.freeQPool.held

def queued (sched : VgcScheduler size Counter Work) (queue : RunQueue) : List (Fin size) := (sched.queues queue).held

/-- A scheduler whose rings hold any contents, the pool only fibers of its own. -/
structure Sound (sched : VgcScheduler size Counter Work) : Prop where
  pool : ∃ first, Queued size sched.freeQPool first sched.free
  queues : ∀ queue, ∃ first, Queued size (sched.queues queue) first (sched.queued queue)
  own : ∀ entry ∈ sched.free, ∃ fiber, entry = .fiber fiber

/-- There is a fiber for a job, and room in the queue of its priority, which has one. -/
def Accepts (sched : VgcScheduler size Counter Work) (job : VgcJob Work) : Prop :=
  sched.free ≠ [] ∧ ∃ queue, job.priority.queue = some queue ∧ (sched.queued queue).length < size

/-- The job is on its way: the first of the free fibers has it, and is the last in the queue of its priority. -/
def Enqueued (count : Option Counter) (job : VgcJob Work) (sched after : VgcScheduler size Counter Work) : Prop :=
  ∃ fiber rest queue, sched.free = .fiber fiber::rest ∧ job.priority.queue = some queue ∧ after.free = rest ∧
    after.queued = Function.update sched.queued queue (sched.queued queue ++ [fiber]) ∧
    after.fibers = (sched.assign fiber job count).fibers ∧ after.counters = sched.counters

inductive AllEnqueued (count : Option Counter) :
    List (VgcJob Work) → VgcScheduler size Counter Work → VgcScheduler size Counter Work → Prop where
  | nil {sched : VgcScheduler size Counter Work} : AllEnqueued count [] sched sched
  | cons {job : VgcJob Work} {jobs : List (VgcJob Work)} {sched between after : VgcScheduler size Counter Work}
      (first : Enqueued count job sched between) (rest : AllEnqueued count jobs between after) :
      AllEnqueued count (job::jobs) sched after

variable {sched after : VgcScheduler size Counter Work} {job : VgcJob Work} {count : Option Counter}
  {exchanges : Exchanges}

theorem fill_queued (power : RingSize size) {rounds : Nat → List Bool} (succeed : ∀ index, false ∈ rounds index)
    (fibers : List (Fin size)) {pool : VgcRingbuf (Pooled size)} {first : Nat} {entries : List (Pooled size)}
    (queued : Queued size pool first entries) (room : entries.length + fibers.length ≤ size) :
    ∃ filled, fill rounds fibers pool = some filled ∧ Queued size filled first (entries ++ fibers.map .fiber) := by
  induction fibers generalizing pool entries with
  | nil => exact ⟨pool,rfl,by simpa using queued⟩
  | cons fiber fibers ih =>
    rw [List.length_cons] at room
    rcases queued.vgcPush power (.fiber fiber) (succeed fiber) with ⟨more,pushed⟩ | ⟨full,_⟩
    · obtain ⟨filled,ran,joined⟩ := ih (queued.put power more (.fiber fiber))
        (by rw [List.length_append,List.length_singleton]; omega)
      refine ⟨filled,by simpa [fill,pushed] using ran,?_⟩
      simpa [List.append_assoc] using joined
    · omega

theorem vgcSchedulerInit_sound (power : RingSize size) (queue : Nat → Fin size) (pool : Nat → Pooled size)
    (counters : Counter → VgcCounter size) {rounds : Nat → List Bool} (succeed : ∀ index, false ∈ rounds index) :
    ∃ sched : VgcScheduler size Counter Work, vgcSchedulerInit queue pool counters rounds = some sched ∧ sched.Sound ∧
      sched.free = (List.finRange size).map .fiber ∧ ∀ queue, sched.queued queue = [] := by
  have two := power.two_le
  have accepted : ¬(size < 2 ∨ size &&& (size - 1) ≠ 0) := by
    rw [power.and_mask,Nat.mod_self]
    omega
  obtain ⟨filled,ran,full⟩ := fill_queued power succeed (List.finRange size) (Queued.init power pool) (by simp)
  have held := full.held_eq power
  have none_queued : (vgcRingbufInit queue size).held = [] := (Queued.init power queue).held_eq power
  refine ⟨⟨fun _ => vgcRingbufInit queue size,filled,fun _ => ⟨.start,.other,none,none,none⟩,counters⟩,?_,
    ⟨⟨0,?_⟩,fun _ => ⟨0,?_⟩,?_⟩,?_,fun _ => none_queued⟩
  · rw [vgcSchedulerInit,if_neg accepted,ran]
    rfl
  · rwa [free,held]
  · rw [queued,none_queued]
    exact Queued.init power queue
  · intro entry member
    rw [free,held,List.nil_append] at member
    obtain ⟨fiber,_,same⟩ := List.mem_map.mp member
    exact ⟨fiber,same.symm⟩
  · rw [free,held,List.nil_append]

/-- The undo finds room in the pool, which the fiber came from, and leaves the address of the variable there. -/
theorem err_pushes (sched : VgcScheduler size Counter Work) (power : RingSize size) {first : Nat} {rest : List (Pooled size)}
    (pool : Queued size sched.freeQPool first rest) (room : rest.length < size) {rounds : List Bool}
    (succeeds : false ∈ rounds) :
    ∃ after, sched.err rounds = some (-1,after) ∧ after.queues = sched.queues ∧ after.free = rest ++ [.stray] := by
  rcases pool.vgcPush power .stray succeeds with ⟨_,pushed⟩ | ⟨full,_⟩
  · refine ⟨sched.setPool (sched.freeQPool.put sched.freeQPool.tail .stray),?_,rfl,
      (pool.put power room .stray).held_eq power⟩
    simp [err,pushed]
  · exact absurd full (Nat.ne_of_lt room)

theorem vgcEnqueue_cases (sched : VgcScheduler size Counter Work) (power : RingSize size) {queue : RunQueue}
    {first : Nat} {items : List (Fin size)} (queued : Queued size (sched.queues queue) first items) (fiber : Fin size)
    {rounds : List Bool} (succeeds : false ∈ rounds) :
    (items.length < size ∧ ∃ rb, Queued size rb first (items ++ [fiber]) ∧
      sched.vgcEnqueue queue fiber rounds = some (0,sched.setQueue queue rb)) ∨
    (items.length = size ∧ sched.vgcEnqueue queue fiber rounds = some (-1,sched)) := by
  rcases queued.vgcPush power fiber succeeds with ⟨more,pushed⟩ | ⟨full,pushed⟩
  · exact .inl ⟨more,_,queued.put power more fiber,by simp [vgcEnqueue,pushed]⟩
  · exact .inr ⟨full,by simp [vgcEnqueue,pushed,setQueue]⟩

theorem Sound.moves (sound : sched.Sound) (power : RingSize size) {fiber : Fin size} {rest : List (Pooled size)}
    {pool : VgcRingbuf (Pooled size)} {rb : VgcRingbuf (Fin size)} {queue : RunQueue} {first start : Nat}
    (holds : sched.free = .fiber fiber::rest) (valid : job.priority.queue = some queue)
    (left : Queued size pool first rest) (joined : Queued size rb start (sched.queued queue ++ [fiber])) :
    Enqueued count job sched (((sched.setPool pool).assign fiber job count).setQueue queue rb) ∧
      (((sched.setPool pool).assign fiber job count).setQueue queue rb).Sound := by
  have held : pool.held = rest := left.held_eq power
  refine ⟨⟨fiber,rest,queue,holds,valid,held,?_,rfl,rfl⟩,⟨first,?_⟩,fun other => ?_,fun entry member => ?_⟩
  · have joint := Function.comp_update VgcRingbuf.held sched.queues queue rb
    rw [joined.held_eq power] at joint
    exact joint
  · rwa [← held] at left
  · by_cases here : other = queue
    · subst here
      have now : (((sched.setPool pool).assign fiber job count).setQueue other rb).queues other = rb :=
        Function.update_self ..
      rw [queued,now,joined.held_eq power]
      exact ⟨start,joined⟩
    · have same : (((sched.setPool pool).assign fiber job count).setQueue queue rb).queues other = sched.queues other :=
        Function.update_of_ne here ..
      rw [queued,same]
      exact sound.queues other
  · refine sound.own entry ?_
    rw [holds]
    exact List.mem_cons_of_mem _ (held ▸ member)

theorem vgcEnqueJob_cases (sound : sched.Sound) (power : RingSize size) (job : VgcJob Work) (count : Option Counter)
    (succeed : exchanges.Succeed) :
    (sched.free = [] ∧ sched.vgcEnqueJob job count exchanges = some (-1,sched)) ∨
    (∃ after, sched.Accepts job ∧ sched.vgcEnqueJob job count exchanges = some (0,after) ∧
      Enqueued count job sched after ∧ after.Sound) ∨
    (∃ fiber rest after, sched.free = .fiber fiber::rest ∧ ¬sched.Accepts job ∧
      sched.vgcEnqueJob job count exchanges = some (-1,after) ∧ after.queues = sched.queues ∧
      after.free = rest ++ [.stray]) := by
  obtain ⟨first,pool⟩ := sound.pool
  rcases pool.vgcPop power succeed.pop with ⟨entry,rest,holds,popped⟩ | ⟨empty,popped⟩
  · obtain ⟨fiber,rfl⟩ := sound.own entry (holds ▸ List.mem_cons_self)
    rw [holds] at pool
    have left := pool.release power
    let taken := (sched.setPool (sched.freeQPool.release sched.freeQPool.head)).assign fiber job count
    have run : sched.vgcEnqueJob job count exchanges = taken.place fiber job.priority exchanges := by
      simp only [vgcEnqueJob,popped,Option.bind_eq_bind,Option.bind_some]
      rfl
    obtain ⟨after,undone,same,held⟩ := err_pushes taken power left pool.room succeed.undo
    cases valid : job.priority.queue with
    | none =>
      simp only [place,valid] at run
      refine .inr (.inr ⟨fiber,rest,after,holds,?_,run.trans undone,same,held⟩)
      rintro ⟨_,queue,found,_⟩
      cases found.symm.trans valid
    | some queue =>
      simp only [place,valid] at run
      obtain ⟨start,queued⟩ := sound.queues queue
      rcases vgcEnqueue_cases taken power queued fiber succeed.enqueue with ⟨more,rb,joined,sent⟩ | ⟨full,sent⟩
      · simp only [sent,Option.bind_eq_bind,Option.bind_some] at run
        exact .inr (.inl ⟨_,⟨by rw [holds]; exact List.cons_ne_nil _ _,queue,valid,more⟩,run,
          sound.moves power holds valid left joined⟩)
      · simp only [sent,Option.bind_eq_bind,Option.bind_some] at run
        refine .inr (.inr ⟨fiber,rest,after,holds,?_,run.trans undone,same,held⟩)
        rintro ⟨_,other,found,room⟩
        cases found.symm.trans valid
        exact Nat.ne_of_lt room full
  · refine .inl ⟨empty,?_⟩
    simp [vgcEnqueJob,popped,setPool]

theorem vgcEnqueJob_accepts (sound : sched.Sound) (power : RingSize size) (job : VgcJob Work)
    (count : Option Counter) (succeed : exchanges.Succeed) :
    (∃ after, sched.Accepts job ∧ sched.vgcEnqueJob job count exchanges = some (0,after) ∧
      Enqueued count job sched after ∧ after.Sound) ∨
    (∃ after, ¬sched.Accepts job ∧ sched.vgcEnqueJob job count exchanges = some (-1,after) ∧
      after.free.length = sched.free.length) := by
  rcases vgcEnqueJob_cases sound power job count succeed with
    ⟨empty,ran⟩ | accepted | ⟨fiber,rest,after,holds,refused,ran,_,held⟩
  · exact .inr ⟨sched,fun accepts => accepts.1 empty,ran,rfl⟩
  · exact .inl accepted
  · exact .inr ⟨after,refused,ran,by rw [holds,held,List.length_append]; rfl⟩

structure Restored (sched after : VgcScheduler size Counter Work) : Prop where
  queues : after.queues = sched.queues
  pool : ∀ entry, entry ∈ after.free ↔ entry ∈ sched.free
  own : ∀ entry ∈ after.free, ∃ fiber, entry = .fiber fiber

/-- A failed enqueue restores the scheduler exactly when it failed for want of a fiber. -/
theorem vgcEnqueJob_restores (power : RingSize size) (sound : sched.Sound) (job : VgcJob Work) (count : Option Counter)
    (succeed : exchanges.Succeed) :
    ∃ result after, sched.vgcEnqueJob job count exchanges = some (result,after) ∧
      ((result = -1 → Restored sched after) ↔ sched.free = [] ∨ sched.Accepts job) := by
  rcases vgcEnqueJob_cases sound power job count succeed with
    ⟨empty,ran⟩ | ⟨after,accepts,ran,_⟩ | ⟨fiber,rest,after,holds,refused,ran,_,held⟩
  · exact ⟨-1,sched,ran,fun _ => .inl empty,fun _ _ => ⟨rfl,fun _ => Iff.rfl,sound.own⟩⟩
  · exact ⟨0,after,ran,fun _ => .inr accepts,fun _ failed => absurd failed (by decide)⟩
  · refine ⟨-1,after,ran,fun restored => ?_,fun possible => ?_⟩
    · have left : .stray ∈ after.free := by rw [held]; exact List.mem_append_right _ (List.mem_singleton_self _)
      obtain ⟨fiber,same⟩ := (restored rfl).own _ left
      cases same
    · rcases possible with empty | accepts
      · cases holds.symm.trans empty
      · exact absurd accepts refused

def atOnce : Exchanges := ⟨[false],[false],[false]⟩

theorem atOnce_succeed : atOnce.Succeed :=
  ⟨List.mem_singleton_self _,List.mem_singleton_self _,List.mem_singleton_self _⟩

def bothBusy (Work : Type) : VgcScheduler 2 Unit Work where
  queues _ := vgcRingbufInit (fun _ => ⟨0,Nat.two_pos⟩) 2
  freeQPool := vgcRingbufInit (fun _ => .stray) 2
  fibers _ := ⟨.run,.mid,none,none,none⟩
  counters _ := vgcCounterInit 0

theorem ringSize_two : RingSize 2 := ⟨1,Nat.le_refl 1,by decide,rfl⟩

theorem bothBusy_free (Work : Type) : (bothBusy Work).free = [] :=
  Queued.held_eq (Queued.init ringSize_two _) ringSize_two

theorem bothBusy_sound (Work : Type) : (bothBusy Work).Sound := by
  have pool : Queued 2 (bothBusy Work).freeQPool 0 [] := Queued.init ringSize_two _
  have run (queue : RunQueue) : Queued 2 ((bothBusy Work).queues queue) 0 [] := Queued.init ringSize_two _
  have none_queued (queue : RunQueue) : (bothBusy Work).queued queue = [] := (run queue).held_eq ringSize_two
  refine ⟨⟨0,bothBusy_free Work ▸ pool⟩,fun queue => ⟨0,none_queued queue ▸ run queue⟩,?_⟩
  rw [bothBusy_free]
  nofun

theorem vgcEnqueJob_restores_refused : ∃ (result : Int) (after : VgcScheduler 2 Unit Unit),
    (bothBusy Unit).vgcEnqueJob ⟨(),.hi⟩ none atOnce = some (result,after) ∧ result = -1 ∧
      ((result = -1 → Restored (bothBusy Unit) after) ↔
        (bothBusy Unit).free = [] ∨ (bothBusy Unit).Accepts ⟨(),.hi⟩) := by
  obtain ⟨result,after,ran,restores⟩ :=
    vgcEnqueJob_restores ringSize_two (bothBusy_sound Unit) ⟨(),.hi⟩ none atOnce_succeed
  have refused : (bothBusy Unit).vgcEnqueJob ⟨(),.hi⟩ none atOnce = some (-1,bothBusy Unit) := rfl
  exact ⟨result,after,ran,(Prod.mk.inj (Option.some.inj (ran.symm.trans refused))).1,restores⟩

/-- A job of an invalid priority, on a scheduler that has just been set up. -/
theorem vgcEnqueJob_restores_fails : ∃ sched after : VgcScheduler 2 Unit Unit,
    vgcSchedulerInit (fun _ => 0) (fun _ => .stray) (fun _ => vgcCounterInit 0) (fun _ => [false]) = some sched ∧
      sched.vgcEnqueJob ⟨(),.other⟩ none atOnce = some (-1,after) ∧ .fiber 0 ∈ sched.free ∧ .fiber 0 ∉ after.free ∧
      .stray ∈ after.free ∧ ¬Restored sched after := by
  obtain ⟨sched,started,sound,holds,_⟩ := vgcSchedulerInit_sound ringSize_two (fun _ => 0) (fun _ => .stray)
    (fun _ : Unit => vgcCounterInit 0) (fun _ => List.mem_singleton_self false)
  have refused : ¬sched.Accepts (⟨(),.other⟩ : VgcJob Unit) := fun accepts => by
    obtain ⟨_,queue,found,_⟩ := accepts
    cases found
  rcases vgcEnqueJob_cases sound ringSize_two ⟨(),.other⟩ none atOnce_succeed with
    ⟨empty,_⟩ | ⟨_,accepts,_⟩ | ⟨fiber,rest,after,same,_,ran,_,held⟩
  · cases holds.symm.trans empty
  · exact absurd accepts refused
  · cases holds.symm.trans same
    have lost : .fiber 0 ∉ after.free := by rw [held]; decide
    have here : .fiber 0 ∈ sched.free := by rw [holds]; decide
    exact ⟨sched,after,started,ran,here,lost,by rw [held]; decide,fun restored => lost ((restored.pool _).mpr here)⟩

theorem AllEnqueued.free_length {jobs : List (VgcJob Work)} (all : AllEnqueued count jobs sched after) :
    after.free.length + jobs.length = sched.free.length := by
  induction all with
  | nil => rfl
  | cons first _ ih =>
    obtain ⟨fiber,rest,queue,holds,_,left,_⟩ := first
    rw [left] at ih
    rw [holds,List.length_cons,List.length_cons,← ih]
    omega

theorem AllEnqueued.queued_length {jobs : List (VgcJob Work)} {queue : RunQueue}
    (all : AllEnqueued count jobs sched after) (alike : ∀ job ∈ jobs, job.priority.queue = some queue) :
    (after.queued queue).length = (sched.queued queue).length + jobs.length := by
  induction all with
  | nil => rfl
  | cons first _ ih =>
    obtain ⟨fiber,rest,other,_,valid,_,joined,_⟩ := first
    cases valid.symm.trans (alike _ List.mem_cons_self)
    rw [ih fun job member => alike job (List.mem_cons_of_mem _ member),joined,Function.update_self]
    simp only [List.length_append,List.length_cons,List.length_nil]
    omega

theorem Enqueued.grows (once : Enqueued count job sched after) (queue : RunQueue) :
    (sched.queued queue).length ≤ (after.queued queue).length := by
  obtain ⟨fiber,rest,other,_,_,_,joined,_⟩ := once
  rw [joined]
  by_cases here : queue = other
  · rw [here,Function.update_self,List.length_append]
    omega
  · rw [Function.update_of_ne here]

theorem AllEnqueued.grows {jobs : List (VgcJob Work)} (all : AllEnqueued count jobs sched after) (queue : RunQueue) :
    (sched.queued queue).length ≤ (after.queued queue).length := by
  induction all with
  | nil => exact Nat.le_refl _
  | cons first _ ih => exact Nat.le_trans (first.grows queue) ih

theorem AllEnqueued.accepts {jobs : List (VgcJob Work)} (all : AllEnqueued count (job::jobs) sched after)
    (sound : after.Sound) : sched.Accepts job := by
  cases all with
  | @cons _ _ _ between _ first rest =>
    obtain ⟨fiber,left,queue,holds,valid,_,joined,_⟩ := first
    obtain ⟨_,queued⟩ := sound.queues queue
    have more := rest.grows queue
    have room := queued.room
    rw [joined,Function.update_self,List.length_append,List.length_singleton] at more
    exact ⟨by rw [holds]; exact List.cons_ne_nil _ _,queue,valid,by omega⟩

/-- The loop goes over the jobs that are accepted, and ends at the first that is not. -/
theorem scheduleFrom_cases (count : Option Counter) (power : RingSize size) {exchanges : Nat → Exchanges}
    (succeed : ∀ index, (exchanges index).Succeed) (left index : Nat) {jobs : List (VgcJob Work)}
    (enough : left ≤ jobs.length) (sound : sched.Sound) :
    (∃ after, scheduleFrom count exchanges left index jobs sched = some (0,after) ∧
      AllEnqueued count (jobs.take left) sched after ∧ after.Sound) ∨
    (∃ done job between after, done < left ∧ jobs[done]? = some job ∧ AllEnqueued count (jobs.take done) sched between ∧
      between.Sound ∧ ¬between.Accepts job ∧ after.free.length = between.free.length ∧
      between.vgcEnqueJob job count (exchanges (index+done)) = some (-1,after) ∧
      scheduleFrom count exchanges left index jobs sched = some (((index + done : Nat) : Int),after)) := by
  induction left generalizing index jobs sched with
  | zero => exact .inl ⟨sched,rfl,.nil,sound⟩
  | succ left ih =>
    obtain ⟨job,rest,rfl⟩ : ∃ job rest, jobs = job::rest := List.exists_cons_of_length_pos (by omega)
    rcases vgcEnqueJob_accepts sound power job count (succeed index) with
      ⟨between,_,ran,first,sound⟩ | ⟨after,refused,ran,same⟩
    · have on : scheduleFrom count exchanges (left+1) index (job::rest) sched =
          scheduleFrom count exchanges left (index+1) rest between := by
        simp [scheduleFrom,ran]
      rw [on]
      rcases ih (index+1) (Nat.le_of_succ_le_succ enough) sound with
        ⟨after,ended,all,sound⟩ | ⟨done,late,last,after,less,there,all,sound,refused,same,failed,ended⟩
      · exact .inl ⟨after,ended,.cons first all,sound⟩
      · rw [Nat.add_right_comm,Nat.add_assoc] at failed ended
        exact .inr ⟨done+1,late,last,after,Nat.succ_lt_succ less,there,.cons first all,sound,refused,same,failed,ended⟩
    · refine .inr ⟨0,job,sched,after,Nat.succ_pos left,rfl,.nil,sound,refused,same,ran,?_⟩
      simp [scheduleFrom,ran]

def room (sched : VgcScheduler size Counter Work) (queue : RunQueue) : Nat :=
  min sched.free.length (size - (sched.queued queue).length)

/-- Of jobs that are all for one queue, as many are enqueued as there is room for. -/
theorem scheduleFrom_room (count : Option Counter) (power : RingSize size) {exchanges : Nat → Exchanges}
    (succeed : ∀ index, (exchanges index).Succeed) (left index : Nat) {jobs : List (VgcJob Work)}
    (enough : left ≤ jobs.length) (sound : sched.Sound) {queue : RunQueue}
    (alike : ∀ job ∈ jobs, job.priority.queue = some queue) :
    (left ≤ sched.room queue ∧ ∃ after, scheduleFrom count exchanges left index jobs sched = some (0,after) ∧
      AllEnqueued count (jobs.take left) sched after) ∨
    (sched.room queue < left ∧ ∃ after, after.free.length + sched.room queue = sched.free.length ∧
      scheduleFrom count exchanges left index jobs sched = some (((index + sched.room queue : Nat) : Int),after)) := by
  have some_alike (len : Nat) : ∀ job ∈ jobs.take len, job.priority.queue = some queue :=
    fun job member => alike job (List.mem_of_mem_take member)
  rcases scheduleFrom_cases count power succeed left index enough sound with
    ⟨after,ran,all,sound⟩ | ⟨done,job,between,after,less,there,all,sound,refused,same,_,ran⟩
  · have fibers := all.free_length
    have places := all.queued_length (some_alike left)
    obtain ⟨_,queued⟩ := sound.queues queue
    have bound := queued.room
    rw [List.length_take,Nat.min_eq_left enough] at fibers places
    exact .inl ⟨by unfold room; omega,after,ran,all⟩
  · have fibers := all.free_length
    have places := all.queued_length (some_alike done)
    obtain ⟨_,queued⟩ := sound.queues queue
    have bound := queued.room
    rw [List.length_take,Nat.min_eq_left (by omega)] at fibers places
    have used_up : between.free.length = 0 ∨ size ≤ (between.queued queue).length := by
      by_contra more
      rw [not_or,not_le,List.length_eq_zero_iff] at more
      exact refused ⟨more.1,queue,alike job (List.mem_of_getElem? there),more.2⟩
    have exact_ : done = sched.room queue := by unfold room; omega
    exact .inr ⟨exact_ ▸ less,after,by omega,exact_ ▸ ran⟩

section Counters
variable [DecidableEq Counter]

theorem initCounter_free (sched : VgcScheduler size Counter Work) (len : Int) (count : Option Counter) :
    (sched.initCounter len count).free = sched.free := by cases count <;> rfl

theorem initCounter_queued (sched : VgcScheduler size Counter Work) (len : Int) (count : Option Counter) :
    (sched.initCounter len count).queued = sched.queued := by cases count <;> rfl

theorem Sound.initCounter (sound : sched.Sound) (len : Int) (count : Option Counter) :
    (sched.initCounter len count).Sound := by
  cases count with
  | none => exact sound
  | some count => exact ⟨sound.pool,sound.queues,sound.own⟩

theorem initCounter_accepts (sched : VgcScheduler size Counter Work) (len : Int) (count : Option Counter)
    (job : VgcJob Work) : (sched.initCounter len count).Accepts job ↔ sched.Accepts job := by cases count <;> rfl

/-- The result says whether all of the jobs were enqueued exactly when the first of them was, if there is one. -/
theorem vgcScheduleJobs_tells (power : RingSize size) (sound : sched.Sound) (jobs : List (VgcJob Work))
    (count : Option Counter) {exchanges : Nat → Exchanges} (succeed : ∀ index, (exchanges index).Succeed) :
    ∃ result after, sched.vgcScheduleJobs jobs jobs.length count exchanges = some (result,after) ∧
      ((result = 0 ↔ AllEnqueued count jobs (sched.initCounter jobs.length count) after) ↔
        ∀ job, jobs.head? = some job → sched.Accepts job) := by
  have start := sound.initCounter jobs.length count
  rcases scheduleFrom_cases count power succeed jobs.length 0 (Nat.le_refl _) start with
    ⟨after,ran,all,sound⟩ | ⟨done,job,between,after,less,there,all,sound,refused,same,_,ran⟩
  · rw [List.take_length] at all
    refine ⟨0,after,ran,fun _ job first => ?_,fun _ => ⟨fun _ => all,fun _ => rfl⟩⟩
    obtain ⟨rest,rfl⟩ : ∃ rest, jobs = job::rest := List.head?_eq_some_iff.mp first
    exact (initCounter_accepts ..).mp (all.accepts sound)
  · have some_left : ¬AllEnqueued count jobs (sched.initCounter jobs.length count) after := by
      intro whole
      have total := whole.free_length
      have part := all.free_length
      rw [List.length_take] at part
      omega
    rw [Nat.zero_add] at ran
    cases done with
    | zero =>
      cases all
      refine ⟨0,after,ran,fun tells => absurd (tells.mp rfl) some_left,fun accepts => ?_⟩
      exact absurd ((initCounter_accepts ..).mpr (accepts job (by rw [List.head?_eq_getElem?,there]))) refused
    | succ done =>
      refine ⟨_,after,ran,fun _ job first => ?_,fun _ => ⟨fun zero => by omega,fun whole => absurd whole some_left⟩⟩
      obtain ⟨rest,rfl⟩ : ∃ rest, jobs = job::rest := List.head?_eq_some_iff.mp first
      exact (initCounter_accepts ..).mp (AllEnqueued.accepts all sound)

end Counters

end VgcScheduler

end CSpock.Fibers
