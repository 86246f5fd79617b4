import CSpock.Fibers.Invariant
import CSpock.Fibers.Ring

/-! What the users of a counter can rely on in every run of the job system. -/
set_option linter.unusedSectionVars false
namespace CSpock.Fibers
open CSpock.Library.Transition

variable {size : Nat} {Thread Counter Work : Type} [DecidableEq Thread] [DecidableEq Counter]

namespace Sys

variable {sys : Sys size Thread Counter Work} {counters : Counter → VgcCounter size}

theorem init_sound : (vgcSchedulerInit size counters : Sys size Thread Counter Work).Sound where
  tidy := by
    refine ⟨fun place => ?_,fun fiber here there first second => ?_⟩
    · cases place with
      | pool =>
        change (((List.finRange size).map Pooled.fiber).filterMap Pooled.held).Nodup
        rw [List.filterMap_map,show Pooled.held ∘ Pooled.fiber = some from rfl,List.filterMap_some]
        exact List.nodup_finRange size
      | queue queue => exact List.nodup_nil
      | host thread => exact List.nodup_nil
      | hand thread => exact List.nodup_nil
      | waiting count => exact List.nodup_nil
    · cases here <;> cases there <;> first | rfl | cases first | cases second
  mutex := nofun
  locked := nofun
  sole := nofun
  known := nofun
  knows _ := trivial
  settled := nofun
  carried := nofun
  fits fiber place found := by
    cases place with
    | pool => rfl
    | queue queue => cases found
    | host thread => cases found
    | hand thread => cases found
    | waiting count => cases found

/-- What holds of a counter that was set, whatever fails: `live` of its jobs have been enqueued and not been processed,
and `missing` of them have not been enqueued. -/
structure Counts (sys : Sys size Thread Counter Work) (count : Counter) (batch : Batch size) : Prop where
  field : (sys.counters count).counter = sys.live count + batch.missing
  passes : ∀ thread fiber, sys.threads thread = .leaving fiber count false → sys.live count = 0 ∧ batch.missing = 0
  wakes : ∀ thread fiber index, sys.threads thread = .waking fiber count index →
    sys.live count = 0 ∧ batch.missing = 0
  sleeps : ∀ fiber ∈ sys.pending count, Pooled.fiber fiber ∉ sys.freeQPool ∧ (∀ queue, fiber ∉ sys.queues queue) ∧
    ∀ thread, (sys.threads thread).host ≠ some fiber

/-- The protocol of a counter, with the waiters that have entered a run queue since it was set: none has that is not
recorded, none twice, the others are nowhere, and none is left when the counter is 0 and its lock is free. -/
structure Protocol (sys : Sys size Thread Counter Work) (entered : List (Fin size)) (count : Counter)
    (batch : Batch size) : Prop where
  counts : sys.Counts count batch
  once : (sys.counters count).waiters.Nodup ∧ entered <+: (sys.counters count).waiters
  sleeps : ∀ fiber ∈ (sys.counters count).waiters, fiber ∉ entered → Pooled.fiber fiber ∉ sys.freeQPool ∧
    (∀ queue, fiber ∉ sys.queues queue) ∧ ∀ thread, (sys.threads thread).host ≠ some fiber
  all : (sys.counters count).lock = false → (sys.counters count).counter = 0 → entered = (sys.counters count).waiters

def arrivals (sys next : Sys size Thread Counter Work) : List (Fin size) :=
  [RunQueue.hiQ,.midQ,.loQ].flatMap fun queue => (next.queues queue).drop (sys.queues queue).length

/-- An observer notes for each counter what enters a run queue in the loop over its waiters, since it was set. -/
def enter (sys : Sys size Thread Counter Work) (label : Thread × Act Counter Work) (next : Sys size Thread Counter Work)
    (entered : Counter → List (Fin size)) : Counter → List (Fin size) :=
  match label.2,sys.threads label.1 with
  | .schedule _ _ (some count) _,_ => Function.update entered count []
  | _,.waking _ count _ => Function.update entered count (entered count ++ sys.arrivals next)
  | _,_ => entered

/-- No push of a waiter comes to a cell whose pop, of the round before, has claimed it and is not done. -/
def Unhindered (sys : Sys size Thread Counter Work) (label : Thread × Act Counter Work) : Prop :=
  sys.Permits label ∧ (label.2.fails = true → (sys.threads label.1).wakes = none)

instance [Fintype Thread] (sys : Sys size Thread Counter Work) (label : Thread × Act Counter Work) :
    Decidable (sys.Unhindered label) := inferInstanceAs (Decidable (_ ∧ (_ → _)))

/-- A waiter passes over the list of those that were put on a queue, one at a time and in order. -/
theorem Sound.woken_prefix (sound : sys.Sound) {count : Counter} {batch : Batch size}
    (set : sys.batches count = some batch) : batch.woken <+: (sys.counters count).waiters := by
  have settled := sound.settled count batch set
  by_cases zero : (sys.counters count).counter = 0
  · rcases settled.awake zero with all | ⟨thread,wakes⟩
    · exact all ▸ List.prefix_rfl
    · have knows := sound.knows thread
      rcases Point.wakes_cases wakes with ⟨fiber,point⟩ | ⟨fiber,index,point⟩
      · simp only [Knows,point] at knows
        rw [knows.2 batch set]
        exact List.nil_prefix
      · simp only [Knows,point] at knows
        rw [knows.2.2.2 batch set]
        exact List.take_prefix ..
  · rw [settled.asleep zero]
    exact List.nil_prefix

theorem Sound.counts (sound : sys.Sound) {count : Counter} {batch : Batch size}
    (set : sys.batches count = some batch) : sys.Counts count batch := by
  have counted := (sound.settled count batch set).counted
  refine ⟨counted,fun thread fiber point => ?_,fun thread fiber index point => ?_,fun fiber waits => ?_⟩
  · have knows := sound.knows thread
    simp only [Knows,point] at knows
    have zero := knows trivial
    omega
  · have knows := sound.knows thread
    simp only [Knows,point] at knows
    have zero := knows.2.1
    omega
  · have here : fiber ∈ sys.contents (.waiting count : Place Thread Counter) := waits
    refine ⟨fun pooled => ?_,fun queue queued => ?_,fun thread runs => ?_⟩
    · have there : fiber ∈ sys.contents (.pool : Place Thread Counter) :=
        List.mem_filterMap.mpr ⟨_,pooled,rfl⟩
      cases sound.tidy.once fiber _ _ here there
    · cases sound.tidy.once fiber _ (.queue queue) here queued
    · have there : fiber ∈ sys.contents (.host thread) := by
        change fiber ∈ ((sys.threads thread).host).toList
        rw [runs]
        exact List.mem_singleton_self fiber
      cases sound.tidy.once fiber _ _ here there

theorem Sound.waiters_eq (sound : sys.Sound) {count : Counter} {batch : Batch size}
    (set : sys.batches count = some batch) : (sys.counters count).waiters = batch.woken ++ sys.pending count := by
  obtain ⟨rest,split⟩ := sound.woken_prefix set
  have left : sys.pending count = rest := by
    simp only [pending,set]
    rw [← split,List.drop_left]
  rw [left,split]

theorem Sound.none_pending (sound : sys.Sound) {count : Counter} {batch : Batch size}
    (set : sys.batches count = some batch) (free : (sys.counters count).lock = false)
    (zero : (sys.counters count).counter = 0) : batch.woken = (sys.counters count).waiters := by
  rcases (sound.settled count batch set).awake zero with woken | ⟨thread,wakes⟩
  · exact woken
  · have held : sys.holds thread = some count := by
      rcases Point.wakes_cases wakes with ⟨fiber,point⟩ | ⟨fiber,index,point⟩
      · simp only [holds,point]
      · simp only [holds,point]
    exact absurd held (sound.unheld free thread)

theorem Sound.protocol (sound : sys.Sound) {count : Counter} {batch : Batch size}
    (set : sys.batches count = some batch) : sys.Protocol batch.woken count batch := by
  have split := sound.waiters_eq set
  have counts := sound.counts set
  refine ⟨counts,⟨(sound.settled count batch set).distinct,sound.woken_prefix set⟩,fun fiber recorded waits => ?_,
    sound.none_pending set⟩
  rw [split] at recorded
  exact counts.sleeps fiber ((List.mem_append.mp recorded).resolve_left waits)

variable {next : Sys size Thread Counter Work} {thread : Thread} {act : Act Counter Work}

theorem arrivals_turn (waiter : Fin size) (count : Counter) (queue : RunQueue) (point : Point size Counter Work) :
    sys.arrivals (({ sys with queues := Function.update sys.queues queue (sys.queues queue ++ [waiter]) }.turn waiter
      count).setPoint thread point) = [waiter] := by
  have here : ∀ other, ((({ sys with queues := Function.update sys.queues queue (sys.queues queue ++ [waiter]) }.turn
      waiter count).setPoint thread point).queues other).drop (sys.queues other).length =
        if other = queue then [waiter] else [] := by
    intro other
    change (Function.update sys.queues queue (sys.queues queue ++ [waiter]) other).drop _ = _
    by_cases same : other = queue
    · rw [same,Function.update_self,if_pos rfl,List.drop_left]
    · rw [Function.update_of_ne same,if_neg same,List.drop_length]
  simp only [arrivals,here]
  cases queue <;> rfl

theorem arrivals_none (queues : ∀ queue, next.queues queue = sys.queues queue) : sys.arrivals next = [] := by
  simp only [arrivals,queues,List.drop_length,List.flatMap_cons,List.flatMap_nil,List.append_nil]

/-- What the observer has noted are the turns, when none of them fails. -/
def Noted (seen : Sys size Thread Counter Work × (Counter → List (Fin size))) : Prop :=
  ∀ count batch, seen.1.batches count = some batch → seen.2 count = batch.woken

theorem Noted.keep {entered : Counter → List (Fin size)} (noted : Noted (sys,entered))
    (woken : ∀ count, (next.batches count).map Batch.woken = (sys.batches count).map Batch.woken) :
    Noted (next,entered) := by
  intro count batch set
  have same := woken count
  rw [show next.batches count = some batch from set,Option.map_some] at same
  obtain ⟨before,set',woken⟩ := Option.map_eq_some_iff.mp same.symm
  exact (noted count before set').trans woken

theorem Noted.step {entered : Counter → List (Fin size)} (noted : Noted (sys,entered)) (sound : sys.Sound)
    (unhindered : sys.Unhindered (thread,act)) (step : Step sys thread act next) :
    Noted (next,sys.enter (thread,act) next entered) := by
  cases step with
  | @schedule fiber jobs len count fatal point =>
    cases count with
    | none =>
      simp only [enter,point]
      exact noted.keep fun _ => rfl
    | some count =>
      intro own batch set
      by_cases here : own = count
      · subst here
        have init : ((sys.initCounter len (some own)).setPoint thread
            (.scheduling (.fiber fiber fatal) 0 (jobs.take len.toNat) (some own))).batches own = some ⟨len.toNat,[]⟩ :=
          (Function.update_self ..).trans (if_pos unhindered.1.1)
        cases init.symm.trans set
        exact Function.update_self ..
      · refine (Function.update_of_ne here ..).trans (noted own batch ?_)
        exact (Function.update_of_ne here ..).symm.trans set
  | @wake fiber waiter count index point recorded =>
    obtain ⟨queue,woke⟩ := sound.wake_eq point recorded
    rw [woke]
    simp only [enter,point,arrivals_turn]
    intro own batch set
    by_cases here : own = count
    · subst here
      have turned := set
      simp only [setPoint,turn,Function.update_self] at turned
      obtain ⟨before,set',woken⟩ := Option.map_eq_some_iff.mp turned
      cases woken
      have before_eq : entered own = before.woken := noted own before set'
      simp only [Function.update_self,before_eq]
    · refine (Function.update_of_ne here ..).trans (noted own batch ?_)
      exact (Function.update_of_ne here ..).symm.trans set
  | skip point recorded =>
    have apart := unhindered.2 rfl
    rw [point] at apart
    cases apart
  | @dispatch caller index fiber job jobs count queue point =>
    simp only [enter,point]
    refine noted.keep fun own => ?_
    refine (congrArg (Option.map Batch.woken) (carry_batches fiber count own)).trans ?_
    split
    next => rw [Option.map_map]; rfl
    next => rfl
  | woken point ended =>
    simp only [enter,point,show sys.arrivals (sys.setPoint thread _) = [] from arrivals_none fun _ => rfl,
      List.append_nil,Function.update_eq_self]
    exact noted.keep fun _ => rfl
  | _ =>
    simp_all only [enter]
    exact noted.keep fun _ => rfl

structure Followed (seen : Sys size Thread Counter Work × (Counter → List (Fin size))) : Prop where
  sound : seen.1.Sound
  noted : Noted seen

end Sys

/-- Whatever the threads do, as long as no one sets a counter that others still have to do with or waits for one
that was not set, and no push of a waiter fails, each counter that was set keeps to the protocol. -/
theorem run_counter {counters : Counter → VgcCounter size}
    {seen : Sys size Thread Counter Work × (Counter → List (Fin size))}
    (run : Run (observed Sys.step Sys.enter) (fun seen => seen.1.Unhindered)
      (Sys.vgcSchedulerInit size counters,fun _ => []) seen) (count : Counter) (batch : Batch size)
    (set : seen.1.batches count = some batch) : seen.1.Protocol (seen.2 count) count batch := by
  have followed : Sys.Followed seen := by
    refine run.invariant ⟨Sys.init_sound,fun _ _ set => absurd set (Option.some_ne_none _).symm⟩ ?_
    rintro ⟨sys,entered⟩ ⟨thread,act⟩ after followed unhindered stepped
    obtain ⟨next,moved,rfl⟩ := Option.map_eq_some_iff.mp stepped
    have step := step_cases moved
    exact ⟨(followed.sound.step unhindered.1 step).sound,followed.noted.step followed.sound unhindered step⟩
  rw [followed.noted count batch set]
  exact followed.sound.protocol set

def jobAwaited : List (Fin 2 × Act (Fin 1) Unit) :=
  [(0,.enque ⟨(),.hi⟩),(0,.go),(0,.go),(0,.go),(0,.enter),(0,.go),
    (0,.schedule [⟨(),.mid⟩] 1 (some 0) false),(0,.go),(0,.go),(0,.go),
    (0,.wait 0 false),(0,.go),(0,.go),(0,.go),(0,.go),(0,.go),(0,.go),(0,.go),
    (1,.enter),(1,.go),(1,.go),(1,.finish),(1,.go),(1,.go),(1,.go),(1,.go),(1,.go),(1,.go),(1,.go),(1,.go)]

theorem run_counter_awaited : ∃ (seen : Sys 2 (Fin 2) (Fin 1) Unit × (Fin 1 → List (Fin 2))) (batch : Batch 2),
    replay (observed Sys.step Sys.enter) (fun seen => seen.1.Unhindered)
        (Sys.vgcSchedulerInit 2 fun _ => ⟨true,-1,[]⟩,fun _ => []) jobAwaited = some seen ∧
      seen.1.batches 0 = some batch ∧ seen.2 0 = [0] ∧ seen.1.Protocol (seen.2 0) 0 batch := by
  have woken : ((replay (observed Sys.step Sys.enter) (fun seen => seen.1.Unhindered)
      (Sys.vgcSchedulerInit 2 fun _ => ⟨true,-1,[]⟩,fun _ => []) jobAwaited).map
        fun seen => (seen.1.batches 0).isSome && seen.2 0 = [0]) = some true := by decide +kernel
  obtain ⟨seen,replayed,state⟩ := Option.map_eq_some_iff.mp woken
  obtain ⟨set,entered⟩ := Bool.and_eq_true_iff.mp state
  obtain ⟨batch,set⟩ := Option.isSome_iff_exists.mp set
  exact ⟨seen,batch,replayed,set,of_decide_eq_true entered,run_counter (Run.start.replay replayed) 0 batch set⟩

/-- One thread enqueues two jobs; the second takes the first fiber from its queue. The other fiber, on the third
thread, schedules two jobs and waits; the third runs both, and the push that is to wake that fiber fails. -/
def waiterLost (main first other : Fin 3) : List (Fin 3 × Act (Fin 1) Unit) :=
  [(main,.enque ⟨(),.hi⟩),(main,.go),(main,.go),(main,.go),(main,.enque ⟨(),.hi⟩),(main,.go),(main,.go),(main,.go),
    (first,.enter),(first,.go),(other,.enter),(other,.go),
    (other,.schedule [⟨(),.hi⟩,⟨(),.hi⟩] 2 (some (Fin.last 0)) false),(other,.go),(other,.go),(other,.go),(other,.go),
    (other,.go),(other,.wait (Fin.last 0) false),(other,.go),(other,.go),(other,.go),(other,.go),(other,.go),
    (other,.go),(other,.go),(other,.go),(other,.finish),(other,.go),(other,.go),(other,.go),(other,.go),(other,.go),
    (other,.go),(other,.go),(other,.go),(other,.finish),(other,.go),(other,.go),(other,.go),(other,.go),(other,.go),
    (other,.fail),(other,.go),(other,.go),(other,.go)]

/-- What they do on the ring of that queue; the pop of the second thread has claimed its cell and goes no further. -/
def cellHeld (main first other : Fin 3) : List (Fin 3 × RingAct Nat) :=
  let push (thread : Fin 3) (fiber : Nat) := (thread,RingAct.push fiber) :: List.replicate 5 (thread,.go false)
  let pop (thread : Fin 3) := (thread,RingAct.pop) :: List.replicate 5 (thread,.go false)
  push main 0 ++ push main 1 ++ (first,.pop) :: List.replicate 3 (first,.go false) ++ pop other ++ push other 2 ++
    push other 3 ++ pop other ++ pop other ++ [(other,.push 1),(other,.go false),(other,.go false)]

/-- The counter is at 0 and its lock free, and the fiber that waits for it is on no queue: its push has come to the
cell of the first pop, and failed. -/
theorem run_counter_fails : (∃ seen : Sys 4 (Fin 3) (Fin 1) Unit × (Fin 1 → List (Fin 4)),
      Run (observed Sys.step Sys.enter) (fun seen => seen.1.Permits) (Sys.vgcSchedulerInit 4 fun _ => ⟨true,-1,[]⟩,fun _ => [])
        seen ∧ (seen.1.batches 0).isSome ∧ (seen.1.counters 0).lock = false ∧ (seen.1.counters 0).counter = 0 ∧
          (seen.1.counters 0).waiters = [1] ∧ seen.2 0 = [] ∧ ∀ queue, 1 ∉ seen.1.queues queue) ∧
    ∃ ring : RingSys (Fin 3) Nat,
      Run RingSys.step (fun _ _ => True) (RingSys.init (fun _ => 0) 4) ring ∧ ring.threads 1 = .popData 0 ∧
        ring.threads 2 = .pushed (-1) ∧ ring.pops = [0,1,2,3] := by
  constructor
  · have ran : (replay (observed Sys.step Sys.enter) (fun seen => seen.1.Permits)
        (Sys.vgcSchedulerInit 4 fun _ => ⟨true,-1,[]⟩,fun _ => []) (waiterLost 0 1 2)).map (fun seen => decide
          ((seen.1.batches 0).isSome ∧ (seen.1.counters 0).lock = false ∧ (seen.1.counters 0).counter = 0 ∧
            (seen.1.counters 0).waiters = [1] ∧ seen.2 0 = [] ∧
              ∀ queue ∈ [RunQueue.hiQ,.midQ,.loQ], 1 ∉ seen.1.queues queue)) = some true := by decide +kernel
    obtain ⟨seen,replayed,state⟩ := Option.map_eq_some_iff.mp ran
    obtain ⟨set,lock,counter,waiters,entered,queues⟩ := of_decide_eq_true state
    exact ⟨seen,Run.start.replay replayed,set,lock,counter,waiters,entered,fun queue => queues queue (by cases queue <;> simp)⟩
  · have ran : (replay RingSys.step (fun _ _ => True) (RingSys.init (fun _ => 0) 4) (cellHeld 0 1 2)).map (fun ring => decide
        (ring.threads 1 = .popData 0 ∧ ring.threads 2 = .pushed (-1) ∧ ring.pops = [0,1,2,3])) = some true := by
      decide +kernel
    obtain ⟨ring,replayed,state⟩ := Option.map_eq_some_iff.mp ran
    exact ⟨ring,Run.start.replay replayed,of_decide_eq_true state⟩

end CSpock.Fibers
