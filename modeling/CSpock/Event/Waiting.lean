import CSpock.Event.Slots
import CSpock.Fibers.Lifetime

/-! Emits in the job system. A fiber emits an event with a counter of its own and waits for
it; the counter is set by `vgc_schedule_jobs`, which an emit without callbacks does not call. -/
set_option linter.unusedSectionVars false
namespace CSpock.Event
open CSpock.Library.Transition CSpock.Fibers CSpock.Numeric

variable {size : Nat} {Thread Counter Cb Data : Type} [DecidableEq Thread] [DecidableEq Counter]

/-- An emit: its counter, how many cells are in use, how often the counter had been set, and whether the first job got
a fiber and this one into its queue. -/
structure EmitCall (Counter : Type) where
  count : Counter
  cur : Nat
  before : Nat
  first : Option Bool

/-- What the next ring operation of a thread means for the first job of its emit: the `vgc_pop` of a fiber for it and
the `vgc_push` of this fiber. -/
def EmitCall.look {Work : Type} (call : EmitCall Counter) (sys : Sys size Thread Counter Work) (thread : Thread)
    (act : Act Counter Work) : Option Bool :=
  match sys.threads thread with
  | .scheduling _ 0 (_::_) _ => some (!act.fails && !sys.freeQPool.isEmpty)
  | .assigning _ 0 _ _ _ _ => some !act.fails
  | _ => call.first

/-- An emit that has come back, with how often its counter has been set by then. -/
structure Returned (size : Nat) (Thread Counter Cb Data : Type) where
  call : EmitCall Counter
  sys : Sys size Thread Counter (SbevTrampArg Cb Data)
  sets : Nat

/-- The job system with the emits. `sets` is how often a counter was set. -/
structure Emits (size : Nat) (Thread Counter Cb Data : Type) where
  sys : Sys size Thread Counter (SbevTrampArg Cb Data)
  sets : Counter → Nat
  calls : Thread → Option (EmitCall Counter)
  returned : List (Returned size Thread Counter Cb Data)

/-- A step of the job system, or a call of `sbev_emit_event` for an event with the given entry. -/
inductive EmitsAct (Counter Cb Data : Type) where
  | act (act : Act Counter (SbevTrampArg Cb Data))
  | emit (ent : SbevEventEntry Cb Data) (handle : Nat) (evData : Data) (count : Counter)

namespace Emits

def bump (sets : Counter → Nat) : Option Counter → Counter → Nat
  | none => sets
  | some count => Function.update sets count (sets count + 1)

def emit (emits : Emits size Thread Counter Cb Data) (thread : Thread) (ent : SbevEventEntry Cb Data) (handle : Nat)
    (evData : Data) (count : Counter) : Option (Emits size Thread Counter Cb Data) :=
  match emits.sys.threads thread with
  | .running _ => do
    let cbs ← ent.copyCbs ent.cur
    let call : EmitCall Counter := ⟨count,ent.cur,emits.sets count,none⟩
    if ent.cur = 0 then
      return { emits with returned := emits.returned ++ [⟨call,emits.sys,emits.sets count⟩] }
    else
      let jobs := cbs.map (emitJob evData handle)
      let next ← emits.sys.step (thread,.schedule jobs (cInt ent.cur) (some count) true)
      return { emits with
        sys := next
        sets := bump emits.sets (some count)
        calls := Function.update emits.calls thread (some call) }
  | _ => none

/-- A thread that is in an emit goes on until it is back in the code of its fiber. -/
def act (emits : Emits size Thread Counter Cb Data) (thread : Thread) (act : Act Counter (SbevTrampArg Cb Data)) :
    Option (Emits size Thread Counter Cb Data) := do
  let next ← emits.sys.step (thread,act)
  let after : Emits size Thread Counter Cb Data :=
    { emits with sys := next, sets := bump emits.sets (Life.sets (thread,act)) }
  match emits.calls thread with
  | none => return after
  | some call =>
    let call := { call with first := call.look emits.sys thread act }
    match next.threads thread with
    | .running _ => return { after with
        calls := Function.update emits.calls thread none
        returned := emits.returned ++ [⟨call,next,after.sets call.count⟩] }
    | _ => return { after with calls := Function.update emits.calls thread (some call) }

def step (emits : Emits size Thread Counter Cb Data) (label : Thread × EmitsAct Counter Cb Data) :
    Option (Emits size Thread Counter Cb Data) :=
  match label.2 with
  | .act act => emits.act label.1 act
  | .emit ent handle evData count => emits.emit label.1 ent handle evData count

def init (size : Nat) (counters : Counter → VgcCounter size) : Emits size Thread Counter Cb Data :=
  ⟨.vgcSchedulerInit size counters,fun _ => 0,fun _ => none,[]⟩

/-- The counter of an emit is one that no one has to do with, and `(int) cur` is not negative. -/
def Permits (emits : Emits size Thread Counter Cb Data) (label : Thread × EmitsAct Counter Cb Data) : Prop :=
  match label.2 with
  | .act act => emits.sys.Permits (label.1,act)
  | .emit ent _ _ count => emits.sys.Idle count ∧ 0 ≤ cInt ent.cur

instance [Fintype Thread] (emits : Emits size Thread Counter Cb Data)
    (label : Thread × EmitsAct Counter Cb Data) : Decidable (emits.Permits label) :=
  match label with
  | (thread,.act act) => inferInstanceAs (Decidable (emits.sys.Permits (thread,act)))
  | (_,.emit ent _ _ count) => inferInstanceAs (Decidable (emits.sys.Idle count ∧ 0 ≤ cInt ent.cur))

end Emits

/-- The emit has set the counter, and it is the number of its jobs that have not been processed. -/
def Returned.Ready (returned : Returned size Thread Counter Cb Data) : Prop :=
  returned.sets = returned.call.before + 1 ∧
    (returned.sys.counters returned.call.count).counter = returned.sys.live returned.call.count

/-- There are callbacks, and the first job, if there is one, is not refused. -/
def Returned.Served (returned : Returned size Thread Counter Cb Data) : Prop :=
  returned.call.cur ≠ 0 ∧ (cInt returned.call.cur = 0 ∨ returned.call.first = some true)

/-- Where a thread is that is in an emit, and what has come of the first job. -/
inductive Inside (call : EmitCall Counter) : Point size Counter (SbevTrampArg Cb Data) → Prop where
  | scheduling {fiber : Fin size} {index : Nat} {jobs : List (VgcJob (SbevTrampArg Cb Data))}
      (valid : ∀ job ∈ jobs, job.priority.queue.isSome = true)
      (start : index = 0 → jobs.length = (cInt call.cur).toNat)
      (later : index ≠ 0 → call.first = some true) :
      Inside call (.scheduling (.fiber fiber true) index jobs (some call.count))
  | assigning {fiber own : Fin size} {index : Nat} {job : VgcJob (SbevTrampArg Cb Data)}
      {jobs : List (VgcJob (SbevTrampArg Cb Data))}
      (valid : ∀ other ∈ job::jobs, other.priority.queue.isSome = true)
      (start : index = 0 → jobs.length + 1 = (cInt call.cur).toNat)
      (later : index ≠ 0 → call.first = some true) :
      Inside call (.assigning (.fiber fiber true) index own job jobs (some call.count))
  | undoing {fiber : Fin size} {index : Nat} (wanted : index = 0 → 0 < cInt call.cur ∧ call.first = some false) :
      Inside call (.undoing (.fiber fiber true) index (some call.count))

section
variable {call : EmitCall Counter} {sys next : Sys size Thread Counter (SbevTrampArg Cb Data)} {thread : Thread}
    {act : Act Counter (SbevTrampArg Cb Data)}

theorem Inside.counter (sound : sys.Sound) {caller : Caller size} {index : Nat}
    {jobs : List (VgcJob (SbevTrampArg Cb Data))}
    (point : sys.threads thread = .scheduling caller index jobs (some call.count)) :
    (sys.counters call.count).counter = sys.live call.count ↔ jobs = [] := by
  have knows := sound.knows thread
  simp only [Sys.Knows,point] at knows
  obtain ⟨batch,batched,missing⟩ := knows
  have counted := (sound.settled call.count batch batched).counted
  rw [counted,← List.length_eq_zero_iff]
  omega

/-- A call that comes back to an emit gives 0: on anything else the process ends. -/
theorem Inside.zero {own : Fin size} {index : Nat} {point : Point size Counter (SbevTrampArg Cb Data)}
    (back : (Caller.fiber own true).point index = some point) : index = 0 ∧ point = .running own := by
  by_cases zero : index = 0
  · subst zero
    exact ⟨rfl,(Option.some.inj back).symm⟩
  · simp [Caller.point,zero] at back

theorem Inside.unserved {first : Option Bool} (wrong : (next.counters call.count).counter ≠ next.live call.count)
    (wanted : 0 < cInt call.cur) (refused : first = some false) :
    ((next.counters call.count).counter = next.live call.count ↔
      call.cur ≠ 0 ∧ (cInt call.cur = 0 ∨ first = some true)) := by
  refine iff_of_false wrong fun served => ?_
  rcases served.2 with empty | accepted
  · omega
  · cases refused.symm.trans accepted

/-- An emit goes on, or it comes back: with a right counter when its first job was not refused. -/
theorem Inside.step (inside : Inside call (sys.threads thread)) (sound : sys.Sound)
    (natural : 0 ≤ cInt call.cur) (some_cells : call.cur ≠ 0) (step : Step sys thread act next) :
    Life.sets (thread,act) = none ∧
    ((∃ fiber, next.threads thread = .running fiber ∧
      ((next.counters call.count).counter = next.live call.count ↔ call.cur ≠ 0 ∧
        (cInt call.cur = 0 ∨ call.look sys thread act = some true))) ∨
      Inside { call with first := call.look sys thread act } (next.threads thread)) := by
  generalize at_ : sys.threads thread = point at inside
  cases inside with
  | @scheduling fiber index jobs valid start later =>
    have wrong (job : VgcJob (SbevTrampArg Cb Data)) (rest : List (VgcJob (SbevTrampArg Cb Data)))
        (more : jobs = job::rest) : (sys.counters call.count).counter ≠ sys.live call.count := fun right =>
      absurd (((Inside.counter sound at_).mp right).symm.trans more) (List.cons_ne_nil job rest).symm
    cases step with
    | scheduled point back =>
      cases at_.symm.trans point
      obtain ⟨_,rfl⟩ := Inside.zero back
      refine ⟨rfl,.inl ⟨fiber,Sys.setPoint_same _,iff_of_true ((Inside.counter sound point).mpr rfl) ⟨some_cells,?_⟩⟩⟩
      by_cases zero : index = 0
      · have length := start zero
        rw [List.length_nil] at length
        exact .inl (by omega)
      · right
        simp only [EmitCall.look,point]
        exact later zero
    | @starved _ _ job jobs _ _ point empty back =>
      cases at_.symm.trans point
      obtain ⟨zero,rfl⟩ := Inside.zero back
      have length := start (zero)
      rw [List.length_cons] at length
      refine ⟨rfl,.inl ⟨fiber,Sys.setPoint_same _,Inside.unserved (wrong job jobs rfl) (by omega) ?_⟩⟩
      rw [zero] at point
      simp only [EmitCall.look,point,empty]
      rfl
    | @denied _ _ job jobs _ _ point back =>
      cases at_.symm.trans point
      obtain ⟨zero,rfl⟩ := Inside.zero back
      have length := start (zero)
      rw [List.length_cons] at length
      refine ⟨rfl,.inl ⟨fiber,Sys.setPoint_same _,Inside.unserved (wrong job jobs rfl) (by omega) ?_⟩⟩
      rw [zero] at point
      simp only [EmitCall.look,point]
      rfl
    | @pop _ _ job jobs _ own pool point head =>
      cases at_.symm.trans point
      refine ⟨rfl,.inr ?_⟩
      rw [Sys.setPoint_same]
      refine .assigning valid (fun zero => (List.length_cons ..).symm.trans (start zero)) fun positive => ?_
      obtain ⟨before,rfl⟩ := Nat.exists_eq_succ_of_ne_zero positive
      simp only [EmitCall.look,point]
      exact later positive
    | _ => simp_all only [reduceCtorEq]
  | @assigning fiber own index job jobs valid start later =>
    cases step with
    | reject point rejected =>
      cases at_.symm.trans point
      have guides : sys.Guides thread := by
        simp only [Sys.Guides,point]
        exact ⟨valid job (List.mem_cons_self ..),fun other member => valid other (List.mem_cons_of_mem _ member)⟩
      have lost : sys.Loses thread .go := by
        simp only [Sys.Loses,point]
        exact .inr rejected
      refine absurd lost (sound.holds_on guides (fun count adds => ?_) fun fails => ?_)
      · rw [point] at adds
        cases adds
      · cases fails
    | refuse point =>
      cases at_.symm.trans point
      refine ⟨rfl,.inr ?_⟩
      rw [Sys.setPoint_same]
      refine .undoing fun zero => ⟨?_,?_⟩
      · have length := start zero
        dsimp only
        omega
      · rw [zero] at point
        simp only [EmitCall.look,point]
        rfl
    | dispatch point queued room =>
      cases at_.symm.trans point
      refine ⟨rfl,.inr ?_⟩
      rw [Sys.setPoint_same]
      refine .scheduling (fun other member => valid other (List.mem_cons_of_mem _ member))
        (fun zero => absurd zero (Nat.succ_ne_zero _)) fun _ => ?_
      cases index with
      | zero =>
        simp only [EmitCall.look,point]
        rfl
      | succ index =>
        simp only [EmitCall.look,point]
        exact later (Nat.succ_ne_zero _)
    | _ => simp_all only [reduceCtorEq]
  | @undoing fiber index wanted =>
    cases step with
    | undo point room back =>
      cases at_.symm.trans point
      obtain ⟨zero,rfl⟩ := Inside.zero back
      obtain ⟨positive,refused⟩ := wanted (zero)
      have knows := sound.knows thread
      simp only [Sys.Knows,point] at knows
      obtain ⟨batch,batched,missing⟩ := knows call.count rfl
      have counted := (sound.settled call.count batch batched).counted
      refine ⟨rfl,.inl ⟨fiber,Sys.setPoint_same _,Inside.unserved (fun right => missing ?_) positive ?_⟩⟩
      · have right : (sys.counters call.count).counter = sys.live call.count := right
        omega
      · simp only [EmitCall.look,point]
        exact refused
    | _ => simp_all only [reduceCtorEq]

end

theorem Inside.schedules {call : EmitCall Counter} {point : Point size Counter (SbevTrampArg Cb Data)}
    (inside : Inside call point) : point.schedules = some call.count := by
  cases inside <;> rfl

namespace Emits

structure Counting (emits : Emits size Thread Counter Cb Data) : Prop where
  sound : emits.sys.Sound
  calls : ∀ thread call, emits.calls thread = some call → Inside call (emits.sys.threads thread) ∧
    call.cur ≠ 0 ∧ 0 ≤ cInt call.cur ∧ emits.sets call.count = call.before + 1
  returned : ∀ ret ∈ emits.returned, ret.Ready ↔ ret.Served

/-- The users of a counter: a wait comes back when all of its jobs have been processed, and at once when they had
been before. -/
structure Waits (emits : Emits size Thread Counter Cb Data) (count : Counter) (batch : Batch size) : Prop where
  counts : emits.sys.Counts count batch
  passes : ∀ thread fiber checked, emits.sys.threads thread = .testing fiber count checked →
    emits.sys.live count = 0 → batch.missing = 0 →
      emits.sys.step (thread,.go) = some (emits.sys.setPoint thread (.leaving fiber count false))

variable {emits after : Emits size Thread Counter Cb Data}

theorem Counting.kept (counting : emits.Counting) {thread other : Thread} {call : EmitCall Counter}
    {act : Act Counter (SbevTrampArg Cb Data)} (permitted : emits.sys.Permits (thread,act))
    (calling : emits.calls other = some call) :
    bump emits.sets (Life.sets (thread,act)) call.count = emits.sets call.count := by
  have inside := (counting.calls other call calling).1
  cases act with
  | schedule jobs len count fatal =>
    cases count with
    | none => rfl
    | some count =>
      refine Function.update_of_ne (fun same => ?_) ..
      exact permitted.2.2.unscheduled other (inside.schedules.trans (congrArg some same))
  | _ => rfl

theorem Counting.others (counting : emits.Counting) {thread other : Thread}
    {act : Act Counter (SbevTrampArg Cb Data)} {next : Sys size Thread Counter (SbevTrampArg Cb Data)}
    (permitted : emits.sys.Permits (thread,act)) (step : Step emits.sys thread act next) (different : other ≠ thread)
    {call : EmitCall Counter} (calling : emits.calls other = some call) : Inside call (next.threads other) ∧
      call.cur ≠ 0 ∧ 0 ≤ cInt call.cur ∧ bump emits.sets (Life.sets (thread,act)) call.count = call.before + 1 := by
  obtain ⟨inside,some_cells,natural,once⟩ := counting.calls other call calling
  rw [step.others different]
  exact ⟨inside,some_cells,natural,(counting.kept permitted calling).trans once⟩

theorem Counting.emit (counting : emits.Counting) {thread : Thread} {ent : SbevEventEntry Cb Data} {handle : Nat}
    {evData : Data} {count : Counter} (idle : emits.sys.Idle count) (natural : 0 ≤ cInt ent.cur)
    (done : emits.emit thread ent handle evData count = some after) : after.Counting := by
  unfold Emits.emit at done
  split at done
  next fiber point =>
    obtain ⟨cbs,copied,done⟩ := Option.bind_eq_some_iff.mp done
    have length := SbevEventEntry.copyCbs_length copied
    split at done
    next empty =>
      cases done
      refine ⟨counting.sound,counting.calls,fun ret member => ?_⟩
      rcases List.mem_append.mp member with old | new
      · exact counting.returned ret old
      · cases List.mem_singleton.mp new
        exact iff_of_false (fun ready => absurd ready.1 (Nat.ne_of_lt (Nat.lt_succ_self _))) fun served => served.1 empty
    next some_cells =>
      obtain ⟨next,stepped,done⟩ := Option.bind_eq_some_iff.mp done
      cases done
      have fewer := Int.toNat_le.mpr (cInt_natCast_le ent.cur)
      have permitted : emits.sys.Permits
          (thread,.schedule (cbs.map (emitJob evData handle)) (cInt ent.cur) (some count) true) := by
        refine ⟨natural,?_,idle⟩
        rw [List.length_map,length]
        omega
      have step := step_cases stepped
      refine ⟨(counting.sound.step permitted step).sound,fun other call calling => ?_,counting.returned⟩
      by_cases here : other = thread
      · subst here
        cases (Function.update_self ..).symm.trans calling
        refine ⟨?_,some_cells,natural,Function.update_self ..⟩
        cases step with
        | schedule point =>
          rw [Sys.setPoint_same]
          refine .scheduling (fun job member => ?_) (fun _ => ?_) fun absent => absurd rfl absent
          · obtain ⟨cell,_,rfl⟩ := List.mem_map.mp (List.mem_of_mem_take member)
            rfl
          · rw [List.length_take,List.length_map,length,Nat.min_eq_left fewer]
      · exact counting.others permitted step here ((Function.update_of_ne here ..).symm.trans calling)
  next => cases done

theorem Counting.act (counting : emits.Counting) {thread : Thread} {act : Act Counter (SbevTrampArg Cb Data)}
    (permitted : emits.sys.Permits (thread,act)) (done : emits.act thread act = some after) : after.Counting := by
  obtain ⟨next,stepped,done⟩ := Option.bind_eq_some_iff.mp done
  have step := step_cases stepped
  have sound := (counting.sound.step permitted step).sound
  cases calling : emits.calls thread with
  | none =>
    simp only [calling] at done
    cases done
    refine ⟨sound,fun other call found => counting.others permitted step ?_ found,counting.returned⟩
    rintro rfl
    cases calling.symm.trans found
  | some call =>
    obtain ⟨inside,some_cells,natural,once⟩ := counting.calls thread call calling
    obtain ⟨unset,⟨fiber,back,right⟩ | goes⟩ := inside.step counting.sound natural some_cells step
    · simp only [calling,back] at done
      cases done
      refine ⟨sound,fun other own found => ?_,fun ret member => ?_⟩
      · by_cases here : other = thread
        · subst here
          cases (Function.update_self ..).symm.trans found
        · exact counting.others permitted step here ((Function.update_of_ne here ..).symm.trans found)
      · rcases List.mem_append.mp member with old | new
        · exact counting.returned ret old
        · cases List.mem_singleton.mp new
          refine (and_iff_right ?_).trans right
          rw [unset]
          exact once
    · simp only [calling] at done
      split at done
      next fiber point =>
        rw [point] at goes
        cases goes
      next =>
        cases done
        refine ⟨sound,fun other own found => ?_,counting.returned⟩
        by_cases here : other = thread
        · subst here
          cases (Function.update_self ..).symm.trans found
          refine ⟨goes,some_cells,natural,?_⟩
          rw [unset]
          exact once
        · exact counting.others permitted step here ((Function.update_of_ne here ..).symm.trans found)

theorem Counting.step (counting : emits.Counting) {label : Thread × EmitsAct Counter Cb Data}
    (permitted : emits.Permits label) (stepped : emits.step label = some after) : after.Counting := by
  obtain ⟨thread,act | ⟨ent,handle,evData,count⟩⟩ := label
  · exact counting.act permitted stepped
  · exact counting.emit permitted.1 permitted.2 stepped

theorem init_counting (counters : Counter → VgcCounter size) :
    (init size counters : Emits size Thread Counter Cb Data).Counting where
  sound := Sys.init_sound
  calls _ _ found := nomatch found
  returned _ member := absurd member List.not_mem_nil

theorem Counting.waits (counting : emits.Counting) {count : Counter} {batch : Batch size}
    (batched : emits.sys.batches count = some batch) : emits.Waits count batch := by
  have counts := counting.sound.counts batched
  refine ⟨counts,fun thread fiber checked point none_live none_missing => ?_⟩
  have zero : (emits.sys.counters count).counter = 0 := by
    rw [counts.field,none_live,none_missing]
    rfl
  simp only [Sys.step,Sys.go,point,zero,if_true]

end Emits

/-- As long as no emit sets a counter that others have to do with, or hands over a negative number of jobs, the
counter of an emit is right when it comes back if there were callbacks and the first job was not refused, and only
then. -/
theorem run_awaited {counters : Counter → VgcCounter size} {emits : Emits size Thread Counter Cb Data}
    (run : Run Emits.step Emits.Permits (Emits.init size counters) emits) :
    (∀ ret ∈ emits.returned, ret.Ready ↔ ret.Served) ∧
      ∀ count batch, emits.sys.batches count = some batch → emits.Waits count batch := by
  have counting : emits.Counting := run.invariant (Emits.init_counting counters)
    fun _ _ _ counting permitted stepped => counting.step permitted stepped
  exact ⟨counting.returned,fun _ _ => counting.waits⟩

def emitBy (thread count : Fin 1) (ent : SbevEventEntry Unit Unit) : List (Fin 1 × EmitsAct (Fin 1) Unit Unit) :=
  [(thread,.act (.enque (emitJob () 0 ⟨some (),()⟩))),(thread,.act .go),(thread,.act .go),(thread,.act .go),
    (thread,.act .enter),(thread,.act .go),(thread,.act .go),(thread,.emit ent 3 () count)]

def emitOnce (ent : SbevEventEntry Unit Unit) : List (Fin 1 × EmitsAct (Fin 1) Unit Unit) :=
  emitBy (Fin.last 0) (Fin.last 0) ent

def oneCallback : SbevEventEntry Unit Unit :=
  { (sbevInitEventEntry [1] 3 : SbevEventEntry Unit Unit) with cur := 1, cbs := fun _ => some ⟨some (),()⟩ }

theorem run_awaited_once : ∃ emits : Emits 2 (Fin 1) (Fin 1) Unit Unit,
    replay Emits.step Emits.Permits (Emits.init 2 fun _ => ⟨true,-1,[]⟩)
      (emitOnce oneCallback ++ [(0,.act .go),(0,.act .go),(0,.act .go)]) = some emits ∧
        emits.returned.length = 1 ∧ (∀ ret ∈ emits.returned, ret.Ready ↔ ret.Served) ∧
          ∀ count batch, emits.sys.batches count = some batch → emits.Waits count batch := by
  have ran : (replay Emits.step Emits.Permits (Emits.init 2 fun _ => ⟨true,-1,[]⟩)
      (emitOnce oneCallback ++ [(0,.act .go),(0,.act .go),(0,.act .go)])).map
        (fun emits => emits.returned.length) = some 1 := by decide +kernel
  obtain ⟨emits,replayed,one⟩ := Option.map_eq_some_iff.mp ran
  exact ⟨emits,replayed,one,run_awaited (Run.start.replay replayed)⟩

/-- Without a callback the counter is left as it was. -/
theorem run_awaited_fails : ∃ emits : Emits 2 (Fin 1) (Fin 1) Unit Unit,
    Run Emits.step Emits.Permits (Emits.init 2 fun _ => ⟨true,-1,[]⟩) emits ∧
      ∃ ret ∈ emits.returned, (ret.sys.counters 0).lock = true ∧ (ret.sys.counters 0).counter = -1 ∧ ¬ret.Ready := by
  have ran : (replay Emits.step Emits.Permits (Emits.init 2 fun _ => ⟨true,-1,[]⟩)
      (emitOnce (sbevInitEventEntry [1] 3))).map (fun emits => decide (∃ ret ∈ emits.returned,
        (ret.sys.counters 0).lock = true ∧ (ret.sys.counters 0).counter = -1 ∧
          ¬(ret.sets = ret.call.before + 1))) = some true := by decide +kernel
  obtain ⟨emits,replayed,state⟩ := Option.map_eq_some_iff.mp ran
  obtain ⟨ret,member,lock,counter,unset⟩ := of_decide_eq_true state
  exact ⟨emits,Run.start.replay replayed,ret,member,lock,counter,fun ready => unset ready.1⟩

end CSpock.Event
