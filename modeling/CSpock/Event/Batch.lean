import CSpock.Event.Emit
import CSpock.Fibers.Enqueue

/-! Batches of jobs, and what `sbev_emit_event` makes of the result of scheduling one. -/
namespace CSpock.Event
open CSpock.Fibers CSpock.Fibers.VgcScheduler CSpock.Numeric

variable {size : Nat} {Counter Work Cb Data : Type} [DecidableEq Counter]

/-- `sbev_emit_event` behind the early exit and the locks, when it returns; a result other than 0 ends the process. -/
def scheduleCbs (sched : VgcScheduler size Counter (SbevTrampArg Cb Data)) (cbs : List (SbevCbAndData Cb Data))
    (handle : Nat) (evData : Data) (count : Option Counter) (exchanges : Nat → Exchanges) :
    Option (VgcScheduler size Counter (SbevTrampArg Cb Data)) := do
  let scheduled ← sched.vgcScheduleJobs (cbs.map (emitJob evData handle)) (cInt cbs.length) count exchanges
  if scheduled.1 ≠ 0 then none else some scheduled.2

theorem scheduleCbs_of_scheduled {sched after : VgcScheduler size Counter (SbevTrampArg Cb Data)}
    {cbs : List (SbevCbAndData Cb Data)} {handle : Nat} {evData : Data} {count : Option Counter}
    {exchanges : Nat → Exchanges} {result : Int}
    (ran : sched.vgcScheduleJobs (cbs.map (emitJob evData handle)) (cInt cbs.length) count exchanges =
      some (result,after)) :
    scheduleCbs sched cbs handle evData count exchanges = if result ≠ 0 then none else some after := by
  rw [scheduleCbs,ran]
  rfl

theorem scheduleFrom_until {accepts : Nat → Bool} {index done : Nat} {jobs : List (VgcJob Work)}
    (accepted : ∀ earlier, earlier < done → accepts (index + earlier) = true) (refused : accepts (index + done) = false) :
    scheduleFrom accepts index jobs = (jobs.take done,if done < jobs.length then index + done else 0) := by
  induction jobs generalizing index done with
  | nil => simp [scheduleFrom]
  | cons job jobs ih =>
    cases done with
    | zero =>
      rw [Nat.add_zero] at refused
      simp [scheduleFrom,refused]
    | succ done =>
      have later (earlier : Nat) (less : earlier < done) : accepts (index + 1 + earlier) = true := by
        rw [Nat.add_right_comm]
        exact accepted (earlier+1) (Nat.succ_lt_succ less)
      have rest : scheduleFrom accepts (index+1) jobs =
          (jobs.take done,if done < jobs.length then index + 1 + done else 0) :=
        ih later (by rwa [Nat.add_right_comm])
      have now := accepted 0 (Nat.succ_pos done)
      rw [Nat.add_zero] at now
      rw [scheduleFrom,if_pos now,rest]
      simp only [List.take_succ_cons,List.length_cons,Nat.succ_lt_succ_iff,Nat.add_right_comm index 1,Nat.add_assoc]

/-- What becomes of the rings when some jobs are sent: the jobs are enqueued, and the call for one more may fail. -/
def Sends (sched : VgcScheduler size Counter Work) (count : Option Counter) (jobs : List (VgcJob Work))
    (after : VgcScheduler size Counter Work) : Prop :=
  ∃ between, AllEnqueued count jobs sched between ∧
    (after = between ∨ ∃ job exchanges, between.vgcEnqueJob job count exchanges = some (-1,after))

theorem vgcScheduleJobs_accepts (power : RingSize size) {sched : VgcScheduler size Counter Work} (sound : sched.Sound)
    (jobs : List (VgcJob Work)) {len : Int} (enough : len ≤ jobs.length) (count : Option Counter)
    {exchanges : Nat → Exchanges} (succeed : ∀ index, (exchanges index).Succeed) :
    ∃ accepts after, sched.vgcScheduleJobs jobs len count exchanges =
        some (((vgcScheduleJobs jobs len accepts).2 : Int),after) ∧
      Sends (sched.initCounter len count) count (vgcScheduleJobs jobs len accepts).1 after := by
  have until_ (done : Nat) : vgcScheduleJobs jobs len (fun index => decide (index < done)) =
      ((jobs.take len.toNat).take done,if done < (jobs.take len.toNat).length then done else 0) := by
    have sent : scheduleFrom (fun index => decide (index < done)) 0 (jobs.take len.toNat) = _ :=
      scheduleFrom_until (fun earlier less => by simpa using less) (by simp)
    rwa [Nat.zero_add] at sent
  have inside : len.toNat ≤ jobs.length := Int.toNat_le.mpr enough
  rcases scheduleFrom_cases count power succeed len.toNat 0 inside (sound.initCounter len count) with
    ⟨after,ran,all,_⟩ | ⟨done,job,between,after,less,there,all,_,_,_,failed,ran⟩
  · refine ⟨fun index => decide (index < len.toNat),after,?_,after,?_,.inl rfl⟩
    · rw [until_,if_neg (by rw [List.length_take]; omega)]
      exact ran
    · rwa [until_,List.take_take,Nat.min_self]
  · have not_all : done < (jobs.take len.toNat).length := by rwa [List.length_take,Nat.min_eq_left inside]
    have first := List.take_take (i := done) (j := len.toNat) (l := jobs)
    rw [Nat.min_eq_left (Nat.le_of_lt less)] at first
    rw [Nat.zero_add] at ran
    refine ⟨fun index => decide (index < done),after,?_,between,?_,.inr ⟨job,_,failed⟩⟩
    · rwa [until_,if_pos not_all]
    · rwa [until_,first]

theorem scheduleCbs_accepts (power : RingSize size) {sched : VgcScheduler size Counter (SbevTrampArg Cb Data)}
    (sound : sched.Sound) (copied : Copied Cb Data) (count : Option Counter) {exchanges : Nat → Exchanges}
    (succeed : ∀ index, (exchanges index).Succeed) :
    ∃ accepts after, scheduleCbs sched copied.cbs copied.handle copied.evData count exchanges =
        (if (copied.schedule accepts).2 ≠ 0 then none else some after) ∧
      Sends (sched.initCounter (cInt copied.cbs.length) count) count (copied.schedule accepts).1 after := by
  have enough : cInt copied.cbs.length ≤ (copied.cbs.map (emitJob copied.evData copied.handle)).length := by
    rw [List.length_map]
    exact cInt_natCast_le _
  obtain ⟨accepts,after,ran,sends⟩ := vgcScheduleJobs_accepts power sound _ enough count succeed
  exact ⟨accepts,after,(scheduleCbs_of_scheduled ran).trans (if_congr Int.natCast_ne_zero rfl rfl),sends⟩

section Room
variable {sched : VgcScheduler size Counter (SbevTrampArg Cb Data)} (cbs : List (SbevCbAndData Cb Data)) (handle : Nat)
  (evData : Data) (count : Option Counter) {exchanges : Nat → Exchanges}

theorem emitJob_mid : ∀ job ∈ cbs.map (emitJob evData handle), job.priority.queue = some .midQ := by
  intro job member
  obtain ⟨cell,_,rfl⟩ := List.mem_map.mp member
  rfl

/-- How an emit ends: with as many jobs as the parameter says, if there is room for them, and otherwise with the index
of the first that there is no room for. -/
theorem scheduleCbs_ends (power : RingSize size) (sound : sched.Sound) (succeed : ∀ index, (exchanges index).Succeed) :
    ((cInt cbs.length).toNat ≤ sched.room .midQ ∧ ∃ after,
      scheduleCbs sched cbs handle evData count exchanges = some after ∧
      AllEnqueued count ((cbs.map (emitJob evData handle)).take (cInt cbs.length).toNat)
        (sched.initCounter (cInt cbs.length) count) after) ∨
    (sched.room .midQ < (cInt cbs.length).toNat ∧ ∃ after, after.free.length + sched.room .midQ = sched.free.length ∧
      scheduleCbs sched cbs handle evData count exchanges = if sched.room .midQ = 0 then some after else none) := by
  have inside : (cInt cbs.length).toNat ≤ (cbs.map (emitJob evData handle)).length := by
    rw [List.length_map]
    exact Int.toNat_le.mpr (cInt_natCast_le _)
  have same_room : (sched.initCounter (cInt cbs.length) count).room .midQ = sched.room .midQ := by
    rw [room,room,initCounter_free,initCounter_queued]
  have ran := scheduleFrom_room count power succeed _ 0 inside (sound.initCounter (cInt cbs.length) count)
    (emitJob_mid cbs handle evData)
  rw [same_room,Nat.zero_add,initCounter_free] at ran
  rcases ran with ⟨less,after,ran,all⟩ | ⟨more,after,left,ran⟩
  · exact .inl ⟨less,after,(scheduleCbs_of_scheduled ran).trans (if_neg (not_not.mpr rfl)),all⟩
  · refine .inr ⟨more,after,left,(scheduleCbs_of_scheduled ran).trans ?_⟩
    by_cases none : sched.room .midQ = 0
    · rw [none]
      rfl
    · rw [if_pos (Int.natCast_ne_zero.mpr none),if_neg none]

/-- An emit that goes on has enqueued a job for every cell exactly when there is room for the first of them, and the
number of cells fits the parameter, or is cut to one that there is no room for. -/
theorem scheduleCbs_tells (power : RingSize size) (sound : sched.Sound)
    (succeed : ∀ index, (exchanges index).Succeed) :
    (∀ after, scheduleCbs sched cbs handle evData count exchanges = some after →
      AllEnqueued count (cbs.map (emitJob evData handle)) (sched.initCounter (cInt cbs.length) count) after) ↔
    cbs = [] ∨ (1 ≤ sched.room .midQ ∧ 0 < cInt cbs.length ∧
      ((sched.room .midQ : Int) < cInt cbs.length ∨ cInt cbs.length = cbs.length)) := by
  have cut := cInt_natCast_le cbs.length
  have empty : cbs = [] ↔ cbs.length = 0 := List.length_eq_zero_iff.symm
  rw [empty]
  rcases scheduleCbs_ends cbs handle evData count power sound succeed with
    ⟨less,after,ended,all⟩ | ⟨more,after,left,ended⟩
  · have whole : (∀ after, scheduleCbs sched cbs handle evData count exchanges = some after →
        AllEnqueued count (cbs.map (emitJob evData handle)) (sched.initCounter (cInt cbs.length) count) after) ↔
        (cInt cbs.length).toNat = cbs.length := by
      have part := all.free_length
      rw [List.length_take,List.length_map] at part
      refine ⟨fun tells => ?_,fun whole other gone_on => ?_⟩
      · have total := (tells after ended).free_length
        rw [List.length_map] at total
        omega
      · cases ended.symm.trans gone_on
        rwa [whole,List.take_of_length_le (by rw [List.length_map])] at all
    rw [whole]
    omega
  · have some_room : (∀ after, scheduleCbs sched cbs handle evData count exchanges = some after →
        AllEnqueued count (cbs.map (emitJob evData handle)) (sched.initCounter (cInt cbs.length) count) after) ↔
        sched.room .midQ ≠ 0 := by
      refine ⟨fun tells nothing => ?_,fun some_room other gone_on => ?_⟩
      · rw [if_pos nothing] at ended
        have total := (tells after ended).free_length
        rw [List.length_map,initCounter_free] at total
        omega
      · rw [if_neg some_room] at ended
        cases ended.symm.trans gone_on
    rw [some_room]
    omega

end Room

/-- A result of 0 says that the whole batch was enqueued exactly when its first job was, if it has one. -/
theorem batch_tells (power : RingSize size) :
    (∀ (sched : VgcScheduler size Counter Work) (jobs : List (VgcJob Work)) (count : Option Counter)
        (exchanges : Nat → Exchanges), sched.Sound → (∀ index, (exchanges index).Succeed) →
      ∃ result after, sched.vgcScheduleJobs jobs jobs.length count exchanges = some (result,after) ∧
        ((result = 0 ↔ AllEnqueued count jobs (sched.initCounter jobs.length count) after) ↔
          ∀ job, jobs.head? = some job → sched.Accepts job)) ∧
    ∀ (sched : VgcScheduler size Counter (SbevTrampArg Cb Data)) (cbs : List (SbevCbAndData Cb Data)) (handle : Nat)
        (evData : Data) (count : Option Counter) (exchanges : Nat → Exchanges), sched.Sound →
      (∀ index, (exchanges index).Succeed) →
      ((∀ after, scheduleCbs sched cbs handle evData count exchanges = some after →
        AllEnqueued count (cbs.map (emitJob evData handle)) (sched.initCounter (cInt cbs.length) count) after) ↔
      cbs = [] ∨ (1 ≤ sched.room .midQ ∧ 0 < cInt cbs.length ∧
        ((sched.room .midQ : Int) < cInt cbs.length ∨ cInt cbs.length = cbs.length))) :=
  ⟨fun _ jobs count _ sound succeed => vgcScheduleJobs_tells power sound jobs count succeed,
    fun _ cbs handle evData count _ sound succeed => scheduleCbs_tells cbs handle evData count power sound succeed⟩

def tickJob : VgcJob (SbevTrampArg Unit Unit) := emitJob () 1 ⟨some (),()⟩

theorem batch_tells_accepted : ∃ sched : VgcScheduler 2 Unit (SbevTrampArg Unit Unit),
    sched.free = [.fiber 0,.fiber 1] ∧
      (∃ result after, sched.vgcScheduleJobs [tickJob] 1 (some ()) (fun _ => atOnce) = some (result,after) ∧
        ((result = 0 ↔ AllEnqueued (some ()) [tickJob] (sched.initCounter 1 (some ())) after) ↔
          ∀ job, [tickJob].head? = some job → sched.Accepts job)) ∧
      ((∀ after, scheduleCbs sched [⟨some (),()⟩] 1 () (some ()) (fun _ => atOnce) = some after →
        AllEnqueued (some ()) [tickJob] (sched.initCounter 1 (some ())) after) ↔
      [(⟨some (),()⟩ : SbevCbAndData Unit Unit)] = [] ∨ (1 ≤ sched.room .midQ ∧ 0 < cInt 1 ∧
        ((sched.room .midQ : Int) < cInt 1 ∨ cInt 1 = 1))) := by
  obtain ⟨sched,_,sound,holds,_⟩ := vgcSchedulerInit_sound ringSize_two (fun _ => 0) (fun _ => .stray)
    (fun _ : Unit => vgcCounterInit 0) (fun _ => List.mem_singleton_self false)
  obtain ⟨schedules,emits⟩ := @batch_tells 2 Unit (SbevTrampArg Unit Unit) Unit Unit _ ringSize_two
  exact ⟨sched,holds,schedules sched [tickJob] (some ()) _ sound fun _ => atOnce_succeed,
    emits sched [⟨some (),()⟩] 1 () (some ()) _ sound fun _ => atOnce_succeed⟩

/-- The index of the job that found no fiber is taken for success, and the counter stays at 1. -/
theorem batch_tells_fails : (bothBusy (SbevTrampArg Unit Unit)).Sound ∧ ∃ after,
    (bothBusy _).vgcScheduleJobs [tickJob] 1 (some ()) (fun _ => atOnce) = some (0,after) ∧
      ¬AllEnqueued (some ()) [tickJob] ((bothBusy _).initCounter 1 (some ())) after ∧
      scheduleCbs (bothBusy _) [⟨some (),()⟩] 1 () (some ()) (fun _ => atOnce) = some after ∧
      (after.counters ()).counter = 1 := by
  refine ⟨bothBusy_sound _,(bothBusy _).initCounter 1 (some ()),rfl,fun all => ?_,rfl,rfl⟩
  have fewer := all.free_length
  rw [initCounter_free,bothBusy_free] at fewer
  cases fewer

end CSpock.Event
