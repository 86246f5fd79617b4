import CSpock.Event.Registry
import CSpock.Fibers.Scheduler
import CSpock.Numeric

/-! Emits. `sbev_emit_event` copies the callbacks of an event under the locks and makes a
job of each cell of the copy when it has let go of them. -/
set_option linter.unusedSectionVars false
namespace CSpock.Event
open CSpock.Library.Transition CSpock.Fibers CSpock.Numeric

variable {Thread Cb Data : Type} [DecidableEq Thread]

structure SbevTrampArg (Cb Data : Type) where
  cbs : SbevCbAndData Cb Data
  evData : Data
  handle : Nat
  deriving Repr, DecidableEq

/-- The callback that is called, with its arguments; calling `NULL` has no result. -/
def sbevTrampoline (arg : SbevTrampArg Cb Data) : Option (Cb × Data × Data × Nat) :=
  arg.cbs.cb.map fun cb => (cb,arg.cbs.cbData,arg.evData,arg.handle)

def emitJob (evData : Data) (handle : Nat) (cell : SbevCbAndData Cb Data) : VgcJob (SbevTrampArg Cb Data) :=
  ⟨⟨cell,evData,handle⟩,.mid⟩

def SbevEventEntry.copyCbs (ent : SbevEventEntry Cb Data) : Nat → Option (List (SbevCbAndData Cb Data))
  | 0 => some []
  | len+1 => do
    let cbs ← ent.copyCbs len
    let cell ← load ent.cbs ent.max len
    return cbs ++ [cell]

section
variable {Work : Type}

/-- The loop of `vgc_schedule_jobs` from an index on: the jobs that are enqueued, and what it returns. -/
def scheduleFrom (accepts : Nat → Bool) : Nat → List (VgcJob Work) → List (VgcJob Work) × Nat
  | _,[] => ([],0)
  | index,job::jobs =>
    if accepts index then (job::(scheduleFrom accepts (index+1) jobs).1,(scheduleFrom accepts (index+1) jobs).2)
    else ([],index)

/-- `accepts` says which calls of `vgc_enque_job` succeed. -/
def vgcScheduleJobs (jobs : List (VgcJob Work)) (len : Int) (accepts : Nat → Bool) : List (VgcJob Work) × Nat :=
  scheduleFrom accepts 0 (jobs.take len.toNat)

/-- What is sent are the jobs in front of the first one that is refused. -/
theorem scheduleFrom_sends (accepts : Nat → Bool) (index : Nat) (jobs : List (VgcJob Work)) :
    ∃ done, done ≤ jobs.length ∧ (scheduleFrom accepts index jobs).1 = jobs.take done ∧
      ∀ slot, slot < done ↔ slot < jobs.length ∧ ∀ earlier, earlier ≤ slot → accepts (index + earlier) = true := by
  induction jobs generalizing index with
  | nil => exact ⟨0,le_refl 0,rfl,fun slot => by simp⟩
  | cons job jobs ih =>
    unfold scheduleFrom
    split
    next accepted =>
      obtain ⟨done,inside,sent,before⟩ := ih (index+1)
      refine ⟨done+1,Nat.succ_le_succ inside,by rw [sent,List.take_succ_cons],fun slot => ?_⟩
      cases slot with
      | zero => exact iff_of_true (Nat.succ_pos _) ⟨Nat.succ_pos _,fun earlier zero => by rwa [Nat.le_zero.mp zero]⟩
      | succ slot =>
        rw [Nat.succ_lt_succ_iff,before,List.length_cons,Nat.succ_lt_succ_iff]
        refine and_congr_right fun _ => ⟨fun later earlier less => ?_,fun all earlier less => ?_⟩
        · cases earlier with
          | zero => exact accepted
          | succ earlier =>
            rw [← Nat.add_assoc,Nat.add_right_comm]
            exact later earlier (Nat.le_of_succ_le_succ less)
        · rw [Nat.add_right_comm]
          exact all (earlier+1) (Nat.succ_le_succ less)
    next refused =>
      exact ⟨0,Nat.zero_le _,rfl,fun slot => iff_of_false (Nat.not_lt_zero _) fun all => refused (all.2 0 (Nat.zero_le _))⟩

end

/-- What an emit has copied. `ent` and `registered` are not in the code: they say what it was copied from. -/
structure Copied (Cb Data : Type) where
  cbs : List (SbevCbAndData Cb Data)
  handle : Nat
  evData : Data
  ent : SbevEventEntry Cb Data
  registered : Nat → Option (Cb × Data)

/-- The part of an emit that comes after the locks: the jobs that are sent, and the result. -/
def Copied.schedule (copied : Copied Cb Data) (accepts : Nat → Bool) : List (VgcJob (SbevTrampArg Cb Data)) × Nat :=
  vgcScheduleJobs (copied.cbs.map (emitJob copied.evData copied.handle)) (cInt copied.cbs.length) accepts

structure Emission (Cb Data : Type) where
  copied : Copied Cb Data
  accepts : Nat → Bool
  jobs : List (VgcJob (SbevTrampArg Cb Data))

/-- The table, the callbacks that are registered in it, the copies of the threads that are in an emit, the emits
that have come to their end, and whether the process has. -/
structure EmitSys (Thread Cb Data : Type) where
  ev : SbevEventcore Cb Data
  live : Nat → Nat → Option (Cb × Data)
  threads : Thread → Option (Copied Cb Data)
  emitted : List (Emission Cb Data)
  exited : Bool

inductive EmitAct (Cb Data : Type) where
  | regEvent (moves : Bool) (nomen : Nomen)
  | regCb (evHandle : Nat) (cb : Cb) (cbData : Data)
  | unregCb (evHandle entHandle : Nat)
  | emit (handle : Nat) (evData : Data)
  | go (accepts : Nat → Bool)

namespace EmitSys

def setLive (sys : EmitSys Thread Cb Data) (evHandle entHandle : Nat) (value : Option (Cb × Data)) :
    Nat → Nat → Option (Cb × Data) :=
  Function.update sys.live evHandle (Function.update (sys.live evHandle) entHandle value)

/-- The part of `sbev_emit_event` under the locks. -/
def emit (sys : EmitSys Thread Cb Data) (thread : Thread) (handle : Nat) (evData : Data) :
    Option (EmitSys Thread Cb Data) := do
  let ent ← load sys.ev.entries sys.ev.max handle
  let cbs ← ent.copyCbs ent.cur
  let copied : Copied Cb Data := ⟨cbs,handle,evData,ent,sys.live handle⟩
  if ent.cur = 0 then return { sys with emitted := sys.emitted ++ [⟨copied,fun _ => true,[]⟩] }
  else return { sys with threads := Function.update sys.threads thread (some copied) }

/-- The jobs of a copy are sent. On a result other than 0 the emit ends the process. -/
def sent (sys : EmitSys Thread Cb Data) (thread : Thread) (copied : Copied Cb Data) (accepts : Nat → Bool) :
    EmitSys Thread Cb Data :=
  { sys with
    threads := Function.update sys.threads thread none
    emitted := sys.emitted ++ [⟨copied,accepts,(copied.schedule accepts).1⟩]
    exited := (copied.schedule accepts).2 ≠ 0 }

def step (sys : EmitSys Thread Cb Data) (label : Thread × EmitAct Cb Data) : Option (EmitSys Thread Cb Data) :=
  if sys.exited then none else
  match sys.threads label.1,label.2 with
  | none,.regEvent moves nomen => (sys.ev.sbevRegEvent moves nomen).map fun result => { sys with ev := result.2 }
  | none,.regCb evHandle cb cbData => (sys.ev.sbevRegCb evHandle (some cb) cbData).map fun result =>
      { sys with ev := result.2, live := sys.setLive evHandle result.1 (some (cb,cbData)) }
  | none,.unregCb evHandle entHandle => (sys.ev.sbevUnregCb evHandle entHandle).map fun ev =>
      { sys with ev := ev, live := sys.setLive evHandle entHandle none }
  | none,.emit handle evData => sys.emit label.1 handle evData
  | some copied,.go accepts => some (sys.sent label.1 copied accepts)
  | _,_ => none

def init (ev : SbevEventcore Cb Data) : EmitSys Thread Cb Data := ⟨ev,fun _ _ => none,fun _ => none,[],false⟩

def Registered (sys : EmitSys Thread Cb Data) (label : Thread × EmitAct Cb Data) : Prop :=
  match label.2 with
  | .unregCb evHandle entHandle => (sys.live evHandle entHandle).isSome = true
  | _ => True

instance (sys : EmitSys Thread Cb Data) (label : Thread × EmitAct Cb Data) : Decidable (sys.Registered label) := by
  unfold Registered
  split <;> infer_instance

end EmitSys

def Emission.Exact (emission : Emission Cb Data) : Prop :=
  (∃ slots : List Nat, slots.Nodup ∧ (∀ slot, slot ∈ slots ↔ (emission.copied.registered slot).isSome = true) ∧
    emission.jobs.map some = slots.map fun slot => (emission.copied.registered slot).map fun callback =>
      emitJob emission.copied.evData emission.copied.handle ⟨some callback.1,callback.2⟩) ∧
  ∀ job ∈ emission.jobs, (sbevTrampoline job.work).isSome = true

/-- The registered callbacks are in the cells that the loop of an `int` index over `cur` comes to, each job up to
theirs being accepted, and no other cell is come to so. -/
def Emission.Covers (emission : Emission Cb Data) : Prop :=
  ∀ slot : Nat, (emission.copied.registered slot).isSome = true ↔
    (slot : Int) < cInt emission.copied.ent.cur ∧ ∀ earlier, earlier ≤ slot → emission.accepts earlier = true

end CSpock.Event
