import CSpock.Event.Registry

/-! Calls of `sbev_reg_event` by threads that do not wait for each other. Each takes the
lock once for the lookup and again for the insertion, and reads the handle of what it found
when it has let go of the lock. -/
set_option linter.unusedSectionVars false
namespace CSpock.Event
open CSpock.Library.Transition

variable {Thread Cb Data : Type} [DecidableEq Thread]

/-- Where a thread is in `sbev_reg_event`. -/
inductive RegPoint where
  | outside
  | lookup (nomen : Nomen)
  | found (nomen : Nomen) (find : Pointer)
  | missing (nomen : Nomen)

/-- `freed` is what a read through a pointer into a freed array comes back with. -/
inductive RegAct (Cb Data : Type) where
  | call (nomen : Nomen)
  | go (moves : Bool) (freed : Nat)
  | regCb (evHandle : Nat) (cb : Option Cb) (cbData : Data)
  | unregCb (evHandle entHandle : Nat)

/-- The table, the threads and the calls that have come back, each with its name and handle. -/
structure RegSys (Thread Cb Data : Type) where
  ev : SbevEventcore Cb Data
  threads : Thread → RegPoint
  returned : List (Nomen × Nat)

namespace RegSys

def setPoint (sys : RegSys Thread Cb Data) (thread : Thread) (point : RegPoint) : RegSys Thread Cb Data :=
  { sys with threads := Function.update sys.threads thread point }

def back (sys : RegSys Thread Cb Data) (thread : Thread) (nomen : Nomen) (handle : Nat) : RegSys Thread Cb Data :=
  { sys with threads := Function.update sys.threads thread .outside, returned := sys.returned ++ [(nomen,handle)] }

def go (sys : RegSys Thread Cb Data) (thread : Thread) (moves : Bool) (freed : Nat) :
    Option (RegSys Thread Cb Data) :=
  match sys.threads thread with
  | .outside => none
  | .lookup nomen => (sys.ev.hashFindStr nomen).map fun
    | some find => sys.setPoint thread (.found nomen find)
    | none => sys.setPoint thread (.missing nomen)
  | .found nomen find =>
    if find.block = sys.ev.block then (sys.ev.read find).map fun ent => sys.back thread nomen ent.handle
    else some (sys.back thread nomen freed)
  | .missing nomen =>
    (sys.ev.insert moves nomen).map fun result => { sys with ev := result.2 }.back thread nomen result.1

def step (sys : RegSys Thread Cb Data) (label : Thread × RegAct Cb Data) : Option (RegSys Thread Cb Data) :=
  match sys.threads label.1,label.2 with
  | .outside,.call nomen => some (sys.setPoint label.1 (.lookup nomen))
  | .outside,.regCb evHandle cb cbData =>
    (sys.ev.sbevRegCb evHandle cb cbData).map fun result => { sys with ev := result.2 }
  | .outside,.unregCb evHandle entHandle =>
    (sys.ev.sbevUnregCb evHandle entHandle).map fun ev => { sys with ev := ev }
  | _,.go moves freed => sys.go label.1 moves freed
  | _,_ => none

def init (ev : SbevEventcore Cb Data) : RegSys Thread Cb Data := ⟨ev,fun _ => .outside,[]⟩

/-- No call inserts a name that is there by now, or reads a handle from where the entries are no more. -/
def Alone (sys : RegSys Thread Cb Data) (label : Thread × RegAct Cb Data) : Prop :=
  match sys.threads label.1 with
  | .missing nomen => ∀ index, index < sys.ev.cur → sys.ev.nomenAt index ≠ some nomen
  | .found _ find => find.block = sys.ev.block
  | _ => True

instance (sys : RegSys Thread Cb Data) (label : Thread × RegAct Cb Data) : Decidable (sys.Alone label) := by
  unfold Alone
  split <;> infer_instance

/-- Calls with one name came back with one handle, and no two entries have one name. -/
structure Agreed (sys : RegSys Thread Cb Data) : Prop where
  returned : ∀ first ∈ sys.returned, ∀ second ∈ sys.returned, first.1 = second.1 → first.2 = second.2
  distinct : sys.ev.Distinct

/-- What the calls rest on while they are about. -/
structure Settled (sys : RegSys Thread Cb Data) : Prop where
  linked : sys.ev.Linked
  distinct : sys.ev.Distinct
  given : ∀ nomen handle, (nomen,handle) ∈ sys.returned →
    handle < sys.ev.cur ∧ sys.ev.nomenAt handle = some nomen
  finds : ∀ thread nomen find, sys.threads thread = .found nomen find → find.block ≤ sys.ev.block ∧
    (find.block = sys.ev.block → find.index < sys.ev.cur ∧ sys.ev.nomenAt find.index = some nomen)

variable {sys after : RegSys Thread Cb Data}

theorem Settled.agreed (settled : sys.Settled) : sys.Agreed := by
  refine ⟨fun first firstGiven second secondGiven same => ?_,settled.distinct⟩
  obtain ⟨firstLess,firstNamed⟩ := settled.given _ _ firstGiven
  obtain ⟨secondLess,secondNamed⟩ := settled.given _ _ secondGiven
  exact settled.distinct _ _ firstLess secondLess (by rw [firstNamed,secondNamed,same])

theorem Settled.carry (settled : sys.Settled) {ev : SbevEventcore Cb Data} (linked : ev.Linked)
    (distinct : ev.Distinct) (cur : sys.ev.cur ≤ ev.cur) (block : sys.ev.block ≤ ev.block)
    (names : ∀ index, index < sys.ev.cur → ev.nomenAt index = sys.ev.nomenAt index) :
    Settled { sys with ev := ev } := by
  refine ⟨linked,distinct,fun nomen handle given => ?_,fun thread nomen find point => ?_⟩
  · obtain ⟨less,named⟩ := settled.given nomen handle given
    exact ⟨lt_of_lt_of_le less cur,(names handle less).trans named⟩
  · obtain ⟨older,current⟩ := settled.finds thread nomen find point
    refine ⟨le_trans older block,fun same => ?_⟩
    obtain ⟨less,named⟩ := current (le_antisymm older (block.trans_eq same.symm))
    exact ⟨lt_of_lt_of_le less cur,(names find.index less).trans named⟩

theorem Settled.amend (settled : sys.Settled) {ev : SbevEventcore Cb Data} (amended : sys.ev.Amended ev) :
    Settled { sys with ev := ev } :=
  settled.carry amended.linked (amended.distinct settled.distinct) (le_of_eq amended.cur.symm)
    (le_of_eq amended.block.symm) fun index _ => amended.names index

theorem Settled.setPoint (settled : sys.Settled) (thread : Thread) (point : RegPoint)
    (finds : ∀ nomen find, point = .found nomen find → find.block ≤ sys.ev.block ∧
      (find.block = sys.ev.block → find.index < sys.ev.cur ∧ sys.ev.nomenAt find.index = some nomen)) :
    (sys.setPoint thread point).Settled := by
  refine ⟨settled.linked,settled.distinct,settled.given,fun other nomen find there => ?_⟩
  by_cases here : other = thread
  · subst here
    have same : (sys.setPoint other point).threads other = point := Function.update_self ..
    exact finds nomen find (same.symm.trans there)
  · have same : (sys.setPoint thread point).threads other = sys.threads other := Function.update_of_ne here ..
    exact settled.finds other nomen find (same.symm.trans there)

theorem Settled.back (settled : sys.Settled) (thread : Thread) {nomen : Nomen} {handle : Nat}
    (less : handle < sys.ev.cur) (named : sys.ev.nomenAt handle = some nomen) :
    (sys.back thread nomen handle).Settled := by
  have outside := settled.setPoint thread .outside nofun
  refine ⟨outside.linked,outside.distinct,fun name number given => ?_,outside.finds⟩
  rcases List.mem_append.mp given with old | new
  · exact settled.given name number old
  · cases List.mem_singleton.mp new
    exact ⟨less,named⟩

theorem Settled.go (settled : sys.Settled) {thread : Thread} {act : RegAct Cb Data} {moves : Bool} {freed : Nat}
    (alone : sys.Alone (thread,act)) (went : sys.go thread moves freed = some after) : after.Settled := by
  unfold RegSys.go at went
  split at went
  next => cases went
  next nomen point =>
    rcases settled.linked.hashFindStr nomen with ⟨index,less,named,found⟩ | ⟨_,missing⟩
    · rw [found] at went
      cases went
      refine settled.setPoint thread _ fun name find same => ?_
      cases same
      exact ⟨le_refl _,fun _ => ⟨less,named⟩⟩
    · rw [missing] at went
      cases went
      exact settled.setPoint thread _ nofun
  next nomen find point =>
    simp only [Alone,point] at alone
    obtain ⟨less,named⟩ := (settled.finds thread nomen find point).2 alone
    obtain ⟨ent,read,handle⟩ := settled.linked.read less
    rw [if_pos alone,show find = ⟨sys.ev.block,find.index⟩ from by rw [← alone],read] at went
    cases went
    exact settled.back thread (handle ▸ less) (handle ▸ named)
  next nomen point =>
    simp only [Alone,point] at alone
    obtain ⟨ev,inserted,appended⟩ := settled.linked.insert moves nomen
    rw [inserted] at went
    cases went
    have carried := settled.carry appended.linked (appended.distinct settled.distinct alone) appended.kept.cur
      appended.kept.block fun index less => appended.kept.nomenAt less
    exact carried.back thread (appended.cur ▸ Nat.lt_succ_self _) appended.nomenAt

theorem Settled.step (settled : sys.Settled) {label : Thread × RegAct Cb Data} (alone : sys.Alone label)
    (stepped : sys.step label = some after) : after.Settled := by
  obtain ⟨thread,act⟩ := label
  unfold RegSys.step at stepped
  split at stepped
  next => cases stepped; exact settled.setPoint thread _ nofun
  next =>
    obtain ⟨⟨_,ev⟩,done,rfl⟩ := Option.map_eq_some_iff.mp stepped
    exact settled.amend (settled.linked.sbevRegCb done)
  next =>
    obtain ⟨ev,done,rfl⟩ := Option.map_eq_some_iff.mp stepped
    exact settled.amend (settled.linked.sbevUnregCb done)
  next => exact settled.go alone stepped
  next => cases stepped

theorem init_settled {ev : SbevEventcore Cb Data} (initialised : SbevEventcore.sbevInitEvent = some ev) :
    (init ev : RegSys Thread Cb Data).Settled := by
  obtain ⟨registry,same,ordered,_⟩ := @Registry.init_ordered Cb Data
  simp only [Registry.init,initialised,Option.map_some,Option.some.injEq] at same
  cases same
  exact ⟨ordered.linked,ordered.distinct,by rintro _ _ ⟨⟩,by rintro _ _ _ ⟨⟩⟩

end RegSys

/-- As long as no call inserts a name that another has inserted since the lookup, and none reads a handle from
where the entries were before they were moved. -/
theorem run_agreed {ev : SbevEventcore Cb Data} {sys : RegSys Thread Cb Data}
    (initialised : SbevEventcore.sbevInitEvent = some ev)
    (run : Run RegSys.step RegSys.Alone (RegSys.init ev) sys) : sys.Agreed :=
  (run.invariant (RegSys.init_settled initialised) fun _ _ _ settled alone stepped =>
    settled.step alone stepped).agreed

def namesInTurn : List (Bool × RegAct Unit Unit) :=
  [(false,.call [1]),(false,.go false 0),(false,.go false 0),(true,.call [1]),(true,.go false 0),(true,.go false 0)]

/-- Both look for a name in front of the first insertion. -/
def namesAtOnce : List (Bool × RegAct Unit Unit) :=
  [(false,.call [1]),(true,.call [1]),(false,.go false 0),(true,.go false 0),(false,.go false 0),(true,.go false 0)]

theorem run_agreed_turns : ∃ (ev : SbevEventcore Unit Unit) (sys : RegSys Bool Unit Unit),
    SbevEventcore.sbevInitEvent = some ev ∧
      replay RegSys.step RegSys.Alone (RegSys.init ev) namesInTurn = some sys ∧
        sys.returned = [([1],3),([1],3)] ∧ sys.Agreed := by
  have ran : (SbevEventcore.sbevInitEvent.bind fun ev : SbevEventcore Unit Unit =>
      (replay RegSys.step RegSys.Alone (RegSys.init ev) namesInTurn).map RegSys.returned) =
        some [([1],3),([1],3)] := by decide +kernel
  obtain ⟨ev,initialised,ran⟩ := Option.bind_eq_some_iff.mp ran
  obtain ⟨sys,replayed,returned⟩ := Option.map_eq_some_iff.mp ran
  exact ⟨ev,sys,initialised,replayed,returned,run_agreed initialised (Run.start.replay replayed)⟩

/-- Two calls with one name come back with two handles, for two entries. -/
theorem run_agreed_fails : ∃ (ev : SbevEventcore Unit Unit) (sys : RegSys Bool Unit Unit),
    SbevEventcore.sbevInitEvent = some ev ∧ Run RegSys.step (fun _ _ => True) (RegSys.init ev) sys ∧
      ([1],3) ∈ sys.returned ∧ ([1],4) ∈ sys.returned ∧ ¬sys.ev.Distinct ∧ ¬sys.Agreed := by
  have ran : (SbevEventcore.sbevInitEvent.bind fun ev : SbevEventcore Unit Unit =>
      (replay RegSys.step (fun _ _ => True) (RegSys.init ev) namesAtOnce).map fun sys =>
        decide (sys.returned = [([1],3),([1],4)] ∧ sys.ev.cur = 5 ∧ sys.ev.nomenAt 3 = sys.ev.nomenAt 4)) =
          some true := by decide +kernel
  obtain ⟨ev,initialised,ran⟩ := Option.bind_eq_some_iff.mp ran
  obtain ⟨sys,replayed,state⟩ := Option.map_eq_some_iff.mp ran
  obtain ⟨returned,cur,same⟩ := of_decide_eq_true state
  have doubled : ¬sys.ev.Distinct := by
    intro distinct
    have equal := distinct 3 4 (by rw [cur]; decide) (by rw [cur]; decide) same
    cases equal
  exact ⟨ev,sys,initialised,Run.start.replay replayed,by simp [returned],by simp [returned],doubled,
    fun agreed => doubled agreed.distinct⟩

end CSpock.Event
