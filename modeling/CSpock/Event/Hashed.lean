import CSpock.Event.Hashing
import CSpock.Event.Registry

/-! `sbev_reg_event` with its map as it is in memory: a hash table in the entries. It gives
the handles that it gives with a map from names to entries. -/
namespace CSpock.Event
open CSpock.Library.Transition

variable {Cb Data : Type} {hashFcn : List UInt8 → UInt32}

/-- The event table, whose own map is not used. -/
structure HashedCore (Cb Data : Type) where
  ev : SbevEventcore Cb Data
  map : UtHash Pointer

namespace HashedCore

/-- No chain is longer than the number of the entries. -/
def hashAdd (hashFcn : List UInt8 → UInt32) (core : HashedCore Cb Data) (index : Nat) : Option (HashedCore Cb Data) := do
  let ent ← load core.ev.entries core.ev.max index
  let map ← hashAddKeyptr hashFcn (core.ev.cur + 1) core.map ent.nomen ⟨core.ev.block,index⟩
  return { core with map := map }

def hashAddAll (hashFcn : List UInt8 → UInt32) (core : HashedCore Cb Data) : Nat → Option (HashedCore Cb Data)
  | 0 => some core
  | index+1 => (core.hashAddAll hashFcn index).bind fun core => core.hashAdd hashFcn index

def grow (hashFcn : List UInt8 → UInt32) (core : HashedCore Cb Data) (moves : Bool) : Option (HashedCore Cb Data) :=
  hashAddAll hashFcn {
    ev := { core.ev with max := core.ev.max * 2, block := if moves then core.ev.block + 1 else core.ev.block }
    map := hashClear core.map } core.ev.cur

def append (hashFcn : List UInt8 → UInt32) (core : HashedCore Cb Data) (nomen : Nomen) : Option (Nat × HashedCore Cb Data) := do
  let handle := core.ev.cur
  let entries ← store core.ev.entries core.ev.max handle (sbevInitEventEntry nomen handle)
  let core ← { core with ev := { core.ev with cur := core.ev.cur + 1, entries := entries } }.hashAdd hashFcn handle
  return (handle,core)

def sbevRegEvent (hashFcn : List UInt8 → UInt32) (core : HashedCore Cb Data) (moves : Bool) (nomen : Nomen) :
    Option (Nat × HashedCore Cb Data) := do
  match ← hashFind hashFcn (core.ev.cur + 1) core.map nomen with
  | some find =>
    let ent ← core.ev.read find
    return (ent.handle,core)
  | none =>
    let core ← if core.ev.cur = core.ev.max then core.grow hashFcn moves else some core
    core.append hashFcn nomen

/-- What is in `handles` before the first event is registered does not matter. -/
def sbevInitEvent (hashFcn : List UInt8 → UInt32) (handles : UtHashHandles Pointer) : Option (HashedCore Cb Data) := do
  let core : HashedCore Cb Data := ⟨⟨[],fun _ => none,0,20,0,0,0,0⟩,⟨handles,none⟩⟩
  let (start,core) ← core.sbevRegEvent hashFcn false (nomenOf "start")
  let (tick,core) ← core.sbevRegEvent hashFcn false (nomenOf "tick")
  let (kill,core) ← core.sbevRegEvent hashFcn false (nomenOf "kill")
  return { core with ev := { core.ev with start := start, tick := tick, kill := kill } }

variable {core : HashedCore Cb Data} {ev : SbevEventcore Cb Data}

def places (block len : Nat) : List Pointer := (List.range len).map fun index => ⟨block,index⟩

/-- The table has the first entries, with their names. -/
structure Stored (hashFcn : List UInt8 → UInt32) (core : HashedCore Cb Data) (len : Nat) : Prop where
  holds : core.map.Holds hashFcn (places core.ev.block len)
  keys : ∀ index, index < len → ∃ nomen, core.ev.nomenAt index = some nomen ∧
    core.map.handles.key ⟨core.ev.block,index⟩ = utKey nomen

theorem mem_places {block len : Nat} {find : Pointer} : find ∈ places block len ↔ find.block = block ∧ find.index < len := by
  obtain ⟨own,index⟩ := find
  simp only [places,List.mem_map,List.mem_range,Pointer.mk.injEq]
  constructor
  · rintro ⟨_,less,rfl,rfl⟩
    exact ⟨rfl,less⟩
  · rintro ⟨rfl,less⟩
    exact ⟨index,less,rfl,rfl⟩

theorem Stored.hashAdd {len : Nat} (stored : core.Stored hashFcn len) (few : len ≤ core.ev.cur) (room : len < core.ev.max)
    {ent : SbevEventEntry Cb Data} (there : core.ev.entries len = some ent) :
    ∃ after, core.hashAdd hashFcn len = some after ∧ after.ev = core.ev ∧ after.Stored hashFcn (len + 1) := by
  have fresh : (⟨core.ev.block,len⟩ : Pointer) ∉ places core.ev.block len := fun there =>
    absurd (mem_places.mp there).2 (lt_irrefl _)
  obtain ⟨map,added,holds,keys⟩ := hashAddKeyptr_holds stored.holds ent.nomen fresh
    (show (places core.ev.block len).length < core.ev.cur + 1 by simpa [places] using Nat.lt_succ_of_le few)
  refine ⟨⟨core.ev,map⟩,?_,rfl,?_,fun index less => ?_⟩
  · simp only [HashedCore.hashAdd,load,if_pos room,there,added,Option.bind_eq_bind,Option.bind_some,Option.pure_def]
  · simpa [places,List.range_succ] using holds
  · rw [keys]
    rcases Nat.lt_succ_iff_lt_or_eq.mp less with less | rfl
    · have apart : (⟨core.ev.block,index⟩ : Pointer) ≠ ⟨core.ev.block,len⟩ := fun same =>
        absurd (Pointer.mk.inj same).2 (Nat.ne_of_lt less)
      rw [Function.update_of_ne apart]
      exact stored.keys index less
    · rw [Function.update_self]
      exact ⟨ent.nomen,by rw [SbevEventcore.nomenAt,there]; rfl,rfl⟩

theorem hashAddAll_stored (holds : core.map.Holds hashFcn []) {len : Nat} (few : len ≤ core.ev.cur) (room : len ≤ core.ev.max)
    (filled : ∀ index, index < len → ∃ ent, core.ev.entries index = some ent) :
    ∃ after, core.hashAddAll hashFcn len = some after ∧ after.ev = core.ev ∧ after.Stored hashFcn len := by
  induction len with
  | zero => exact ⟨core,rfl,rfl,holds,fun _ less => absurd less (Nat.not_lt_zero _)⟩
  | succ len ih =>
    obtain ⟨core',added,same,stored⟩ := ih (Nat.le_of_succ_le few) (Nat.le_of_succ_le room) fun index less =>
      filled index (Nat.lt_succ_of_lt less)
    obtain ⟨ent,there⟩ := filled len (Nat.lt_succ_self len)
    obtain ⟨after,last,same',stored'⟩ := stored.hashAdd (by rw [same]; omega) (by rw [same]; omega)
      (show core'.ev.entries len = some ent by rw [same,there])
    exact ⟨after,by rw [HashedCore.hashAddAll,added,Option.bind_some,last],same'.trans same,stored'⟩

def withEntry (ev : SbevEventcore Cb Data) (nomen : Nomen) : SbevEventcore Cb Data :=
  ({ ev with cur := ev.cur + 1 } : SbevEventcore Cb Data).setEntry ev.cur (sbevInitEventEntry nomen ev.cur)

theorem withEntry_old {nomen : Nomen} {index : Nat} (less : index < ev.cur) :
    (withEntry ev nomen).nomenAt index = ev.nomenAt index :=
  congrArg (Option.map _) (SbevEventcore.setEntry_other _ _ (Nat.ne_of_lt less))

theorem withEntry_new (ev : SbevEventcore Cb Data) (nomen : Nomen) :
    (withEntry ev nomen).entries ev.cur = some (sbevInitEventEntry nomen ev.cur) := SbevEventcore.setEntry_same ..

theorem Stored.append (stored : core.Stored hashFcn core.ev.cur) (room : core.ev.cur < core.ev.max) (nomen : Nomen) :
    ∃ after, core.append hashFcn nomen = some (core.ev.cur,after) ∧
      after.ev = withEntry core.ev nomen ∧ after.Stored hashFcn (core.ev.cur + 1) := by
  have added : Stored hashFcn ⟨withEntry core.ev nomen,core.map⟩ core.ev.cur := by
    refine ⟨stored.holds,fun index less => ?_⟩
    obtain ⟨name,named,keyed⟩ := stored.keys index less
    exact ⟨name,(withEntry_old less).trans named,keyed⟩
  obtain ⟨after,ran,same,stored'⟩ := added.hashAdd (Nat.le_succ _) room (withEntry_new ..)
  refine ⟨after,?_,same,stored'⟩
  rw [HashedCore.append,store,if_pos room]
  exact congrArg (Option.bind · fun core' => some (core.ev.cur,core')) ran

structure Backs (hashFcn : List UInt8 → UInt32) (core : HashedCore Cb Data) (ev : SbevEventcore Cb Data) : Prop where
  same : core.ev = { ev with entriesMap := [] }
  stored : core.Stored hashFcn ev.cur
  short : ∀ index nomen, index < ev.cur → ev.nomenAt index = some nomen → nomen.length < 2^32

theorem utKey_short {key : List UInt8} (short : key.length < 2^32) : utKey key = key := by
  rw [utKey,Nat.mod_eq_of_lt short,List.take_length]

theorem append_map (current : ∀ node ∈ ev.entriesMap, node.2.block = ev.block) (room : ev.cur < ev.max) (nomen : Nomen) :
    ∃ nodes, ev.append nomen = some (ev.cur,{ withEntry ev nomen with entriesMap := nodes }) := by
  have current' : ∀ node ∈ (withEntry ev nomen).entriesMap, node.2.block = (withEntry ev nomen).block := current
  have hashed : (withEntry ev nomen).hashAdd ev.cur =
      some { withEntry ev nomen with entriesMap := (nomen,⟨ev.block,ev.cur⟩) :: ev.entriesMap } := by
    rw [SbevEventcore.hashAdd,if_pos current',load,if_pos (show ev.cur < (withEntry ev nomen).max from room),withEntry_new]
    rfl
  refine ⟨(nomen,⟨ev.block,ev.cur⟩) :: ev.entriesMap,?_⟩
  rw [SbevEventcore.append,store,if_pos room]
  exact congrArg (Option.bind · fun ev' => some (ev.cur,ev')) hashed

theorem Backs.append (backs : core.Backs hashFcn ev) (current : ∀ node ∈ ev.entriesMap, node.2.block = ev.block)
    (room : ev.cur < ev.max) {nomen : Nomen} (short : nomen.length < 2^32) :
    ∃ after ev', core.append hashFcn nomen = some (ev.cur,after) ∧ ev.append nomen = some (ev.cur,ev') ∧
      after.Backs hashFcn ev' := by
  obtain ⟨same,stored,names⟩ := backs
  have cur : core.ev.cur = ev.cur := by rw [same]
  have max : core.ev.max = ev.max := by rw [same]
  obtain ⟨nodes,appended⟩ := append_map current room nomen
  obtain ⟨after,ran,same',stored'⟩ := Stored.append (by rwa [cur]) (by rwa [cur,max]) nomen
  rw [cur] at ran stored'
  refine ⟨after,_,ran,appended,?_,stored',fun index name less named => ?_⟩
  · rw [same',same]
    rfl
  · change (withEntry ev nomen).nomenAt index = some name at named
    rcases Nat.lt_succ_iff_lt_or_eq.mp less with less | rfl
    · exact names index name less ((withEntry_old less).symm.trans named)
    · rw [SbevEventcore.nomenAt,withEntry_new] at named
      exact Option.some.inj named ▸ short

theorem Backs.grow (backs : core.Backs hashFcn ev) (linked : ev.Linked) (full : ev.cur = ev.max) (moves : Bool) :
    ∃ after ev', core.grow hashFcn moves = some after ∧ ev.grow moves = some ev' ∧ after.Backs hashFcn ev' ∧
      (∀ node ∈ ev'.entriesMap, node.2.block = ev'.block) ∧ ev'.cur = ev.cur ∧ ev'.cur < ev'.max := by
  obtain ⟨same,stored,names⟩ := backs
  have some_room := linked.some_room
  have filled : ∀ index, index < ev.cur → ∃ ent, ev.entries index = some ent := fun index less =>
    (linked.filled index less).imp fun _ there => there.1
  obtain ⟨nodes,grown,mapped⟩ := @SbevEventcore.hashAddAll_mapped _ _ { ev with
    max := ev.max * 2
    entriesMap := []
    block := if moves then ev.block + 1 else ev.block } rfl ev.cur (show ev.cur ≤ ev.max * 2 by omega) filled
  obtain ⟨after,ran,same',stored'⟩ := @hashAddAll_stored _ _ hashFcn ⟨{ core.ev with
    max := core.ev.max * 2
    block := if moves then core.ev.block + 1 else core.ev.block },hashClear core.map⟩ (hashClear_holds ..) core.ev.cur (le_refl _)
    (show core.ev.cur ≤ core.ev.max * 2 by rw [same]; show ev.cur ≤ ev.max * 2; omega)
    (by rw [same]; exact filled)
  rw [same] at same' stored'
  refine ⟨after,_,ran,grown,⟨same',stored',names⟩,?_,rfl,?_⟩
  · rintro ⟨nomen,find⟩ node
    obtain ⟨_,_,_,rfl⟩ := (mapped nomen find).mp node
    rfl
  · show ev.cur < ev.max * 2
    omega

/-- A call gives the same handle, and goes on with tables that belong together. -/
theorem Backs.sbevRegEvent (backs : core.Backs hashFcn ev) (linked : ev.Linked) (distinct : ev.Distinct) (moves : Bool)
    {nomen : Nomen} (short : nomen.length < 2^32) :
    ∃ handle after ev', core.sbevRegEvent hashFcn moves nomen = some (handle,after) ∧
      ev.sbevRegEvent moves nomen = some (handle,ev') ∧ after.Backs hashFcn ev' := by
  have same := backs.same
  have block : core.ev.block = ev.block := by rw [same]
  obtain ⟨out,ran,outcome⟩ := hashFind_holds backs.stored.holds nomen
    (show (places core.ev.block ev.cur).length ≤ core.ev.cur + 1 by rw [same]; simp [places])
  have keyed : ∀ index name, index < ev.cur → ev.nomenAt index = some name →
      core.map.handles.key ⟨core.ev.block,index⟩ = name := by
    intro index name less named
    obtain ⟨name',named',key⟩ := backs.stored.keys index less
    have both : ev.nomenAt index = some name' := by
      rw [same] at named'
      exact named'
    rw [key,utKey_short (backs.short index name' less both)]
    exact Option.some.inj (both.symm.trans named)
  rw [utKey_short short] at outcome
  rcases linked.sbevRegEvent moves nomen with ⟨handle,less,named,found⟩ | ⟨absent,_⟩
  · obtain ⟨ent,read,own⟩ := linked.read less
    cases out with
    | none => exact absurd (keyed handle nomen less named) (outcome _ (mem_places.mpr ⟨rfl,less⟩))
    | some find =>
      obtain ⟨there,key⟩ := outcome
      obtain ⟨here,inside⟩ := mem_places.mp there
      obtain ⟨ent',there',_⟩ := linked.filled find.index inside
      have name : ev.nomenAt find.index = some ent'.nomen := by rw [SbevEventcore.nomenAt,there']; rfl
      have key' := keyed find.index ent'.nomen inside name
      rw [← here] at key'
      have index : find.index = handle := distinct _ _ inside less (by rw [name,named,← key',← key])
      have place : find = ⟨ev.block,handle⟩ := by rw [← index,← block,← here]
      have read' : core.ev.read find = some ent := by
        rw [place,same]
        exact read
      refine ⟨handle,core,ev,?_,found,backs⟩
      simp only [HashedCore.sbevRegEvent,ran,Option.bind_eq_bind,Option.bind_some,read',own,Option.pure_def]
  · have missing : ev.hashFindStr nomen = some none := by
      rcases linked.hashFindStr nomen with ⟨index,less,named,_⟩ | ⟨_,missing⟩
      · exact absurd named (absent index less)
      · exact missing
    cases out with
    | some find =>
      obtain ⟨there,key⟩ := outcome
      obtain ⟨here,inside⟩ := mem_places.mp there
      obtain ⟨ent',there',_⟩ := linked.filled find.index inside
      have name : ev.nomenAt find.index = some ent'.nomen := by rw [SbevEventcore.nomenAt,there']; rfl
      have key' := keyed find.index ent'.nomen inside name
      rw [← here] at key'
      exact absurd (name.trans (congrArg some (key'.symm.trans key))) (absent _ inside)
    | none =>
      have cur : core.ev.cur = ev.cur := by rw [same]
      have max : core.ev.max = ev.max := by rw [same]
      rw [cur] at ran
      by_cases full : ev.cur = ev.max
      · obtain ⟨core',grown,ran',grew,backs',current,cur',room⟩ := backs.grow linked full moves
        obtain ⟨after,ev',appended,appended',backs''⟩ := backs'.append current room short
        refine ⟨ev.cur,after,ev',?_,?_,backs''⟩
        · simp only [HashedCore.sbevRegEvent,ran,Option.bind_eq_bind,Option.bind_some,cur,max,if_pos full,ran',appended,cur']
        · simp only [SbevEventcore.sbevRegEvent,missing,SbevEventcore.insert,Option.bind_eq_bind,Option.bind_some,if_pos full,
            grew,appended',cur']
      · obtain ⟨after,ev',appended,appended',backs'⟩ :=
          backs.append linked.nodes (lt_of_le_of_ne linked.room full) short
        refine ⟨ev.cur,after,ev',?_,?_,backs'⟩
        · simp only [HashedCore.sbevRegEvent,ran,Option.bind_eq_bind,Option.bind_some,cur,max,if_neg full,appended]
        · simp only [SbevEventcore.sbevRegEvent,missing,SbevEventcore.insert,Option.bind_eq_bind,Option.bind_some,if_neg full,
            appended']

theorem Backs.amend (backs : core.Backs hashFcn ev) {ev' : SbevEventcore Cb Data} (cur : ev'.cur = ev.cur)
    (block : ev'.block = ev.block) (names : ∀ index, ev'.nomenAt index = ev.nomenAt index) :
    Backs hashFcn ⟨{ ev' with entriesMap := [] },core.map⟩ ev' := by
  have same := backs.same
  refine ⟨rfl,⟨?_,fun index less => ?_⟩,fun index name less named => ?_⟩
  · have holds := backs.stored.holds
    rw [same] at holds
    show core.map.Holds hashFcn (places ev'.block ev'.cur)
    rw [cur,block]
    exact holds
  · obtain ⟨name,named,keyed⟩ := backs.stored.keys index (lt_of_lt_of_eq less cur)
    rw [same] at named keyed
    refine ⟨name,(names index).trans named,?_⟩
    show core.map.handles.key ⟨ev'.block,index⟩ = _
    rw [block]
    exact keyed
  · exact backs.short index name (lt_of_lt_of_eq less cur) ((names index).symm.trans named)

end HashedCore

structure HashedRegistry (Cb Data : Type) where
  core : HashedCore Cb Data
  given : List (Nomen × Nat)

namespace HashedRegistry

def step (hashFcn : List UInt8 → UInt32) (registry : HashedRegistry Cb Data) : EventOp Cb Data → Option (HashedRegistry Cb Data)
  | .regEvent moves nomen => (registry.core.sbevRegEvent hashFcn moves nomen).map fun result =>
    ⟨result.2,registry.given ++ [(nomen,result.1)]⟩
  | .regCb evHandle cb cbData => (registry.core.ev.sbevRegCb evHandle cb cbData).map fun result =>
    { registry with core := { registry.core with ev := result.2 } }
  | .unregCb evHandle entHandle => (registry.core.ev.sbevUnregCb evHandle entHandle).map fun ev =>
    { registry with core := { registry.core with ev := ev } }

def init (hashFcn : List UInt8 → UInt32) (handles : UtHashHandles Pointer) : Option (HashedRegistry Cb Data) :=
  (HashedCore.sbevInitEvent hashFcn handles).map fun core =>
    ⟨core,[(nomenOf "start",core.ev.start),(nomenOf "tick",core.ev.tick),(nomenOf "kill",core.ev.kill)]⟩

/-- `keylen` is an `unsigned`. -/
def Short : EventOp Cb Data → Prop
  | .regEvent _ nomen => nomen.length < 2^32
  | _ => True

structure Agrees (hashFcn : List UInt8 → UInt32) (hashed : HashedRegistry Cb Data) (registry : Registry Cb Data) : Prop where
  given : hashed.given = registry.given
  backs : hashed.core.Backs hashFcn registry.ev
  ordered : registry.Ordered

variable {hashed : HashedRegistry Cb Data} {registry : Registry Cb Data}

theorem sbevRegCb_map (ev : SbevEventcore Cb Data) (nodes : List (Nomen × Pointer)) (evHandle : Nat) (cb : Option Cb)
    (cbData : Data) : ({ ev with entriesMap := nodes } : SbevEventcore Cb Data).sbevRegCb evHandle cb cbData =
      (ev.sbevRegCb evHandle cb cbData).map fun result => (result.1,{ result.2 with entriesMap := nodes }) := by
  simp only [SbevEventcore.sbevRegCb,Option.bind_eq_bind]
  cases load ev.entries ev.max evHandle with
  | none => rfl
  | some ent => cases registered : ent.regCb cb cbData <;> simp [registered,SbevEventcore.setEntry]

theorem sbevUnregCb_map (ev : SbevEventcore Cb Data) (nodes : List (Nomen × Pointer)) (evHandle entHandle : Nat) :
    ({ ev with entriesMap := nodes } : SbevEventcore Cb Data).sbevUnregCb evHandle entHandle =
      (ev.sbevUnregCb evHandle entHandle).map fun after => { after with entriesMap := nodes } := by
  simp only [SbevEventcore.sbevUnregCb,Option.bind_eq_bind]
  cases load ev.entries ev.max evHandle with
  | none => rfl
  | some ent => cases cleared : ent.unregCb entHandle <;> simp [cleared,SbevEventcore.setEntry]

theorem Agrees.regEvent (agrees : hashed.Agrees hashFcn registry) (moves : Bool) {nomen : Nomen} (short : nomen.length < 2^32) :
    ∃ handle core ev, hashed.core.sbevRegEvent hashFcn moves nomen = some (handle,core) ∧
      registry.ev.sbevRegEvent moves nomen = some (handle,ev) ∧
      Agrees hashFcn ⟨core,hashed.given ++ [(nomen,handle)]⟩ ⟨ev,registry.given ++ [(nomen,handle)]⟩ := by
  obtain ⟨handle,core,ev,ran,done,backs⟩ :=
    agrees.backs.sbevRegEvent agrees.ordered.linked agrees.ordered.distinct moves short
  obtain ⟨_,_,done',_,ordered⟩ := agrees.ordered.regEvent moves nomen
  cases done.symm.trans done'
  exact ⟨handle,core,ev,ran,done,by rw [agrees.given],backs,ordered⟩

theorem Agrees.step (agrees : hashed.Agrees hashFcn registry) {op : EventOp Cb Data} (short : Short op) :
    (hashed.step hashFcn op = none ∧ registry.step op = none) ∨
      ∃ hashed' registry', hashed.step hashFcn op = some hashed' ∧ registry.step op = some registry' ∧
        hashed'.Agrees hashFcn registry' := by
  have ordered := agrees.ordered
  have same := agrees.backs.same
  cases op with
  | regEvent moves nomen =>
    obtain ⟨handle,core,ev,ran,done,next⟩ := agrees.regEvent moves short
    exact .inr ⟨_,_,congrArg (Option.map _) ran,congrArg (Option.map _) done,next⟩
  | regCb evHandle cb cbData =>
    simp only [HashedRegistry.step,Registry.step,same,sbevRegCb_map]
    cases done : registry.ev.sbevRegCb evHandle cb cbData with
    | none => exact .inl ⟨rfl,rfl⟩
    | some result =>
      have amended := ordered.linked.sbevRegCb done
      exact .inr ⟨_,_,rfl,rfl,agrees.given,agrees.backs.amend amended.cur amended.block amended.names,ordered.amend amended⟩
  | unregCb evHandle entHandle =>
    simp only [HashedRegistry.step,Registry.step,same,sbevUnregCb_map]
    cases done : registry.ev.sbevUnregCb evHandle entHandle with
    | none => exact .inl ⟨rfl,rfl⟩
    | some ev =>
      have amended := ordered.linked.sbevUnregCb done
      exact .inr ⟨_,_,rfl,rfl,agrees.given,agrees.backs.amend amended.cur amended.block amended.names,ordered.amend amended⟩

theorem init_agrees (hashFcn : List UInt8 → UInt32) (handles : UtHashHandles Pointer) :
    ∃ (hashed : HashedRegistry Cb Data) (registry : Registry Cb Data),
      init hashFcn handles = some hashed ∧ Registry.init = some registry ∧ hashed.Agrees hashFcn registry := by
  have empty : Agrees hashFcn ⟨⟨(⟨[],fun _ => none,0,20,0,0,0,0⟩ : SbevEventcore Cb Data),⟨handles,none⟩⟩,[]⟩
      ⟨⟨[],fun _ => none,0,20,0,0,0,0⟩,[]⟩ :=
    ⟨rfl,⟨rfl,⟨rfl,fun _ less => absurd less (Nat.not_lt_zero _)⟩,fun _ _ less => absurd less (Nat.not_lt_zero _)⟩,.empty⟩
  obtain ⟨start,core₁,ev₁,ran₁,done₁,agrees₁⟩ := empty.regEvent false (show (nomenOf "start").length < 2^32 by decide)
  obtain ⟨tick,core₂,ev₂,ran₂,done₂,agrees₂⟩ := agrees₁.regEvent false (show (nomenOf "tick").length < 2^32 by decide)
  obtain ⟨kill,core₃,ev₃,ran₃,done₃,agrees₃⟩ := agrees₂.regEvent false (show (nomenOf "kill").length < 2^32 by decide)
  have linked := agrees₃.ordered.linked
  have amended : ev₃.Amended { ev₃ with start := start, tick := tick, kill := kill } :=
    ⟨⟨linked.some_room,linked.room,linked.filled,linked.unused,linked.mapped⟩,rfl,rfl,fun _ => rfl⟩
  have backs := agrees₃.backs.amend amended.cur amended.block amended.names
  refine ⟨⟨⟨{ core₃.ev with start := start, tick := tick, kill := kill },core₃.map⟩,_⟩,
    ⟨{ ev₃ with start := start, tick := tick, kill := kill },_⟩,?_,?_,rfl,?_,agrees₃.ordered.amend amended⟩
  · simp only [init,HashedCore.sbevInitEvent,ran₁,ran₂,ran₃,Option.bind_eq_bind,Option.bind_some,Option.pure_def,
      Option.map_some]
    rfl
  · simp only [Registry.init,SbevEventcore.sbevInitEvent,done₁,done₂,done₃,Option.bind_eq_bind,Option.bind_some,
      Option.pure_def,Option.map_some]
    rfl
  · rw [agrees₃.backs.same]
    exact backs

theorem Agrees.run (agrees : hashed.Agrees hashFcn registry) {ops : List (EventOp Cb Data)} (short : ∀ op ∈ ops, Short op) :
    (ops.foldlM (HashedRegistry.step hashFcn) hashed = none ∧ ops.foldlM Registry.step registry = none) ∨
      ∃ hashed' registry', ops.foldlM (HashedRegistry.step hashFcn) hashed = some hashed' ∧
        ops.foldlM Registry.step registry = some registry' ∧ hashed'.Agrees hashFcn registry' := by
  induction ops generalizing hashed registry with
  | nil => exact .inr ⟨hashed,registry,rfl,rfl,agrees⟩
  | cons op ops ih =>
    simp only [List.foldlM_cons]
    rcases agrees.step (short op (List.mem_cons_self ..)) with ⟨none',none''⟩ | ⟨hashed',registry',some',some'',agrees'⟩
    · exact .inl ⟨by rw [none']; rfl,by rw [none'']; rfl⟩
    · rw [some',some'']
      exact ih agrees' fun op later => short op (List.mem_cons_of_mem _ later)

end HashedRegistry

/-- With whatever hash function, and whatever was in the memory of the handles: any calls give the handles that they give
with a map, one for each name, and the hash table has the entries where they are. -/
theorem run_hashed (hashFcn : List UInt8 → UInt32) (handles : UtHashHandles Pointer) {ops : List (EventOp Cb Data)}
    (short : ∀ op ∈ ops, HashedRegistry.Short op) :
    ∃ start started, HashedRegistry.init hashFcn handles = some start ∧ Registry.init = some started ∧
      ((ops.foldlM (HashedRegistry.step hashFcn) start = none ∧ ops.foldlM Registry.step started = none) ∨
        ∃ hashed registry, ops.foldlM (HashedRegistry.step hashFcn) start = some hashed ∧
          ops.foldlM Registry.step started = some registry ∧ hashed.given = registry.given ∧
          hashed.core.ev.entries = registry.ev.entries ∧
          hashed.core.map.Holds hashFcn (HashedCore.places hashed.core.ev.block hashed.core.ev.cur) ∧
          ∀ first ∈ hashed.given, ∀ second ∈ hashed.given, first.1 = second.1 ↔ first.2 = second.2) := by
  obtain ⟨start,started,initialised,initialised',agrees⟩ := @HashedRegistry.init_agrees Cb Data hashFcn handles
  refine ⟨start,started,initialised,initialised',?_⟩
  rcases agrees.run short with refused | ⟨hashed,registry,ran,ran',agrees'⟩
  · exact .inl refused
  · have same := agrees'.backs.same
    have holds := agrees'.backs.stored.holds
    refine .inr ⟨hashed,registry,ran,ran',agrees'.given,by rw [same],?_,?_⟩
    · rw [same] at holds ⊢
      exact holds
    · rw [agrees'.given]
      exact agrees'.ordered.agrees.agree

/-- Names that all come into one bucket, until the buckets are doubled and the array has to grow. -/
def eventsHashed : List (EventOp Unit Unit) :=
  .regCb 1 (some ()) () :: (List.range 18).map fun index => .regEvent true [index.toUInt8]

def blankHandles : UtHashHandles Pointer := ⟨fun _ => none,fun _ => none,fun _ => none,fun _ => none,fun _ => [],fun _ => 0⟩

theorem run_hashed_grown : ∃ start hashed : HashedRegistry Unit Unit, HashedRegistry.init (fun _ => 0) blankHandles = some start ∧
    eventsHashed.foldlM (HashedRegistry.step fun _ => 0) start = some hashed ∧ hashed.core.ev.max = 40 ∧
    (hashed.core.map.table.map fun table => table.2.numBuckets) = some 64 ∧
    ∀ first ∈ hashed.given, ∀ second ∈ hashed.given, first.1 = second.1 ↔ first.2 = second.2 := by
  obtain ⟨start,started,initialised,_,outcome⟩ := run_hashed (fun _ => 0) blankHandles (show ∀ op ∈ eventsHashed,
    HashedRegistry.Short op by simp [eventsHashed,HashedRegistry.Short])
  have ran : ((HashedRegistry.init (fun _ => 0) blankHandles).bind fun start => (eventsHashed.foldlM (HashedRegistry.step fun _ => 0)
      start).map fun hashed => (hashed.core.ev.max,hashed.core.map.table.map fun table => table.2.numBuckets)) =
      some (40,some 64) := by decide +kernel
  rw [initialised,Option.bind_some] at ran
  obtain ⟨hashed,last,sizes⟩ := Option.map_eq_some_iff.mp ran
  rcases outcome with ⟨refused,_⟩ | ⟨hashed',_,last',_,_,_,_,agree⟩
  · rw [refused] at last
    cases last
  · cases last.symm.trans last'
    exact ⟨start,hashed,initialised,last,(Prod.mk.inj sizes).1,(Prod.mk.inj sizes).2,agree⟩

example : (((HashedRegistry.init hashJen blankHandles).bind fun start => eventsHashed.foldlM (HashedRegistry.step hashJen)
    start).map fun hashed => hashed.core.map.table.map fun table => (table.2.numItems,table.2.numBuckets)) =
    some (some (21,32)) := by decide +kernel

end CSpock.Event
