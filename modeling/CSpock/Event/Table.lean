import CSpock.Library.Transition

/-! The event table of `event/sb_event.c`: the events with their callbacks, and the map from
names to entries. A cell of an array is `none` until it is written. An access out of bounds,
through a pointer into a freed array or to what was never written has no result; a failed
allocation ends the process. No count gets near 2^64: each counts things in memory. -/
namespace CSpock.Event
open CSpock.Library.Transition

/-- The bytes of a C string in front of its 0. -/
abbrev Nomen := List UInt8

def nomenOf (text : String) : Nomen := text.toList.map fun char => char.toNat.toUInt8

/-- A `cb` of `none` is `NULL`. -/
structure SbevCbAndData (Cb Data : Type) where
  cb : Option Cb
  cbData : Data
  deriving Repr, DecidableEq

structure SbevEventEntry (Cb Data : Type) where
  nomen : Nomen
  handle : Nat
  cbs : Nat → Option (SbevCbAndData Cb Data)
  max : Nat
  cur : Nat
  freeMax : Nat
  freeCur : Nat
  freeHandles : Nat → Option Nat

/-- The address of an entry: the allocation that it is in, and its place there. -/
structure Pointer where
  block : Nat
  index : Nat
  deriving Repr, DecidableEq

/-- `block` is the allocation that `entries` points to. -/
structure SbevEventcore (Cb Data : Type) where
  entriesMap : List (Nomen × Pointer)
  entries : Nat → Option (SbevEventEntry Cb Data)
  block : Nat
  max : Nat
  cur : Nat
  start : Nat
  tick : Nat
  kill : Nat

section Arrays
variable {Cell : Type}

def load (cells : Nat → Option Cell) (max index : Nat) : Option Cell :=
  if index < max then cells index else none

def store (cells : Nat → Option Cell) (max index : Nat) (value : Cell) : Option (Nat → Option Cell) :=
  if index < max then some (Function.update cells index (some value)) else none

end Arrays

section
variable {Cb Data : Type}

/-- `cbs[index].cb = NULL`. The data of the callback stays. -/
def clear (cbs : Nat → Option (SbevCbAndData Cb Data)) (max index : Nat) :
    Option (Nat → Option (SbevCbAndData Cb Data)) :=
  if index < max then some (Function.update cbs index ((cbs index).map fun slot => { slot with cb := none })) else none

def sbevInitEventEntry (nomen : Nomen) (handle : Nat) : SbevEventEntry Cb Data where
  nomen := nomen
  handle := handle
  cbs _ := none
  max := 20
  cur := 0
  freeMax := 20
  freeCur := 0
  freeHandles _ := none

namespace SbevEventEntry

/-- What `sbev_reg_cb` does under the lock of the entry. -/
def regCb (ent : SbevEventEntry Cb Data) (cb : Option Cb) (cbData : Data) :
    Option (Nat × SbevEventEntry Cb Data) :=
  if ent.freeCur ≠ 0 then do
    let freeCur := ent.freeCur - 1
    let entHandle ← load ent.freeHandles ent.freeMax freeCur
    let cbs ← store ent.cbs ent.max entHandle ⟨cb,cbData⟩
    return (entHandle,{ ent with freeCur := freeCur, cbs := cbs })
  else do
    let max := if ent.cur = ent.max then ent.max * 2 else ent.max
    let cbs ← store ent.cbs max ent.cur ⟨cb,cbData⟩
    return (ent.cur,{ ent with max := max, cur := ent.cur + 1, cbs := cbs })

/-- What `sbev_unreg_cb` does under the lock of the entry. -/
def unregCb (ent : SbevEventEntry Cb Data) (entHandle : Nat) : Option (SbevEventEntry Cb Data) := do
  let freeMax := if ent.freeCur = ent.freeMax then ent.freeMax * 2 else ent.freeMax
  let cbs ← clear ent.cbs ent.max entHandle
  let freeHandles ← store ent.freeHandles freeMax ent.freeCur entHandle
  return { ent with freeMax := freeMax, cbs := cbs, freeHandles := freeHandles, freeCur := ent.freeCur + 1 }

end SbevEventEntry

namespace SbevEventcore

def setEntry (ev : SbevEventcore Cb Data) (handle : Nat) (ent : SbevEventEntry Cb Data) : SbevEventcore Cb Data :=
  { ev with entries := Function.update ev.entries handle (some ent) }

@[simp] theorem setEntry_same (ev : SbevEventcore Cb Data) (handle : Nat) (ent : SbevEventEntry Cb Data) :
    (ev.setEntry handle ent).entries handle = some ent := Function.update_self ..

theorem setEntry_other (ev : SbevEventcore Cb Data) {handle index : Nat} (ent : SbevEventEntry Cb Data)
    (different : index ≠ handle) : (ev.setEntry handle ent).entries index = ev.entries index :=
  Function.update_of_ne different ..

def read (ev : SbevEventcore Cb Data) (find : Pointer) : Option (SbevEventEntry Cb Data) :=
  if find.block = ev.block then load ev.entries ev.max find.index else none

/-- `HASH_FIND_STR`. The nodes of the map are in the entries. -/
def hashFindStr (ev : SbevEventcore Cb Data) (nomen : Nomen) : Option (Option Pointer) :=
  if ∀ node ∈ ev.entriesMap, node.2.block = ev.block then some (ev.entriesMap.lookup nomen) else none

def hashAdd (ev : SbevEventcore Cb Data) (index : Nat) : Option (SbevEventcore Cb Data) :=
  if ∀ node ∈ ev.entriesMap, node.2.block = ev.block then
    (load ev.entries ev.max index).map fun ent =>
      { ev with entriesMap := (ent.nomen,⟨ev.block,index⟩)::ev.entriesMap }
  else none

def hashAddAll (ev : SbevEventcore Cb Data) : Nat → Option (SbevEventcore Cb Data)
  | 0 => some ev
  | index+1 => (ev.hashAddAll index).bind fun ev => ev.hashAdd index

/-- The doubling of `entries`; `realloc` may move them. -/
def grow (ev : SbevEventcore Cb Data) (moves : Bool) : Option (SbevEventcore Cb Data) :=
  hashAddAll { ev with max := ev.max * 2, entriesMap := [], block := if moves then ev.block + 1 else ev.block } ev.cur

def append (ev : SbevEventcore Cb Data) (nomen : Nomen) : Option (Nat × SbevEventcore Cb Data) := do
  let handle := ev.cur
  let entries ← store ev.entries ev.max handle (sbevInitEventEntry nomen handle)
  let ev ← { ev with cur := ev.cur + 1, entries := entries }.hashAdd handle
  return (handle,ev)

/-- The second section of `sbev_reg_event`, under the write lock. -/
def insert (ev : SbevEventcore Cb Data) (moves : Bool) (nomen : Nomen) : Option (Nat × SbevEventcore Cb Data) := do
  let ev ← if ev.cur = ev.max then ev.grow moves else some ev
  ev.append nomen

def sbevRegEvent (ev : SbevEventcore Cb Data) (moves : Bool) (nomen : Nomen) :
    Option (Nat × SbevEventcore Cb Data) := do
  match ← ev.hashFindStr nomen with
  | some find =>
    let ent ← ev.read find
    return (ent.handle,ev)
  | none => ev.insert moves nomen

def sbevRegCb (ev : SbevEventcore Cb Data) (evHandle : Nat) (cb : Option Cb) (cbData : Data) :
    Option (Nat × SbevEventcore Cb Data) := do
  let ent ← load ev.entries ev.max evHandle
  let (entHandle,ent) ← ent.regCb cb cbData
  return (entHandle,ev.setEntry evHandle ent)

def sbevUnregCb (ev : SbevEventcore Cb Data) (evHandle entHandle : Nat) : Option (SbevEventcore Cb Data) := do
  let ent ← load ev.entries ev.max evHandle
  let ent ← ent.unregCb entHandle
  return ev.setEntry evHandle ent

def sbevInitEvent : Option (SbevEventcore Cb Data) := do
  let ev : SbevEventcore Cb Data := ⟨[],fun _ => none,0,20,0,0,0,0⟩
  let (start,ev) ← ev.sbevRegEvent false (nomenOf "start")
  let (tick,ev) ← ev.sbevRegEvent false (nomenOf "tick")
  let (kill,ev) ← ev.sbevRegEvent false (nomenOf "kill")
  return { ev with start := start, tick := tick, kill := kill }

end SbevEventcore

variable {ev after : SbevEventcore Cb Data} {evHandle entHandle : Nat} {cb : Option Cb} {cbData : Data}

theorem load_some {Cell : Type} {cells : Nat → Option Cell} {max index : Nat} {value : Cell}
    (loaded : load cells max index = some value) : index < max ∧ cells index = some value := by
  unfold load at loaded
  split at loaded
  next inside => exact ⟨inside,loaded⟩
  next => cases loaded

theorem clear_some {cbs cleared : Nat → Option (SbevCbAndData Cb Data)} {max index : Nat}
    (done : clear cbs max index = some cleared) : index < max ∧
      cleared = Function.update cbs index ((cbs index).map fun slot => { slot with cb := none }) := by
  unfold clear at done
  split at done
  next inside => exact ⟨inside,(Option.some.inj done).symm⟩
  next => cases done

theorem store_some {Cell : Type} {cells stored : Nat → Option Cell} {max index : Nat} {value : Cell}
    (done : store cells max index value = some stored) : index < max ∧ stored = Function.update cells index (some value) := by
  unfold store at done
  split at done
  next inside => exact ⟨inside,(Option.some.inj done).symm⟩
  next => cases done

/-- What `sbev_reg_cb` can do to an entry: it takes the last of the free handles, or the first place behind those in
use. -/
theorem SbevEventEntry.regCb_cases {ent after : SbevEventEntry Cb Data} (done : ent.regCb cb cbData = some (entHandle,after)) :
    (ent.freeCur ≠ 0 ∧ ent.freeHandles (ent.freeCur-1) = some entHandle ∧ entHandle < ent.max ∧
      after = { ent with
        freeCur := ent.freeCur - 1
        cbs := Function.update ent.cbs entHandle (some ⟨cb,cbData⟩) }) ∨
    (ent.freeCur = 0 ∧ entHandle = ent.cur ∧ ∃ max, ent.cur < max ∧
      after = { ent with
        max := max
        cur := ent.cur + 1
        cbs := Function.update ent.cbs ent.cur (some ⟨cb,cbData⟩) }) := by
  unfold SbevEventEntry.regCb at done
  split at done
  next free =>
    obtain ⟨handle,loaded,done⟩ := Option.bind_eq_some_iff.mp done
    obtain ⟨cbs,stored,done⟩ := Option.bind_eq_some_iff.mp done
    obtain ⟨_,taken⟩ := load_some loaded
    obtain ⟨inside,rfl⟩ := store_some stored
    cases done
    exact .inl ⟨free,taken,inside,rfl⟩
  next none_free =>
    obtain ⟨cbs,stored,done⟩ := Option.bind_eq_some_iff.mp done
    obtain ⟨inside,rfl⟩ := store_some stored
    cases done
    exact .inr ⟨not_not.mp none_free,rfl,_,inside,rfl⟩

theorem SbevEventEntry.unregCb_cases {ent after : SbevEventEntry Cb Data} (done : ent.unregCb entHandle = some after) :
    entHandle < ent.max ∧ ∃ freeMax, ent.freeCur < freeMax ∧ after = { ent with
      freeMax := freeMax
      cbs := Function.update ent.cbs entHandle ((ent.cbs entHandle).map fun slot => { slot with cb := none })
      freeHandles := Function.update ent.freeHandles ent.freeCur (some entHandle)
      freeCur := ent.freeCur + 1 } := by
  obtain ⟨cbs,cleared,done⟩ := Option.bind_eq_some_iff.mp done
  obtain ⟨freeHandles,stored,done⟩ := Option.bind_eq_some_iff.mp done
  obtain ⟨valid,rfl⟩ := clear_some cleared
  obtain ⟨inside,rfl⟩ := store_some stored
  cases done
  exact ⟨valid,_,inside,rfl⟩

namespace SbevEventcore

theorem sbevRegCb_cases (done : ev.sbevRegCb evHandle cb cbData = some (entHandle,after)) :
    ∃ ent amended, ev.entries evHandle = some ent ∧ ent.regCb cb cbData = some (entHandle,amended) ∧
      after = ev.setEntry evHandle amended := by
  obtain ⟨ent,loaded,done⟩ := Option.bind_eq_some_iff.mp done
  obtain ⟨⟨handle,amended⟩,registered,done⟩ := Option.bind_eq_some_iff.mp done
  cases done
  exact ⟨ent,amended,(load_some loaded).2,registered,rfl⟩

theorem sbevUnregCb_cases (done : ev.sbevUnregCb evHandle entHandle = some after) :
    ∃ ent amended, ev.entries evHandle = some ent ∧ ent.unregCb entHandle = some amended ∧
      after = ev.setEntry evHandle amended := by
  obtain ⟨ent,loaded,done⟩ := Option.bind_eq_some_iff.mp done
  obtain ⟨amended,cleared,done⟩ := Option.bind_eq_some_iff.mp done
  cases done
  exact ⟨ent,amended,(load_some loaded).2,cleared,rfl⟩

end SbevEventcore

end

end CSpock.Event
