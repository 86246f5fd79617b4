import CSpock.Event.Table

/-! The handles of the callbacks of one event, over any history of registrations. -/
namespace CSpock.Event
open CSpock.Library.Transition

variable {Cb Data : Type}

/-- A registration that was not taken back: the handle that came of it and what was given. -/
structure Registration (Cb Data : Type) where
  handle : Nat
  given : SbevCbAndData Cb Data

/-- The handles below `cur` are the free ones, as they lie in their array, and those of the live registrations. -/
structure Handed (ent : SbevEventEntry Cb Data) (live : List (Registration Cb Data)) (free : List Nat) : Prop where
  room : ent.cur ≤ ent.max
  wide : 0 < ent.max
  freeRoom : ent.freeCur ≤ ent.freeMax
  freeWide : 0 < ent.freeMax
  length : free.length = ent.freeCur
  lie : ∀ index, index < ent.freeCur → ent.freeHandles index = free[index]?
  parted : (free ++ live.map Registration.handle).Perm (List.range ent.cur)
  cells : ∀ reg ∈ live, ent.cbs reg.handle = some reg.given

section
variable {ent : SbevEventEntry Cb Data} {live : List (Registration Cb Data)} {free : List Nat}

theorem Handed.init (nomen : Nomen) (handle : Nat) :
    Handed (sbevInitEventEntry nomen handle : SbevEventEntry Cb Data) [] [] where
  room := Nat.zero_le _
  wide := Nat.succ_pos 19
  freeRoom := Nat.zero_le _
  freeWide := Nat.succ_pos 19
  length := rfl
  lie _ less := absurd less (Nat.not_lt_zero _)
  parted := .refl _
  cells _ member := absurd member List.not_mem_nil

theorem Handed.nodup (handed : Handed ent live free) : (free ++ live.map Registration.handle).Nodup :=
  handed.parted.nodup_iff.mpr List.nodup_range

theorem Handed.lt (handed : Handed ent live free) {handle : Nat}
    (found : handle ∈ free ∨ handle ∈ live.map Registration.handle) : handle < ent.cur :=
  List.mem_range.mp (handed.parted.mem_iff.mp (List.mem_append.mpr found))

theorem store_of_lt {Cell : Type} {cells : Nat → Option Cell} {max index : Nat} (inside : index < max) (value : Cell) :
    store cells max index value = some (Function.update cells index (some value)) := if_pos inside

theorem cells_update {cbs : Nat → Option (SbevCbAndData Cb Data)} {handle : Nat}
    (cells : ∀ reg ∈ live, cbs reg.handle = some reg.given) (apart : handle ∉ live.map Registration.handle)
    (cell : Option (SbevCbAndData Cb Data)) : ∀ reg ∈ live, Function.update cbs handle cell reg.handle = some reg.given := by
  intro reg member
  have other : reg.handle ≠ handle := by
    rintro rfl
    exact apart (List.mem_map_of_mem member)
  exact (Function.update_of_ne other ..).trans (cells reg member)

theorem Handed.reuse {handle : Nat} (handed : Handed ent live (free ++ [handle])) (given : SbevCbAndData Cb Data) :
    Handed { ent with
      freeCur := ent.freeCur - 1
      cbs := Function.update ent.cbs handle (some given) } (⟨handle,given⟩::live) free := by
  have length : free.length + 1 = ent.freeCur := by rw [← handed.length,List.length_append]; rfl
  have distinct := handed.nodup
  rw [List.append_assoc] at distinct
  have apart : handle ∉ live.map Registration.handle :=
    (List.nodup_cons.mp (List.nodup_append.mp distinct).2.1).1
  refine ⟨handed.room,handed.wide,?_,handed.freeWide,?_,fun index less => ?_,?_,fun reg member => ?_⟩
  · exact Nat.le_trans (Nat.sub_le ..) handed.freeRoom
  · exact (Nat.eq_sub_of_add_eq length)
  · change index < ent.freeCur - 1 at less
    rw [handed.lie index (by omega),List.getElem?_append_left (by omega)]
  · have parted := handed.parted
    rwa [List.append_assoc] at parted
  · rcases List.mem_cons.mp member with rfl | old
    · exact Function.update_self ..
    · exact cells_update handed.cells apart _ reg old

theorem Handed.extend (handed : Handed ent live []) {max : Nat} (inside : ent.cur < max)
    (given : SbevCbAndData Cb Data) :
    Handed { ent with
      max := max
      cur := ent.cur + 1
      cbs := Function.update ent.cbs ent.cur (some given) } (⟨ent.cur,given⟩::live) [] := by
  have apart : ent.cur ∉ live.map Registration.handle := fun member => Nat.lt_irrefl _ (handed.lt (.inr member))
  refine ⟨inside,Nat.zero_lt_of_lt inside,handed.freeRoom,handed.freeWide,handed.length,handed.lie,?_,
    fun reg member => ?_⟩
  · rw [List.range_succ]
    exact (handed.parted.cons _).trans (List.perm_append_singleton _ _).symm
  · rcases List.mem_cons.mp member with rfl | old
    · exact Function.update_self ..
    · exact cells_update handed.cells apart _ reg old

/-- `sbev_reg_cb` returns on every entry. -/
theorem Handed.regCb (handed : Handed ent live free) (cb : Option Cb) (cbData : Data) :
    ∃ entHandle after rest, ent.regCb cb cbData = some (entHandle,after) ∧
      Handed after (⟨entHandle,⟨cb,cbData⟩⟩::live) rest := by
  rcases List.eq_nil_or_concat free with rfl | ⟨rest,handle,rfl⟩
  · have used_up : ent.freeCur = 0 := handed.length.symm
    have inside : ent.cur < if ent.cur = ent.max then ent.max * 2 else ent.max := by
      have room := handed.room
      have wide := handed.wide
      split <;> omega
    refine ⟨ent.cur,_,[],?_,handed.extend inside ⟨cb,cbData⟩⟩
    rw [SbevEventEntry.regCb,if_neg (not_not.mpr used_up)]
    simp only [store_of_lt inside,Option.bind_eq_bind,Option.bind_some,Option.pure_def]
  · have length : rest.length + 1 = ent.freeCur := by rw [← handed.length,List.length_concat]
    rw [List.concat_eq_append] at handed
    have loaded : load ent.freeHandles ent.freeMax (ent.freeCur - 1) = some handle := by
      have freeRoom := handed.freeRoom
      rw [load,if_pos (by omega),handed.lie _ (by omega),← length,Nat.add_sub_cancel,List.getElem?_concat_length]
    have inside : handle < ent.max :=
      Nat.lt_of_lt_of_le (handed.lt (.inl (List.mem_append_right _ (List.mem_singleton_self _)))) handed.room
    refine ⟨handle,_,rest,?_,handed.reuse ⟨cb,cbData⟩⟩
    rw [SbevEventEntry.regCb,if_pos (by omega)]
    simp only [loaded,store_of_lt inside,Option.bind_eq_bind,Option.bind_some,Option.pure_def]

def takeBack (live : List (Registration Cb Data)) (entHandle : Nat) : List (Registration Cb Data) :=
  live.eraseP fun reg => reg.handle = entHandle

theorem Handed.giveBack (handed : Handed ent live free) {entHandle freeMax : Nat} (inside : ent.freeCur < freeMax)
    (held : entHandle ∈ live.map Registration.handle) (cell : Option (SbevCbAndData Cb Data)) :
    Handed { ent with
      freeMax := freeMax
      cbs := Function.update ent.cbs entHandle cell
      freeHandles := Function.update ent.freeHandles ent.freeCur (some entHandle)
      freeCur := ent.freeCur + 1 } (takeBack live entHandle) (free ++ [entHandle]) := by
  have handles : (takeBack live entHandle).map Registration.handle = (live.map Registration.handle).erase entHandle := by
    rw [takeBack,List.erase_eq_eraseP,List.eraseP_map]
    simp only [Function.comp_def,beq_eq_decide,eq_comm]
  have parts := List.perm_cons_erase held
  rw [← handles] at parts
  have apart : entHandle ∉ (takeBack live entHandle).map Registration.handle :=
    (List.nodup_cons.mp (parts.nodup_iff.mp (List.nodup_append.mp handed.nodup).2.1)).1
  refine ⟨handed.room,handed.wide,inside,Nat.zero_lt_of_lt inside,?_,fun index less => ?_,?_,?_⟩
  · rw [List.length_append,handed.length]
    rfl
  · rcases Nat.lt_succ_iff_lt_or_eq.mp less with less | rfl
    · rw [List.getElem?_append_left (handed.length ▸ less),← handed.lie index less]
      exact Function.update_of_ne (Nat.ne_of_lt less) ..
    · rw [← handed.length,List.getElem?_concat_length,handed.length]
      exact Function.update_self ..
  · rw [List.append_assoc]
    exact (parts.symm.append_left free).trans handed.parted
  · exact cells_update (fun reg member => handed.cells reg (List.mem_of_mem_eraseP member)) apart _

/-- `sbev_unreg_cb` returns on the handle of a live registration. -/
theorem Handed.unregCb (handed : Handed ent live free) {entHandle : Nat}
    (held : entHandle ∈ live.map Registration.handle) :
    ∃ after, ent.unregCb entHandle = some after ∧ Handed after (takeBack live entHandle) (free ++ [entHandle]) := by
  have inside : entHandle < ent.max := Nat.lt_of_lt_of_le (handed.lt (.inr held)) handed.room
  have freeInside : ent.freeCur < if ent.freeCur = ent.freeMax then ent.freeMax * 2 else ent.freeMax := by
    have freeRoom := handed.freeRoom
    have freeWide := handed.freeWide
    split <;> omega
  refine ⟨_,?_,handed.giveBack freeInside held ((ent.cbs entHandle).map fun slot => { slot with cb := none })⟩
  simp only [SbevEventEntry.unregCb,clear,if_pos inside,store_of_lt freeInside,Option.bind_eq_bind,Option.bind_some,
    Option.pure_def]

end

structure Callbacks (Cb Data : Type) where
  ev : SbevEventcore Cb Data
  live : List (Registration Cb Data)

inductive CallbackAct (Cb Data : Type) where
  | regCb (cb : Option Cb) (cbData : Data)
  | unregCb (entHandle : Nat)

namespace Callbacks

def step (evHandle : Nat) (table : Callbacks Cb Data) : CallbackAct Cb Data → Option (Callbacks Cb Data)
  | .regCb cb cbData => (table.ev.sbevRegCb evHandle cb cbData).map fun result =>
    ⟨result.2,⟨result.1,⟨cb,cbData⟩⟩::table.live⟩
  | .unregCb entHandle => (table.ev.sbevUnregCb evHandle entHandle).map fun ev =>
    ⟨ev,takeBack table.live entHandle⟩

def Names (table : Callbacks Cb Data) : CallbackAct Cb Data → Prop
  | .regCb _ _ => True
  | .unregCb entHandle => entHandle ∈ table.live.map Registration.handle

instance (table : Callbacks Cb Data) : ∀ act, Decidable (table.Names act)
  | .regCb _ _ => inferInstanceAs (Decidable True)
  | .unregCb entHandle => inferInstanceAs (Decidable (entHandle ∈ table.live.map Registration.handle))

def Orderly (evHandle : Nat) (table : Callbacks Cb Data) : Prop :=
  ∃ ent free, load table.ev.entries table.ev.max evHandle = some ent ∧ Handed ent table.live free

variable {table after : Callbacks Cb Data} {evHandle : Nat}

theorem load_setEntry {ev : SbevEventcore Cb Data} {ent : SbevEventEntry Cb Data}
    (there : load ev.entries ev.max evHandle = some ent) (amended : SbevEventEntry Cb Data) :
    load (ev.setEntry evHandle amended).entries (ev.setEntry evHandle amended).max evHandle = some amended := by
  exact (if_pos (load_some there).1).trans (ev.setEntry_same evHandle amended)

theorem Orderly.step (orderly : table.Orderly evHandle) {act : CallbackAct Cb Data} (named : table.Names act) :
    ∃ after, table.step evHandle act = some after ∧ after.Orderly evHandle := by
  obtain ⟨ent,free,there,handed⟩ := orderly
  cases act with
  | regCb cb cbData =>
    obtain ⟨entHandle,amended,rest,done,handed⟩ := handed.regCb cb cbData
    refine ⟨⟨table.ev.setEntry evHandle amended,⟨entHandle,⟨cb,cbData⟩⟩::table.live⟩,?_,
      amended,rest,load_setEntry there amended,handed⟩
    simp [Callbacks.step,SbevEventcore.sbevRegCb,there,done]
  | unregCb entHandle =>
    obtain ⟨amended,done,handed⟩ := handed.unregCb named
    refine ⟨⟨table.ev.setEntry evHandle amended,takeBack table.live entHandle⟩,?_,
      amended,_,load_setEntry there amended,handed⟩
    simp [Callbacks.step,SbevEventcore.sbevUnregCb,there,done]

theorem Orderly.kept (orderly : table.Orderly evHandle) {act : CallbackAct Cb Data} (named : table.Names act)
    (stepped : table.step evHandle act = some after) : after.Orderly evHandle := by
  obtain ⟨next,done,orderly⟩ := orderly.step named
  cases done.symm.trans stepped
  exact orderly

end Callbacks

/-- After any history of one event its handles are in order, and every call that the discipline permits returns. -/
theorem run_handles {ev : SbevEventcore Cb Data} {evHandle handle : Nat} {nomen : Nomen} {table : Callbacks Cb Data}
    (fresh : load ev.entries ev.max evHandle = some (sbevInitEventEntry nomen handle))
    (run : Run (Callbacks.step evHandle) Callbacks.Names ⟨ev,[]⟩ table) :
    (∃ ent, ∃ free : List Nat, load table.ev.entries table.ev.max evHandle = some ent ∧
      (table.live.map Registration.handle).Nodup ∧
      (∀ reg ∈ table.live, load ent.cbs ent.max reg.handle = some reg.given) ∧
      (List.range ent.freeCur).map (load ent.freeHandles ent.freeMax) = free.map some ∧ free.Nodup ∧
      (∀ handle, handle < ent.cur ↔ handle ∈ free ∨ handle ∈ table.live.map Registration.handle) ∧
      (∀ handle ∈ free, handle ∉ table.live.map Registration.handle) ∧
      ent.cur ≤ ent.max ∧ ent.freeCur ≤ ent.freeMax) ∧
    ∀ act, table.Names act → ∃ after, table.step evHandle act = some after := by
  have orderly : table.Orderly evHandle := run.invariant ⟨_,[],fresh,.init nomen handle⟩
    fun _ _ _ orderly named stepped => orderly.kept named stepped
  refine ⟨?_,fun act named => (orderly.step named).imp fun _ done => done.1⟩
  obtain ⟨ent,free,there,handed⟩ := orderly
  obtain ⟨distinct,unshared,apart⟩ := List.nodup_append.mp handed.nodup
  refine ⟨ent,free,there,unshared,fun reg member => ?_,?_,distinct,fun handle => ?_,
    fun handle left right => apart handle left handle right rfl,handed.room,handed.freeRoom⟩
  · have inside := handed.lt (.inr (List.mem_map_of_mem member))
    rw [load,if_pos (Nat.lt_of_lt_of_le inside handed.room),handed.cells reg member]
  · refine List.ext_getElem (by simp [handed.length]) fun index left right => ?_
    rw [List.length_map,List.length_range] at left
    rw [List.length_map] at right
    rw [List.getElem_map,List.getElem_map,List.getElem_range,load,if_pos (Nat.lt_of_lt_of_le left handed.freeRoom),
      handed.lie index left,List.getElem?_eq_getElem right]
  · rw [← List.mem_append,handed.parted.mem_iff,List.mem_range]

/-- So many callbacks that both arrays grow, most of them taken back, and one more registration. -/
def callbacksGrown : List (CallbackAct Nat Nat) :=
  (List.range 22).map (fun index => .regCb (some index) index) ++ (List.range 21).map .unregCb ++ [.regCb none 7]

theorem run_handles_grown : ∃ (ev : SbevEventcore Nat Nat) (table : Callbacks Nat Nat),
    replay (Callbacks.step 0) Callbacks.Names ⟨ev,[]⟩ callbacksGrown = some table ∧
      table.live.map Registration.handle = [20,21] ∧
      (∃ ent, ∃ free : List Nat, load table.ev.entries table.ev.max 0 = some ent ∧
        (table.live.map Registration.handle).Nodup ∧
        (∀ reg ∈ table.live, load ent.cbs ent.max reg.handle = some reg.given) ∧
        (List.range ent.freeCur).map (load ent.freeHandles ent.freeMax) = free.map some ∧ free.Nodup ∧
        (∀ handle, handle < ent.cur ↔ handle ∈ free ∨ handle ∈ table.live.map Registration.handle) ∧
        (∀ handle ∈ free, handle ∉ table.live.map Registration.handle) ∧
        ent.cur ≤ ent.max ∧ ent.freeCur ≤ ent.freeMax) ∧
      ∀ act, table.Names act → ∃ after, table.step 0 act = some after := by
  let ev : SbevEventcore Nat Nat := ⟨[],fun _ => some (sbevInitEventEntry [] 0),0,20,1,0,0,0⟩
  have ran : (replay (Callbacks.step 0) Callbacks.Names ⟨ev,[]⟩ callbacksGrown).map
      (fun table => table.live.map Registration.handle) = some [20,21] := by decide +kernel
  obtain ⟨table,replayed,live⟩ := Option.map_eq_some_iff.mp ran
  have fresh : load ev.entries ev.max 0 = some (sbevInitEventEntry [] 0) := rfl
  exact ⟨ev,table,replayed,live,run_handles fresh (Run.start.replay replayed)⟩

end CSpock.Event
