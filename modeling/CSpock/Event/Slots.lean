import CSpock.Event.Emit

/-! The cells of an event and the callbacks that are registered in them. The jobs of an emit
are right when the cells in use are those of the registered callbacks. -/
set_option linter.unusedSectionVars false
namespace CSpock.Event
open CSpock.Library.Transition CSpock.Fibers CSpock.Numeric

variable {Thread Cb Data : Type} [DecidableEq Thread]

def Holds (cell : SbevCbAndData Cb Data) : Option (Cb × Data) → Prop
  | some callback => cell = ⟨some callback.1,callback.2⟩
  | none => cell.cb = none

/-- The cells in use hold the registered callbacks, and the free handles are those of the others, each once. -/
structure Slots (ent : SbevEventEntry Cb Data) (registered : Nat → Option (Cb × Data)) : Prop where
  room : ent.cur ≤ ent.max
  used : ∀ slot, slot < ent.cur → ∃ cell, ent.cbs slot = some cell ∧ Holds cell (registered slot)
  unused : ∀ slot, ent.cur ≤ slot → registered slot = none
  free : ∀ index, index < ent.freeCur → ∃ slot, slot < ent.cur ∧ ent.freeHandles index = some slot ∧
    registered slot = none
  once : ∀ first second, first < ent.freeCur → second < ent.freeCur →
    ent.freeHandles first = ent.freeHandles second → first = second
  all : ∀ slot, slot < ent.cur → registered slot = none →
    ∃ index, index < ent.freeCur ∧ ent.freeHandles index = some slot

section
variable {ent after : SbevEventEntry Cb Data} {registered : Nat → Option (Cb × Data)}

theorem Slots.empty (nomen : Nomen) (handle : Nat) :
    Slots (sbevInitEventEntry nomen handle : SbevEventEntry Cb Data) fun _ => none where
  room := Nat.zero_le _
  used _ less := absurd less (Nat.not_lt_zero _)
  unused _ _ := rfl
  free _ less := absurd less (Nat.not_lt_zero _)
  once _ _ less := absurd less (Nat.not_lt_zero _)
  all _ less := absurd less (Nat.not_lt_zero _)

theorem Slots.regCb (slots : Slots ent registered) {cb : Cb} {cbData : Data} {entHandle : Nat}
    (done : ent.regCb (some cb) cbData = some (entHandle,after)) :
    Slots after (Function.update registered entHandle (some (cb,cbData))) := by
  rcases SbevEventEntry.regCb_cases done with ⟨some_free,taken,inside,rfl⟩ | ⟨none_free,rfl,max,room,rfl⟩
  · have last : ent.freeCur - 1 < ent.freeCur := by omega
    obtain ⟨slot,less,there,absent⟩ := slots.free (ent.freeCur-1) last
    cases taken.symm.trans there
    have fewer : ∀ index, index < ent.freeCur - 1 → index < ent.freeCur := fun index less => by omega
    refine ⟨slots.room,fun slot slotLess => ?_,fun slot behind => ?_,fun index indexLess => ?_,
      fun first second firstLess secondLess => slots.once first second (fewer _ firstLess) (fewer _ secondLess),
      fun slot slotLess vacant => ?_⟩
    · by_cases here : slot = entHandle
      · subst here
        exact ⟨_,Function.update_self ..,by rw [Function.update_self]; rfl⟩
      · obtain ⟨cell,found,holds⟩ := slots.used slot slotLess
        exact ⟨cell,(Function.update_of_ne here ..).trans found,by rw [Function.update_of_ne here]; exact holds⟩
    · have here : slot ≠ entHandle := by
        rintro rfl
        exact absurd less (not_lt.mpr behind)
      exact (Function.update_of_ne here ..).trans (slots.unused slot behind)
    · change index < ent.freeCur - 1 at indexLess
      obtain ⟨slot,slotLess,found,vacant⟩ := slots.free index (fewer _ indexLess)
      have here : slot ≠ entHandle := by
        rintro rfl
        have same := slots.once index (ent.freeCur-1) (fewer _ indexLess) last (found.trans taken.symm)
        omega
      exact ⟨slot,slotLess,found,(Function.update_of_ne here ..).trans vacant⟩
    · have here : slot ≠ entHandle := by
        rintro rfl
        rw [Function.update_self] at vacant
        cases vacant
      rw [Function.update_of_ne here] at vacant
      obtain ⟨index,indexLess,found⟩ := slots.all slot slotLess vacant
      have other : index ≠ ent.freeCur - 1 := by
        rintro rfl
        exact here (Option.some.inj (found.symm.trans taken))
      have below : index < ent.freeCur - 1 := by omega
      exact ⟨index,below,found⟩
  · have old : ∀ slot, slot < ent.cur → Function.update registered ent.cur (some (cb,cbData)) slot = registered slot :=
      fun slot less => Function.update_of_ne (Nat.ne_of_lt less) ..
    refine ⟨room,fun slot slotLess => ?_,fun slot behind => ?_,fun index indexLess => ?_,slots.once,
      fun slot slotLess vacant => ?_⟩
    · rcases Nat.lt_succ_iff_lt_or_eq.mp slotLess with less | rfl
      · obtain ⟨cell,found,holds⟩ := slots.used slot less
        exact ⟨cell,(Function.update_of_ne (Nat.ne_of_lt less) ..).trans found,by rw [old slot less]; exact holds⟩
      · exact ⟨_,Function.update_self ..,by rw [Function.update_self]; rfl⟩
    · change ent.cur + 1 ≤ slot at behind
      exact (Function.update_of_ne (by omega) ..).trans (slots.unused slot (by omega))
    · exact absurd (none_free ▸ indexLess) (Nat.not_lt_zero index)
    · rcases Nat.lt_succ_iff_lt_or_eq.mp slotLess with less | rfl
      · exact slots.all slot less ((old slot less).symm.trans vacant)
      · rw [Function.update_self] at vacant
        cases vacant

theorem Slots.unregCb (slots : Slots ent registered) {entHandle : Nat}
    (live : (registered entHandle).isSome = true) (done : ent.unregCb entHandle = some after) :
    Slots after (Function.update registered entHandle none) := by
  obtain ⟨valid,freeMax,room,rfl⟩ := SbevEventEntry.unregCb_cases done
  have inside : entHandle < ent.cur := by
    by_contra behind
    rw [slots.unused entHandle (not_lt.mp behind)] at live
    cases live
  have old : ∀ index, index < ent.freeCur → Function.update ent.freeHandles ent.freeCur (some entHandle) index =
      ent.freeHandles index := fun index less => Function.update_of_ne (Nat.ne_of_lt less) ..
  have apart : ∀ index, index < ent.freeCur → ent.freeHandles index ≠ some entHandle := by
    intro index less same
    obtain ⟨slot,_,found,vacant⟩ := slots.free index less
    cases same.symm.trans found
    rw [vacant] at live
    cases live
  refine ⟨slots.room,fun slot slotLess => ?_,fun slot behind => ?_,fun index indexLess => ?_,
    fun first second firstLess secondLess same => ?_,fun slot slotLess vacant => ?_⟩
  · obtain ⟨cell,found,holds⟩ := slots.used slot slotLess
    by_cases here : slot = entHandle
    · subst here
      refine ⟨{ cell with cb := none },(Function.update_self ..).trans ?_,by rw [Function.update_self]; rfl⟩
      rw [found]
      rfl
    · exact ⟨cell,(Function.update_of_ne here ..).trans found,by rw [Function.update_of_ne here]; exact holds⟩
  · have here : slot ≠ entHandle := by
      rintro rfl
      exact absurd inside (not_lt.mpr behind)
    exact (Function.update_of_ne here ..).trans (slots.unused slot behind)
  · rcases Nat.lt_succ_iff_lt_or_eq.mp indexLess with less | rfl
    · obtain ⟨slot,slotLess,found,vacant⟩ := slots.free index less
      refine ⟨slot,slotLess,(old index less).trans found,?_⟩
      by_cases here : slot = entHandle
      · rw [here,Function.update_self]
      · rw [Function.update_of_ne here,vacant]
    · exact ⟨entHandle,inside,Function.update_self ..,Function.update_self ..⟩
  · change first < ent.freeCur + 1 at firstLess
    change second < ent.freeCur + 1 at secondLess
    change Function.update ent.freeHandles ent.freeCur (some entHandle) first =
      Function.update ent.freeHandles ent.freeCur (some entHandle) second at same
    obtain firstOld | rfl := Nat.lt_succ_iff_lt_or_eq.mp firstLess <;>
      rcases Nat.lt_succ_iff_lt_or_eq.mp secondLess with secondOld | rfl
    · rw [old first firstOld,old second secondOld] at same
      exact slots.once first second firstOld secondOld same
    · rw [old first firstOld,Function.update_self] at same
      exact absurd same (apart first firstOld)
    · rw [old second secondOld,Function.update_self] at same
      exact absurd same.symm (apart second secondOld)
    · rfl
  · by_cases here : slot = entHandle
    · exact ⟨ent.freeCur,Nat.lt_succ_self _,by rw [here]; exact Function.update_self ..⟩
    · rw [Function.update_of_ne here] at vacant
      obtain ⟨index,less,found⟩ := slots.all slot slotLess vacant
      exact ⟨index,Nat.lt_succ_of_lt less,(old index less).trans found⟩

theorem Slots.copied (slots : Slots ent registered) {len : Nat} (less : len ≤ ent.cur) :
    ∃ cbs, ent.copyCbs len = some cbs ∧ cbs.length = len ∧
      ∀ slot, slot < len → ∃ cell, cbs[slot]? = some cell ∧ Holds cell (registered slot) := by
  induction len with
  | zero => exact ⟨[],rfl,rfl,fun _ less => absurd less (Nat.not_lt_zero _)⟩
  | succ len ih =>
    obtain ⟨cbs,copied,length,cells⟩ := ih (Nat.le_of_succ_le less)
    obtain ⟨cell,found,holds⟩ := slots.used len less
    have loaded : load ent.cbs ent.max len = some cell := by
      rw [load,if_pos (lt_of_lt_of_le less slots.room),found]
    refine ⟨cbs ++ [cell],?_,by rw [List.length_append,length]; rfl,fun slot slotLess => ?_⟩
    · simp only [SbevEventEntry.copyCbs,copied,loaded,Option.bind_eq_bind,Option.bind_some,Option.pure_def]
    · rcases Nat.lt_succ_iff_lt_or_eq.mp slotLess with slotLess | rfl
      · rw [List.getElem?_append_left (length ▸ slotLess)]
        exact cells slot slotLess
      · exact ⟨cell,by rw [← length,List.getElem?_concat_length],holds⟩

end

theorem SbevEventEntry.copyCbs_length {ent : SbevEventEntry Cb Data} {len : Nat} {cbs : List (SbevCbAndData Cb Data)}
    (copied : ent.copyCbs len = some cbs) : cbs.length = len := by
  induction len generalizing cbs with
  | zero => cases copied; rfl
  | succ len ih =>
    obtain ⟨before,rest,copied⟩ := Option.bind_eq_some_iff.mp copied
    obtain ⟨cell,_,copied⟩ := Option.bind_eq_some_iff.mp copied
    cases copied
    rw [List.length_append,ih rest]
    rfl

structure Copied.Faithful (copied : Copied Cb Data) : Prop where
  slots : Slots copied.ent copied.registered
  length : copied.cbs.length = copied.ent.cur
  cells : ∀ slot, slot < copied.ent.cur → ∃ cell, copied.cbs[slot]? = some cell ∧ Holds cell (copied.registered slot)

section
variable {copied : Copied Cb Data} {accepts : Nat → Bool} {jobs : List (VgcJob (SbevTrampArg Cb Data))} {len : Nat}

theorem sbevTrampoline_isSome {cell : SbevCbAndData Cb Data} {callback : Option (Cb × Data)}
    (holds : Holds cell callback) (evData : Data) (handle : Nat) :
    (sbevTrampoline (emitJob evData handle cell).work).isSome = callback.isSome := by
  cases callback with
  | none =>
    have empty : cell.cb = none := holds
    simp [sbevTrampoline,emitJob,empty]
  | some callback =>
    cases (show cell = _ from holds)
    rfl

theorem Copied.Faithful.exact_iff (faithful : copied.Faithful) (inside : len ≤ copied.ent.cur)
    (sent : jobs = (copied.cbs.take len).map (emitJob copied.evData copied.handle)) :
    Emission.Exact ⟨copied,accepts,jobs⟩ ↔ ∀ slot, (copied.registered slot).isSome = true ↔ slot < len := by
  have length : jobs.length = len := by
    rw [sent,List.length_map,List.length_take,faithful.length,Nat.min_eq_left inside]
  have jobAt : ∀ slot, slot < len → ∃ cell, Holds cell (copied.registered slot) ∧
      jobs[slot]? = some (emitJob copied.evData copied.handle cell) := by
    intro slot less
    obtain ⟨cell,found,holds⟩ := faithful.cells slot (lt_of_lt_of_le less inside)
    exact ⟨cell,holds,by rw [sent,List.getElem?_map,List.getElem?_take_of_lt less,found]; rfl⟩
  constructor
  · rintro ⟨⟨slots,nodup,mem,same⟩,called⟩
    have live : ∀ slot, slot < len → (copied.registered slot).isSome = true := by
      intro slot less
      obtain ⟨cell,holds,found⟩ := jobAt slot less
      rw [← sbevTrampoline_isSome holds copied.evData copied.handle]
      exact called _ (List.mem_of_getElem? found)
    have count : slots.length = len := by
      have lengths := congrArg List.length same
      rw [List.length_map,List.length_map] at lengths
      exact lengths.symm.trans length
    have all : Finset.range len = slots.toFinset := by
      refine Finset.eq_of_subset_of_card_le (fun slot less => ?_) ?_
      · exact List.mem_toFinset.mpr ((mem slot).mpr (live slot (Finset.mem_range.mp less)))
      · rw [List.toFinset_card_of_nodup nodup,count,Finset.card_range]
    intro slot
    rw [← mem,← List.mem_toFinset,← all,Finset.mem_range]
  · intro first
    refine ⟨⟨List.range len,List.nodup_range,fun slot => by rw [List.mem_range,first],?_⟩,fun job member => ?_⟩
    · refine List.ext_getElem? fun slot => ?_
      rw [List.getElem?_map,List.getElem?_map]
      by_cases less : slot < len
      · obtain ⟨cell,holds,found⟩ := jobAt slot less
        obtain ⟨callback,there⟩ := Option.isSome_iff_exists.mp ((first slot).mpr less)
        rw [there] at holds
        cases (show cell = _ from holds)
        rw [found,List.getElem?_range less,Option.map_some,Option.map_some,there]
        rfl
      · rw [List.getElem?_eq_none (by change jobs.length ≤ slot; omega),
          List.getElem?_eq_none (by rw [List.length_range]; omega)]
        rfl
    · obtain ⟨slot,less,rfl⟩ := List.getElem_of_mem member
      rw [length] at less
      obtain ⟨cell,holds,found⟩ := jobAt slot less
      have same := Option.some.inj ((List.getElem?_eq_getElem (by rw [length]; exact less)).symm.trans found)
      rw [same,sbevTrampoline_isSome holds]
      exact (first slot).mpr less

structure Emission.Judged (emission : Emission Cb Data) : Prop where
  exact_iff : emission.Exact ↔ emission.Covers
  usual : emission.copied.ent.cur < 2 ^ 31 → (∀ slot, slot < emission.copied.ent.cur → emission.accepts slot = true) →
    (emission.Exact ↔ emission.copied.ent.freeCur = 0)

theorem Copied.Faithful.judged (faithful : copied.Faithful) (accepts : Nat → Bool) :
    Emission.Judged ⟨copied,accepts,(copied.schedule accepts).1⟩ := by
  obtain ⟨done,inside,sent,before⟩ := scheduleFrom_sends accepts 0
    ((copied.cbs.map (emitJob copied.evData copied.handle)).take (cInt copied.cbs.length).toNat)
  have fewer := Int.toNat_le.mpr (cInt_natCast_le copied.cbs.length)
  rw [List.length_take,List.length_map,Nat.min_eq_left fewer] at inside before
  rw [List.take_take,Nat.min_eq_left inside] at sent
  rw [faithful.length] at inside before fewer
  have exact_covers : Emission.Exact ⟨copied,accepts,(copied.schedule accepts).1⟩ ↔
      Emission.Covers ⟨copied,accepts,(copied.schedule accepts).1⟩ := by
    rw [Copied.schedule,vgcScheduleJobs,
      faithful.exact_iff (le_trans inside fewer) (sent.trans (List.map_take ..).symm)]
    refine forall_congr' fun slot => iff_congr Iff.rfl ((before slot).trans (and_congr ?_ ?_))
    · exact Int.lt_toNat
    · simp only [Nat.zero_add]
  refine ⟨exact_covers,fun small accepted => exact_covers.trans ?_⟩
  have slots := faithful.slots
  have usual : cInt copied.ent.cur = copied.ent.cur := cInt_natCast small
  have all {slot : Nat} (less : slot < copied.ent.cur) (earlier : Nat) (front : earlier ≤ slot) : accepts earlier = true :=
    accepted earlier (lt_of_le_of_lt front less)
  constructor
  · intro covers
    by_contra some_free
    obtain ⟨slot,less,_,absent⟩ := slots.free 0 (Nat.pos_of_ne_zero some_free)
    have live := (covers slot).mpr ⟨by rw [usual]; omega,all less⟩
    rw [absent] at live
    cases live
  · intro none_free slot
    change _ ↔ (slot : Int) < cInt copied.ent.cur ∧ _
    rw [usual]
    constructor
    · intro live
      have less : slot < copied.ent.cur := by
        by_contra behind
        rw [slots.unused slot (not_lt.mp behind)] at live
        cases live
      exact ⟨Int.ofNat_lt.mpr less,all less⟩
    · rintro ⟨less,_⟩
      by_contra absent
      obtain ⟨index,indexLess,_⟩ := slots.all slot (Int.ofNat_lt.mp less) (Option.not_isSome_iff_eq_none.mp absent)
      rw [none_free] at indexLess
      exact absurd indexLess (Nat.not_lt_zero index)

end

namespace EmitSys

structure Tracked (sys : EmitSys Thread Cb Data) : Prop where
  linked : sys.ev.Linked
  slots : ∀ handle ent, sys.ev.entries handle = some ent → Slots ent (sys.live handle)
  unused : ∀ handle, sys.ev.cur ≤ handle → sys.live handle = fun _ => none
  copies : ∀ thread copied, sys.threads thread = some copied → copied.Faithful
  judged : ∀ emission ∈ sys.emitted, emission.Judged

variable {sys after : EmitSys Thread Cb Data}

theorem Tracked.regEvent (tracked : sys.Tracked) {moves : Bool} {nomen : Nomen} {handle : Nat}
    {ev : SbevEventcore Cb Data} (done : sys.ev.sbevRegEvent moves nomen = some (handle,ev)) :
    Tracked { sys with ev := ev } := by
  rcases tracked.linked.sbevRegEvent moves nomen with ⟨_,_,_,found⟩ | ⟨_,_,inserted,appended⟩
  · cases found.symm.trans done
    exact tracked
  · cases inserted.symm.trans done
    refine ⟨appended.linked,fun handle ent there => ?_,fun handle behind => ?_,tracked.copies,tracked.judged⟩
    · rcases appended.entry there with old | ⟨rfl,rfl⟩
      · exact tracked.slots handle ent old
      · change Slots _ (sys.live sys.ev.cur)
        rw [tracked.unused _ (le_refl _)]
        exact .empty nomen _
    · exact tracked.unused handle (le_trans appended.kept.cur behind)

theorem Tracked.amend (tracked : sys.Tracked) {ev : SbevEventcore Cb Data} {evHandle entHandle : Nat}
    {ent amended : SbevEventEntry Cb Data} {value : Option (Cb × Data)} (ready : sys.ev.Amended ev)
    (there : sys.ev.entries evHandle = some ent) (changed : ev = sys.ev.setEntry evHandle amended)
    (slots : Slots amended (Function.update (sys.live evHandle) entHandle value)) :
    Tracked { sys with ev := ev, live := sys.setLive evHandle entHandle value } := by
  subst changed
  refine ⟨ready.linked,fun handle other found => ?_,fun handle behind => ?_,tracked.copies,tracked.judged⟩
  · by_cases here : handle = evHandle
    · subst here
      cases (SbevEventcore.setEntry_same ..).symm.trans found
      change Slots amended (Function.update sys.live handle _ handle)
      rw [Function.update_self]
      exact slots
    · change Slots other (Function.update sys.live evHandle _ handle)
      rw [Function.update_of_ne here]
      exact tracked.slots handle other ((SbevEventcore.setEntry_other _ _ here).symm.trans found)
  · have here : handle ≠ evHandle := by
      rintro rfl
      rw [tracked.linked.unused handle behind] at there
      cases there
    exact (Function.update_of_ne here ..).trans (tracked.unused handle behind)

theorem Tracked.emit (tracked : sys.Tracked) {thread : Thread} {handle : Nat} {evData : Data}
    (done : sys.emit thread handle evData = some after) : after.Tracked := by
  obtain ⟨ent,loaded,done⟩ := Option.bind_eq_some_iff.mp done
  have slots := tracked.slots handle ent (load_some loaded).2
  obtain ⟨cbs,copied,length,cells⟩ := slots.copied (le_refl ent.cur)
  have faithful : Copied.Faithful ⟨cbs,handle,evData,ent,sys.live handle⟩ := ⟨slots,length,cells⟩
  rw [copied,Option.bind_eq_bind,Option.bind_some] at done
  split at done
  next empty =>
    cases done
    refine ⟨tracked.linked,tracked.slots,tracked.unused,tracked.copies,fun emission emitted => ?_⟩
    rcases List.mem_append.mp emitted with old | new
    · exact tracked.judged emission old
    · cases List.mem_singleton.mp new
      have none_sent : (Copied.schedule ⟨cbs,handle,evData,ent,sys.live handle⟩ fun _ => true).1 = [] := by
        rw [List.eq_nil_of_length_eq_zero (length.trans empty),Copied.schedule,vgcScheduleJobs,List.map_nil,
          List.take_nil,scheduleFrom]
      rw [← none_sent]
      exact faithful.judged _
  next =>
    cases done
    refine ⟨tracked.linked,tracked.slots,tracked.unused,fun other copied found => ?_,tracked.judged⟩
    by_cases here : other = thread
    · subst here
      cases (Function.update_self ..).symm.trans found
      exact faithful
    · exact tracked.copies other copied ((Function.update_of_ne here ..).symm.trans found)

theorem Tracked.sent (tracked : sys.Tracked) {thread : Thread} {copied : Copied Cb Data}
    (point : sys.threads thread = some copied) (accepts : Nat → Bool) : (sys.sent thread copied accepts).Tracked := by
  refine ⟨tracked.linked,tracked.slots,tracked.unused,fun other own found => ?_,fun emission emitted => ?_⟩
  · by_cases here : other = thread
    · subst here
      cases (Function.update_self ..).symm.trans found
    · exact tracked.copies other own ((Function.update_of_ne here ..).symm.trans found)
  · rcases List.mem_append.mp emitted with old | new
    · exact tracked.judged emission old
    · cases List.mem_singleton.mp new
      exact (tracked.copies thread copied point).judged accepts

theorem Tracked.step (tracked : sys.Tracked) {label : Thread × EmitAct Cb Data} (registered : sys.Registered label)
    (stepped : sys.step label = some after) : after.Tracked := by
  obtain ⟨thread,act⟩ := label
  unfold EmitSys.step at stepped
  split at stepped
  next => cases stepped
  split at stepped
  next =>
    obtain ⟨⟨_,ev⟩,done,rfl⟩ := Option.map_eq_some_iff.mp stepped
    exact tracked.regEvent done
  next =>
    obtain ⟨⟨_,ev⟩,done,rfl⟩ := Option.map_eq_some_iff.mp stepped
    obtain ⟨ent,amended,there,inside,changed⟩ := SbevEventcore.sbevRegCb_cases done
    exact tracked.amend (tracked.linked.sbevRegCb done) there changed ((tracked.slots _ ent there).regCb inside)
  next evHandle entHandle _ same =>
    obtain ⟨ev,done,rfl⟩ := Option.map_eq_some_iff.mp stepped
    obtain ⟨ent,amended,there,inside,changed⟩ := SbevEventcore.sbevUnregCb_cases done
    cases (show act = _ from same)
    exact tracked.amend (tracked.linked.sbevUnregCb done) there changed
      ((tracked.slots _ ent there).unregCb registered inside)
  next => exact tracked.emit stepped
  next copied accepts point _ =>
    cases stepped
    exact tracked.sent point accepts
  next => cases stepped

theorem init_tracked {ev : SbevEventcore Cb Data} (initialised : SbevEventcore.sbevInitEvent = some ev) :
    (init ev : EmitSys Thread Cb Data).Tracked := by
  obtain ⟨registry,same,ordered,fresh⟩ := @Registry.init_ordered Cb Data
  simp only [Registry.init,initialised,Option.map_some,Option.some.injEq] at same
  cases same
  refine ⟨ordered.linked,fun handle ent there => ?_,fun _ _ => rfl,by rintro _ _ ⟨⟩,by rintro _ ⟨⟩⟩
  obtain ⟨nomen,rfl⟩ := fresh handle ent there
  exact .empty nomen handle

end EmitSys

/-- An emit of a run has a job for each registered callback, and no other, when the cells below `(int) cur` that it
comes to before a job is refused are those of the registered callbacks; while `cur` fits an `int` and all jobs are
accepted, that is when no handle is free. -/
theorem run_emitted {ev : SbevEventcore Cb Data} {sys : EmitSys Thread Cb Data}
    (initialised : SbevEventcore.sbevInitEvent = some ev)
    (run : Run EmitSys.step EmitSys.Registered (EmitSys.init ev) sys) :
    ∀ emission ∈ sys.emitted, emission.Judged :=
  (run.invariant (EmitSys.init_tracked initialised) fun _ _ _ tracked registered stepped =>
    tracked.step registered stepped).judged

/-- Two callbacks are registered, and one event is emitted. -/
def callbacksKept : List (Unit × EmitAct Unit Unit) :=
  [((),.regCb 1 () ()),((),.regCb 1 () ()),((),.emit 1 ()),((),.go fun _ => true)]

/-- A callback is registered and taken back in front of the emit. -/
def callbackGone : List (Unit × EmitAct Unit Unit) :=
  [((),.regCb 1 () ()),((),.unregCb 1 0),((),.emit 1 ()),((),.go fun _ => true)]

theorem run_emitted_kept : ∃ (ev : SbevEventcore Unit Unit) (sys : EmitSys Unit Unit Unit),
    SbevEventcore.sbevInitEvent = some ev ∧
      replay EmitSys.step EmitSys.Registered (EmitSys.init ev) callbacksKept = some sys ∧
        (sys.emitted.map fun emission => emission.jobs.length) = [2] ∧
          ∀ emission ∈ sys.emitted, emission.Judged := by
  have ran : (SbevEventcore.sbevInitEvent.bind fun ev : SbevEventcore Unit Unit =>
      (replay EmitSys.step EmitSys.Registered (EmitSys.init ev) callbacksKept).map fun sys =>
        sys.emitted.map fun emission => emission.jobs.length) = some [2] := by decide +kernel
  obtain ⟨ev,initialised,ran⟩ := Option.bind_eq_some_iff.mp ran
  obtain ⟨sys,replayed,lengths⟩ := Option.map_eq_some_iff.mp ran
  exact ⟨ev,sys,initialised,replayed,lengths,run_emitted initialised (Run.start.replay replayed)⟩

/-- The job of the free cell calls `NULL`. -/
theorem run_emitted_fails : ∃ (ev : SbevEventcore Unit Unit) (sys : EmitSys Unit Unit Unit),
    SbevEventcore.sbevInitEvent = some ev ∧ Run EmitSys.step EmitSys.Registered (EmitSys.init ev) sys ∧
      ∃ emission ∈ sys.emitted, (∃ job ∈ emission.jobs, sbevTrampoline job.work = none) ∧ ¬emission.Exact := by
  have ran : (SbevEventcore.sbevInitEvent.bind fun ev : SbevEventcore Unit Unit =>
      (replay EmitSys.step EmitSys.Registered (EmitSys.init ev) callbackGone).map fun sys =>
        decide (∃ emission ∈ sys.emitted, ∃ job ∈ emission.jobs, sbevTrampoline job.work = none)) = some true := by
    decide +kernel
  obtain ⟨ev,initialised,ran⟩ := Option.bind_eq_some_iff.mp ran
  obtain ⟨sys,replayed,state⟩ := Option.map_eq_some_iff.mp ran
  obtain ⟨emission,emitted,job,member,null⟩ := of_decide_eq_true state
  refine ⟨ev,sys,initialised,Run.start.replay replayed,emission,emitted,⟨job,member,null⟩,fun exact_ => ?_⟩
  have called := exact_.2 job member
  rw [null] at called
  cases called

end CSpock.Event
