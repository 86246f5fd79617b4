import CSpock.Event.Table

/-! The names in the event table. The map points to the entries in their present place, also
after they were moved, and what is registered stays as it is. -/
namespace CSpock.Event
open CSpock.Library.Transition

variable {Cb Data : Type}

namespace SbevEventcore

def nomenAt (ev : SbevEventcore Cb Data) (index : Nat) : Option Nomen := (ev.entries index).map (·.nomen)

/-- The entries below `cur` are there, and the map points to them. -/
structure Linked (ev : SbevEventcore Cb Data) : Prop where
  some_room : 0 < ev.max
  room : ev.cur ≤ ev.max
  filled : ∀ index, index < ev.cur → ∃ ent, ev.entries index = some ent ∧ ent.handle = index
  unused : ∀ index, ev.cur ≤ index → ev.entries index = none
  mapped : ∀ nomen find, (nomen,find) ∈ ev.entriesMap ↔
    ∃ index, index < ev.cur ∧ ev.nomenAt index = some nomen ∧ find = ⟨ev.block,index⟩

def Distinct (ev : SbevEventcore Cb Data) : Prop :=
  ∀ first second, first < ev.cur → second < ev.cur → ev.nomenAt first = ev.nomenAt second → first = second

structure Extends (ev after : SbevEventcore Cb Data) : Prop where
  cur : ev.cur ≤ after.cur
  block : ev.block ≤ after.block
  entries : ∀ index, index < ev.cur → after.entries index = ev.entries index

variable {ev after : SbevEventcore Cb Data}

theorem Linked.nodes (linked : ev.Linked) : ∀ node ∈ ev.entriesMap, node.2.block = ev.block := by
  rintro ⟨nomen,find⟩ node
  obtain ⟨_,_,_,rfl⟩ := (linked.mapped nomen find).mp node
  rfl

theorem Linked.read (linked : ev.Linked) {index : Nat} (less : index < ev.cur) :
    ∃ ent, ev.read ⟨ev.block,index⟩ = some ent ∧ ent.handle = index := by
  obtain ⟨ent,there,handle⟩ := linked.filled index less
  refine ⟨ent,?_,handle⟩
  rw [SbevEventcore.read,if_pos rfl,load,if_pos (lt_of_lt_of_le less linked.room),there]

theorem Linked.hashFindStr (linked : ev.Linked) (nomen : Nomen) :
    (∃ index, index < ev.cur ∧ ev.nomenAt index = some nomen ∧ ev.hashFindStr nomen = some (some ⟨ev.block,index⟩)) ∨
      (∀ index, index < ev.cur → ev.nomenAt index ≠ some nomen) ∧ ev.hashFindStr nomen = some none := by
  rw [SbevEventcore.hashFindStr,if_pos linked.nodes]
  cases found : ev.entriesMap.lookup nomen with
  | some find =>
    obtain ⟨before,rest,split,_⟩ := List.lookup_eq_some_iff.mp found
    have node : (nomen,find) ∈ ev.entriesMap := by rw [split]; simp
    obtain ⟨index,less,named,rfl⟩ := (linked.mapped nomen find).mp node
    exact .inl ⟨index,less,named,rfl⟩
  | none =>
    refine .inr ⟨fun index less named => ?_,rfl⟩
    have node := (linked.mapped nomen ⟨ev.block,index⟩).mpr ⟨index,less,named,rfl⟩
    have different := List.lookup_eq_none_iff.mp found _ node
    simp at different

theorem hashAddAll_mapped (empty : ev.entriesMap = []) {len : Nat} (room : len ≤ ev.max)
    (filled : ∀ index, index < len → ∃ ent, ev.entries index = some ent) :
    ∃ nodes, ev.hashAddAll len = some { ev with entriesMap := nodes } ∧ ∀ nomen find, (nomen,find) ∈ nodes ↔
      ∃ index, index < len ∧ ev.nomenAt index = some nomen ∧ find = ⟨ev.block,index⟩ := by
  induction len with
  | zero => exact ⟨[],by rw [← empty]; rfl,fun nomen find => by simp⟩
  | succ len ih =>
    obtain ⟨nodes,added,mapped⟩ := ih (Nat.le_of_succ_le room) fun index less => filled index (Nat.lt_succ_of_lt less)
    obtain ⟨ent,there⟩ := filled len (Nat.lt_succ_self len)
    have current : ∀ node ∈ nodes, node.2.block = ev.block := by
      rintro ⟨nomen,find⟩ node
      obtain ⟨_,_,_,rfl⟩ := (mapped nomen find).mp node
      rfl
    refine ⟨(ent.nomen,⟨ev.block,len⟩)::nodes,?_,fun nomen find => ?_⟩
    · rw [hashAddAll,added,Option.bind_some,hashAdd,if_pos current,load,if_pos (Nat.lt_of_succ_le room),there]
      rfl
    · have last : ev.nomenAt len = some ent.nomen := by rw [nomenAt,there]; rfl
      rw [List.mem_cons,mapped]
      constructor
      · rintro (same | ⟨index,less,named,rfl⟩)
        · cases same
          exact ⟨len,Nat.lt_succ_self len,last,rfl⟩
        · exact ⟨index,Nat.lt_succ_of_lt less,named,rfl⟩
      · rintro ⟨index,less,named,rfl⟩
        rcases Nat.lt_succ_iff_lt_or_eq.mp less with less | rfl
        · exact .inr ⟨index,less,named,rfl⟩
        · rw [last] at named
          cases named
          exact .inl rfl

/-- The growth leaves the entries as they are and points the map to where they are now. -/
theorem Linked.grow (linked : ev.Linked) (moves : Bool) : ∃ after, ev.grow moves = some after ∧ after.Linked ∧
    after.cur = ev.cur ∧ after.max = ev.max * 2 ∧ ev.block ≤ after.block ∧ after.entries = ev.entries := by
  have large : ev.cur ≤ ev.max * 2 := le_trans linked.room (Nat.le_mul_of_pos_right _ (by decide))
  let emptied : SbevEventcore Cb Data :=
    { ev with max := ev.max * 2, entriesMap := [], block := if moves then ev.block + 1 else ev.block }
  obtain ⟨nodes,added,mapped⟩ := hashAddAll_mapped (show emptied.entriesMap = [] from rfl) large
    fun index less => (linked.filled index less).imp fun _ there => there.1
  refine ⟨_,added,⟨?_,large,linked.filled,linked.unused,mapped⟩,rfl,rfl,?_,rfl⟩
  · exact Nat.mul_pos linked.some_room (by decide)
  · cases moves
    · exact le_refl _
    · exact Nat.le_succ _

theorem Extends.nomenAt (kept : ev.Extends after) {index : Nat} (less : index < ev.cur) :
    after.nomenAt index = ev.nomenAt index := by
  rw [SbevEventcore.nomenAt,kept.entries index less,SbevEventcore.nomenAt]

theorem Extends.refl (ev : SbevEventcore Cb Data) : ev.Extends ev := ⟨le_refl _,le_refl _,fun _ _ => rfl⟩

structure Appended (ev : SbevEventcore Cb Data) (nomen : Nomen) (after : SbevEventcore Cb Data) : Prop where
  linked : after.Linked
  kept : ev.Extends after
  cur : after.cur = ev.cur + 1
  new : after.entries ev.cur = some (sbevInitEventEntry nomen ev.cur)

theorem Appended.nomenAt {nomen : Nomen} (appended : ev.Appended nomen after) :
    after.nomenAt ev.cur = some nomen := by
  rw [SbevEventcore.nomenAt,appended.new]
  rfl

theorem Linked.append (linked : ev.Linked) (room : ev.cur < ev.max) (nomen : Nomen) :
    ∃ after, ev.append nomen = some (ev.cur,after) ∧ ev.Appended nomen after := by
  let added := ({ ev with cur := ev.cur + 1 } : SbevEventcore Cb Data).setEntry ev.cur
    (sbevInitEventEntry nomen ev.cur)
  have old : ∀ index, index < ev.cur → added.entries index = ev.entries index :=
    fun index less => setEntry_other _ _ (Nat.ne_of_lt less)
  have new : added.entries ev.cur = some (sbevInitEventEntry nomen ev.cur) := setEntry_same ..
  refine ⟨{ added with entriesMap := (nomen,⟨ev.block,ev.cur⟩)::ev.entriesMap },?_,?_,
    ⟨Nat.le_succ _,le_refl _,old⟩,rfl,new⟩
  · have current : ∀ node ∈ added.entriesMap, node.2.block = added.block := linked.nodes
    have hashed : added.hashAdd ev.cur = some { added with entriesMap := (nomen,⟨ev.block,ev.cur⟩)::ev.entriesMap } := by
      rw [hashAdd,if_pos current,load,if_pos (show ev.cur < added.max from room),new]
      rfl
    rw [SbevEventcore.append,store,if_pos room]
    exact congrArg (Option.bind · fun ev' => some (ev.cur,ev')) hashed
  · refine ⟨linked.some_room,room,fun index less => ?_,fun index behind => ?_,fun name find => ?_⟩
    · rcases Nat.lt_succ_iff_lt_or_eq.mp less with less | rfl
      · obtain ⟨ent,there,handle⟩ := linked.filled index less
        exact ⟨ent,(old index less).trans there,handle⟩
      · exact ⟨_,new,rfl⟩
    · change ev.cur + 1 ≤ index at behind
      exact (setEntry_other _ _ (by omega)).trans (linked.unused index (by omega))
    · change (name,find) ∈ (nomen,(⟨ev.block,ev.cur⟩ : Pointer))::ev.entriesMap ↔ ∃ index, index < ev.cur + 1 ∧
        (added.entries index).map (·.nomen) = some name ∧ find = ⟨ev.block,index⟩
      rw [List.mem_cons,linked.mapped]
      constructor
      · rintro (same | ⟨index,less,named,rfl⟩)
        · cases same
          exact ⟨ev.cur,Nat.lt_succ_self _,by rw [new]; rfl,rfl⟩
        · exact ⟨index,Nat.lt_succ_of_lt less,by rw [old index less]; exact named,rfl⟩
      · rintro ⟨index,less,named,rfl⟩
        rcases Nat.lt_succ_iff_lt_or_eq.mp less with less | rfl
        · rw [old index less] at named
          exact .inr ⟨index,less,named,rfl⟩
        · rw [new] at named
          cases named
          exact .inl rfl

theorem Linked.insert (linked : ev.Linked) (moves : Bool) (nomen : Nomen) :
    ∃ after, ev.insert moves nomen = some (ev.cur,after) ∧ ev.Appended nomen after := by
  by_cases full : ev.cur = ev.max
  · obtain ⟨grown,grew,ready,cur,max,block,entries⟩ := linked.grow moves
    have room : grown.cur < grown.max := by
      have large := linked.some_room
      omega
    obtain ⟨after,added,appended⟩ := ready.append room nomen
    refine ⟨after,?_,⟨appended.linked,⟨?_,le_trans block appended.kept.block,fun index less => ?_⟩,?_,?_⟩⟩
    · simp only [SbevEventcore.insert,if_pos full,grew,Option.bind_eq_bind,Option.bind_some,added,cur]
    · exact le_trans (le_of_eq cur.symm) appended.kept.cur
    · rw [appended.kept.entries index (lt_of_lt_of_eq less cur.symm),entries]
    · rw [appended.cur,cur]
    · rw [← cur]
      exact appended.new
  · have room : ev.cur < ev.max := lt_of_le_of_ne linked.room full
    obtain ⟨after,added,appended⟩ := linked.append room nomen
    refine ⟨after,?_,appended⟩
    simp only [SbevEventcore.insert,if_neg full,Option.bind_eq_bind,Option.bind_some,added]

/-- A call gives back what is there, or appends what is not. -/
theorem Linked.sbevRegEvent (linked : ev.Linked) (moves : Bool) (nomen : Nomen) :
    (∃ handle, handle < ev.cur ∧ ev.nomenAt handle = some nomen ∧
      ev.sbevRegEvent moves nomen = some (handle,ev)) ∨
    (∀ index, index < ev.cur → ev.nomenAt index ≠ some nomen) ∧
      ∃ after, ev.sbevRegEvent moves nomen = some (ev.cur,after) ∧ ev.Appended nomen after := by
  rcases linked.hashFindStr nomen with ⟨index,less,named,found⟩ | ⟨absent,missing⟩
  · obtain ⟨ent,read,handle⟩ := linked.read less
    refine .inl ⟨index,less,named,?_⟩
    simp only [SbevEventcore.sbevRegEvent,found,Option.bind_eq_bind,Option.bind_some,read,handle,Option.pure_def]
  · obtain ⟨after,inserted,appended⟩ := linked.insert moves nomen
    refine .inr ⟨absent,after,?_,appended⟩
    simp only [SbevEventcore.sbevRegEvent,missing,Option.bind_eq_bind,Option.bind_some,inserted]

theorem Appended.distinct {nomen : Nomen} (appended : ev.Appended nomen after) (distinct : ev.Distinct)
    (absent : ∀ index, index < ev.cur → ev.nomenAt index ≠ some nomen) : after.Distinct := by
  have new : after.nomenAt ev.cur = some nomen := appended.nomenAt
  intro first second firstLess secondLess same
  rw [appended.cur] at firstLess secondLess
  obtain firstOld | rfl := Nat.lt_succ_iff_lt_or_eq.mp firstLess <;>
    rcases Nat.lt_succ_iff_lt_or_eq.mp secondLess with secondOld | rfl
  · rw [appended.kept.nomenAt firstOld,appended.kept.nomenAt secondOld] at same
    exact distinct first second firstOld secondOld same
  · rw [appended.kept.nomenAt firstOld,new] at same
    exact absurd same (absent first firstOld)
  · rw [appended.kept.nomenAt secondOld,new] at same
    exact absurd same.symm (absent second secondOld)
  · rfl

def Fresh (ev : SbevEventcore Cb Data) : Prop :=
  ∀ handle ent, ev.entries handle = some ent → ∃ nomen, ent = sbevInitEventEntry nomen handle

theorem Appended.entry {nomen : Nomen} (appended : ev.Appended nomen after) {handle : Nat}
    {ent : SbevEventEntry Cb Data} (there : after.entries handle = some ent) :
    ev.entries handle = some ent ∨ handle = ev.cur ∧ ent = sbevInitEventEntry nomen handle := by
  rcases lt_trichotomy handle ev.cur with less | rfl | behind
  · exact .inl ((appended.kept.entries handle less).symm.trans there)
  · rw [appended.new] at there
    exact .inr ⟨rfl,(Option.some.inj there).symm⟩
  · rw [appended.linked.unused handle (by rw [appended.cur]; exact behind)] at there
    cases there

theorem Linked.fresh (linked : ev.Linked) (fresh : ev.Fresh) {moves : Bool} {nomen : Nomen} {handle : Nat}
    (done : ev.sbevRegEvent moves nomen = some (handle,after)) : after.Fresh := by
  rcases linked.sbevRegEvent moves nomen with ⟨_,_,_,found⟩ | ⟨_,_,inserted,appended⟩
  · cases found.symm.trans done
    exact fresh
  · cases inserted.symm.trans done
    intro index ent there
    rcases appended.entry there with old | ⟨_,rfl⟩
    · exact fresh index ent old
    · exact ⟨nomen,rfl⟩

structure Amended (ev after : SbevEventcore Cb Data) : Prop where
  linked : after.Linked
  cur : after.cur = ev.cur
  block : after.block = ev.block
  names : ∀ index, after.nomenAt index = ev.nomenAt index

theorem Amended.distinct (amended : ev.Amended after) (distinct : ev.Distinct) : after.Distinct := by
  intro first second firstLess secondLess same
  rw [amended.names,amended.names] at same
  exact distinct first second (lt_of_lt_of_eq firstLess amended.cur) (lt_of_lt_of_eq secondLess amended.cur) same

theorem Linked.amend (linked : ev.Linked) {handle : Nat} {ent amended : SbevEventEntry Cb Data}
    (there : ev.entries handle = some ent) (nomen : amended.nomen = ent.nomen) (same : amended.handle = ent.handle) :
    ev.Amended (ev.setEntry handle amended) := by
  have names : ∀ index, (ev.setEntry handle amended).nomenAt index = ev.nomenAt index := by
    intro index
    by_cases here : index = handle
    · subst here
      rw [nomenAt,setEntry_same,nomenAt,there,Option.map_some,Option.map_some,nomen]
    · rw [nomenAt,setEntry_other _ _ here,nomenAt]
  refine ⟨⟨linked.some_room,linked.room,fun index less => ?_,fun index behind => ?_,fun name find => ?_⟩,rfl,rfl,names⟩
  · obtain ⟨old,was,own⟩ := linked.filled index less
    by_cases here : index = handle
    · subst here
      rw [there] at was
      cases was
      exact ⟨amended,setEntry_same ..,same.trans own⟩
    · exact ⟨old,(setEntry_other _ _ here).trans was,own⟩
  · have here : index ≠ handle := by
      rintro rfl
      rw [linked.unused index behind] at there
      cases there
    exact (setEntry_other _ _ here).trans (linked.unused index behind)
  · change (name,find) ∈ ev.entriesMap ↔ _
    rw [linked.mapped name find]
    simp only [names]
    rfl

theorem Linked.sbevRegCb (linked : ev.Linked) {evHandle entHandle : Nat} {cb : Option Cb} {cbData : Data}
    (done : ev.sbevRegCb evHandle cb cbData = some (entHandle,after)) :
    ev.Amended after := by
  obtain ⟨ent,amended,there,registered,rfl⟩ := sbevRegCb_cases done
  have same : amended.nomen = ent.nomen ∧ amended.handle = ent.handle := by
    rcases SbevEventEntry.regCb_cases registered with ⟨_,_,_,rfl⟩ | ⟨_,_,_,_,rfl⟩ <;> exact ⟨rfl,rfl⟩
  exact linked.amend there same.1 same.2

theorem Linked.sbevUnregCb (linked : ev.Linked) {evHandle entHandle : Nat}
    (done : ev.sbevUnregCb evHandle entHandle = some after) :
    ev.Amended after := by
  obtain ⟨ent,amended,there,cleared,rfl⟩ := sbevUnregCb_cases done
  have same : amended.nomen = ent.nomen ∧ amended.handle = ent.handle := by
    obtain ⟨_,_,_,rfl⟩ := SbevEventEntry.unregCb_cases cleared
    exact ⟨rfl,rfl⟩
  exact linked.amend there same.1 same.2

end SbevEventcore

inductive EventOp (Cb Data : Type) where
  | regEvent (moves : Bool) (nomen : Nomen)
  | regCb (evHandle : Nat) (cb : Option Cb) (cbData : Data)
  | unregCb (evHandle entHandle : Nat)

/-- The table with the names that were registered, and the handles given for them. -/
structure Registry (Cb Data : Type) where
  ev : SbevEventcore Cb Data
  given : List (Nomen × Nat)

namespace Registry

def step (registry : Registry Cb Data) : EventOp Cb Data → Option (Registry Cb Data)
  | .regEvent moves nomen =>
    (registry.ev.sbevRegEvent moves nomen).map fun result => ⟨result.2,registry.given ++ [(nomen,result.1)]⟩
  | .regCb evHandle cb cbData =>
    (registry.ev.sbevRegCb evHandle cb cbData).map fun result => { registry with ev := result.2 }
  | .unregCb evHandle entHandle =>
    (registry.ev.sbevUnregCb evHandle entHandle).map fun ev => { registry with ev := ev }

def init : Option (Registry Cb Data) :=
  SbevEventcore.sbevInitEvent.map fun ev =>
    ⟨ev,[(nomenOf "start",ev.start),(nomenOf "tick",ev.tick),(nomenOf "kill",ev.kill)]⟩

/-- Each name has the handle first given for it, and each handle an entry with its name. -/
structure Agrees (registry : Registry Cb Data) : Prop where
  handles : ∀ handle, (∃ nomen, (nomen,handle) ∈ registry.given) ↔ handle < registry.ev.cur
  entries : ∀ nomen handle, (nomen,handle) ∈ registry.given →
    ∃ ent, registry.ev.entries handle = some ent ∧ ent.handle = handle ∧ ent.nomen = nomen
  agree : ∀ first ∈ registry.given, ∀ second ∈ registry.given, first.1 = second.1 ↔ first.2 = second.2
  lookup : ∀ nomen handle, (nomen,handle) ∈ registry.given →
    ∀ moves, registry.ev.sbevRegEvent moves nomen = some (handle,registry.ev)
  kept : ∀ moves nomen, ∃ handle after, registry.ev.sbevRegEvent moves nomen = some (handle,after) ∧
    ∀ index, index < registry.ev.cur → after.entries index = registry.ev.entries index
  grows : ∀ moves, ∃ after, registry.ev.grow moves = some after ∧ after.entries = registry.ev.entries

structure Ordered (registry : Registry Cb Data) : Prop where
  linked : registry.ev.Linked
  distinct : registry.ev.Distinct
  given : ∀ nomen handle, (nomen,handle) ∈ registry.given →
    handle < registry.ev.cur ∧ registry.ev.nomenAt handle = some nomen
  all : ∀ handle, handle < registry.ev.cur → ∃ nomen, (nomen,handle) ∈ registry.given

variable {registry after : Registry Cb Data}

theorem Ordered.regEvent (ordered : registry.Ordered) (moves : Bool) (nomen : Nomen) :
    ∃ handle ev, registry.ev.sbevRegEvent moves nomen = some (handle,ev) ∧ registry.ev.Extends ev ∧
      Ordered ⟨ev,registry.given ++ [(nomen,handle)]⟩ := by
  rcases ordered.linked.sbevRegEvent moves nomen with ⟨handle,less,named,found⟩ | ⟨absent,ev,done,appended⟩
  · refine ⟨handle,registry.ev,found,.refl _,ordered.linked,ordered.distinct,fun name number given => ?_,
      fun number less => ?_⟩
    · rcases List.mem_append.mp given with old | new
      · exact ordered.given name number old
      · cases List.mem_singleton.mp new
        exact ⟨less,named⟩
    · exact (ordered.all number less).imp fun _ given => List.mem_append_left _ given
  · refine ⟨registry.ev.cur,ev,done,appended.kept,appended.linked,appended.distinct ordered.distinct absent,
      fun name number given => ?_,fun number less => ?_⟩
    · rcases List.mem_append.mp given with old | new
      · obtain ⟨less,named⟩ := ordered.given name number old
        exact ⟨lt_of_lt_of_le less appended.kept.cur,(appended.kept.nomenAt less).trans named⟩
      · cases List.mem_singleton.mp new
        exact ⟨by rw [appended.cur]; exact Nat.lt_succ_self _,appended.nomenAt⟩
    · change number < ev.cur at less
      rw [appended.cur] at less
      rcases Nat.lt_succ_iff_lt_or_eq.mp less with less | rfl
      · exact (ordered.all number less).imp fun _ given => List.mem_append_left _ given
      · exact ⟨nomen,List.mem_append_right _ (List.mem_singleton_self _)⟩

theorem Ordered.amend (ordered : registry.Ordered) {ev : SbevEventcore Cb Data} (amended : registry.ev.Amended ev) :
    Ordered ⟨ev,registry.given⟩ := by
  refine ⟨amended.linked,amended.distinct ordered.distinct,fun nomen handle given => ?_,fun handle less => ?_⟩
  · obtain ⟨less,named⟩ := ordered.given nomen handle given
    exact ⟨lt_of_lt_of_eq less amended.cur.symm,(amended.names handle).trans named⟩
  · exact ordered.all handle (lt_of_lt_of_eq less amended.cur)

theorem Ordered.step (ordered : registry.Ordered) {op : EventOp Cb Data} (stepped : registry.step op = some after) :
    after.Ordered := by
  cases op with
  | regEvent moves nomen =>
    obtain ⟨handle,ev,done,_,next⟩ := ordered.regEvent moves nomen
    simp only [Registry.step,done,Option.map_some,Option.some.injEq] at stepped
    exact stepped ▸ next
  | regCb evHandle cb cbData =>
    obtain ⟨⟨entHandle,ev⟩,done,rfl⟩ := Option.map_eq_some_iff.mp stepped
    exact ordered.amend (ordered.linked.sbevRegCb done)
  | unregCb evHandle entHandle =>
    obtain ⟨ev,done,rfl⟩ := Option.map_eq_some_iff.mp stepped
    exact ordered.amend (ordered.linked.sbevUnregCb done)

theorem Ordered.agrees (ordered : registry.Ordered) : registry.Agrees where
  handles handle := ⟨fun ⟨nomen,given⟩ => (ordered.given nomen handle given).1,ordered.all handle⟩
  entries nomen handle given := by
    obtain ⟨less,named⟩ := ordered.given nomen handle given
    obtain ⟨ent,there,own⟩ := ordered.linked.filled handle less
    refine ⟨ent,there,own,?_⟩
    rw [SbevEventcore.nomenAt,there] at named
    exact Option.some.inj named
  agree first firstGiven second secondGiven := by
    obtain ⟨firstLess,firstNamed⟩ := ordered.given _ _ firstGiven
    obtain ⟨secondLess,secondNamed⟩ := ordered.given _ _ secondGiven
    constructor
    · intro same
      refine ordered.distinct _ _ firstLess secondLess ?_
      rw [firstNamed,secondNamed,same]
    · intro same
      rw [same,secondNamed] at firstNamed
      exact (Option.some.inj firstNamed).symm
  lookup nomen handle given moves := by
    obtain ⟨less,named⟩ := ordered.given nomen handle given
    rcases ordered.linked.sbevRegEvent moves nomen with ⟨found,foundLess,foundNamed,done⟩ | ⟨absent,_⟩
    · rw [done,ordered.distinct found handle foundLess less (foundNamed.trans named.symm)]
    · exact absurd named (absent handle less)
  kept moves nomen := by
    obtain ⟨handle,ev,done,extends_,_⟩ := ordered.regEvent moves nomen
    exact ⟨handle,ev,done,extends_.entries⟩
  grows moves := by
    obtain ⟨ev,grew,_,_,_,_,entries⟩ := ordered.linked.grow moves
    exact ⟨ev,grew,entries⟩

theorem Ordered.empty : Ordered ⟨(⟨[],fun _ => none,0,20,0,0,0,0⟩ : SbevEventcore Cb Data),[]⟩ where
  linked := ⟨Nat.succ_pos _,Nat.zero_le _,fun _ less => absurd less (Nat.not_lt_zero _),fun _ _ => rfl,
    fun nomen find => by simp⟩
  distinct _ _ less := absurd less (Nat.not_lt_zero _)
  given := nofun
  all _ less := absurd less (Nat.not_lt_zero _)

theorem init_ordered : ∃ registry : Registry Cb Data, init = some registry ∧ registry.Ordered ∧
    registry.ev.Fresh := by
  obtain ⟨start,first,startDone,_,started⟩ := (@Ordered.empty Cb Data).regEvent false (nomenOf "start")
  obtain ⟨tick,second,tickDone,_,ticked⟩ := started.regEvent false (nomenOf "tick")
  obtain ⟨kill,third,killDone,_,killed⟩ := ticked.regEvent false (nomenOf "kill")
  have first_fresh : first.Fresh := Ordered.empty.linked.fresh nofun startDone
  have fresh : third.Fresh := ticked.linked.fresh (started.linked.fresh first_fresh tickDone) killDone
  have linked := killed.linked
  refine ⟨⟨{ third with start := start, tick := tick, kill := kill },_⟩,?_,
    killed.amend ⟨⟨linked.some_room,linked.room,linked.filled,linked.unused,linked.mapped⟩,rfl,rfl,fun _ => rfl⟩,fresh⟩
  simp only [init,SbevEventcore.sbevInitEvent,startDone,tickDone,killDone,Option.bind_eq_bind,Option.bind_some,
    Option.pure_def,Option.map_some,List.nil_append,List.cons_append]

theorem reached_ordered {start : Registry Cb Data} (initialised : init = some start)
    (run : Run step (fun _ _ => True) start registry) : registry.Ordered := by
  obtain ⟨first,same,ordered,_⟩ := @init_ordered Cb Data
  cases initialised.symm.trans same
  exact run.invariant ordered fun _ _ _ ordered _ stepped => ordered.step stepped

end Registry

/-- After any calls, the names and the handles agree, and a name that is not there yet can be registered. -/
theorem run_registered {start registry : Registry Cb Data} (initialised : Registry.init = some start)
    (run : Run Registry.step (fun _ _ => True) start registry) : registry.Agrees :=
  (Registry.reached_ordered initialised run).agrees

/-- A callback is registered and taken back, and so many names are registered that the array has to grow. -/
def eventsRegistered : List (EventOp Unit Unit) :=
  [.regCb 1 (some ()) (),.unregCb 1 0] ++ (List.range 18).map fun index => .regEvent true [index.toUInt8]

theorem run_registered_grown : ∃ start registry : Registry Unit Unit, Registry.init = some start ∧
    replay Registry.step (fun _ _ => True) start eventsRegistered = some registry ∧ registry.ev.max = 40 ∧
      registry.Agrees := by
  have ran : (Registry.init.bind fun start => (replay Registry.step (fun _ _ => True) start eventsRegistered).map
      fun registry => registry.ev.max) = some 40 := by decide +kernel
  obtain ⟨start,initialised,ran⟩ := Option.bind_eq_some_iff.mp ran
  obtain ⟨registry,replayed,large⟩ := Option.map_eq_some_iff.mp ran
  exact ⟨start,registry,initialised,replayed,large,run_registered initialised (Run.start.replay replayed)⟩

end CSpock.Event
