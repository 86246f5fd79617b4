import CSpock.Fibers.Tickets

/-! What the calls of `vgc_push` and `vgc_pop` come to, and what becomes of an item between
them. -/
set_option linter.unusedSectionVars false
namespace CSpock.Fibers
open CSpock.Library.Transition

variable {Thread Data : Type} [DecidableEq Thread]

/-- A call, with the datum of a push, and the positions that were claimed in it. -/
structure RingNote (Data : Type) where
  data : Option Data
  claimed : List Nat

namespace RingSys

/-- An observer notes the last call of each thread, and what the logs say that is claimed in it. -/
def note (ring : RingSys Thread Data) (label : Thread × RingAct Data) (next : RingSys Thread Data)
    (calls : Thread → RingNote Data) : Thread → RingNote Data :=
  Function.update calls label.1 (match label.2 with
    | .push data => ⟨some data,[]⟩
    | .pop => ⟨none,[]⟩
    | .go _ => ⟨(calls label.1).data,(calls label.1).claimed ++
        ((next.pushes.drop ring.pushes.length).map Prod.fst ++ next.pops.drop ring.pops.length)⟩)

/-- The item of a position is in its cell, unless its turn to be popped has come. -/
def Stored (ring : RingSys Thread Data) (pos : Nat) : Prop :=
  pos ∈ ring.pops ∨ ((ring.cell pos).seq = pos + 1 ∧ ring.pushes[pos]? = some (pos,(ring.cell pos).data))

/-- What a call has come to, by the point of its thread. A push that returns 0 has claimed one position, for its datum,
which is stored there; a pop that returns a datum has claimed its position; a call that returns -1 has claimed none. -/
def Comes (ring : RingSys Thread Data) (call : RingNote Data) : RingPoint Data → Prop
  | .idle => True
  | .pushTail data => call = ⟨some data,[]⟩
  | .pushSeq data _ => call = ⟨some data,[]⟩
  | .pushExchange data _ => call = ⟨some data,[]⟩
  | .pushData data pos => call = ⟨some data,[pos]⟩
  | .pushStore data pos => call = ⟨some data,[pos]⟩
  | .pushed result => (result = 0 ∧ ∃ data pos, call = ⟨some data,[pos]⟩ ∧ ring.pushes[pos]? = some (pos,data) ∧
      ring.Stored pos) ∨ (result = -1 ∧ ∃ data, call = ⟨some data,[]⟩)
  | .popHead => call = ⟨none,[]⟩
  | .popSeq _ => call = ⟨none,[]⟩
  | .popExchange _ => call = ⟨none,[]⟩
  | .popData pos => call = ⟨none,[pos]⟩
  | .popStore pos _ => call = ⟨none,[pos]⟩
  | .popped (some data) => ∃ pos, call = ⟨none,[pos]⟩ ∧ (pos,data) ∈ ring.returned
  | .popped none => call = ⟨none,[]⟩

/-- No position is forgotten: who has claimed it is at it, or the item is stored, or has been returned. -/
structure Kept (ring : RingSys Thread Data) : Prop where
  stored : ∀ pos, pos < ring.pushes.length → (∃ thread, (ring.threads thread).pushes = some pos) ∨ ring.Stored pos
  taken : ∀ pos, pos < ring.pops.length → (∃ thread, (ring.threads thread).pops = some pos) ∨
    pos ∈ ring.returned.map Prod.fst

variable {ring next : RingSys Thread Data} {thread : Thread} {act : RingAct Data} {size : Nat}

theorem Tickets.stored_iff (tickets : ring.Tickets size) {pos : Nat} :
    ring.Stored pos ↔ pos < ring.pops.length ∨ (ring.cell pos).seq = pos + 1 := by
  refine or_congr ?_ (and_iff_left_of_imp fun filled => (tickets.full pos filled).2)
  rw [tickets.popped,List.mem_range,List.length_range]

theorem Tickets.stored_step (tickets : ring.Tickets size) (after : next.Tickets size) (power : RingSize size)
    (step : RingStep ring thread act next) {pos : Nat} (stored : ring.Stored pos) : next.Stored pos := by
  have knows := tickets.knows thread
  rw [after.stored_iff]
  rcases tickets.stored_iff.mp stored with popped | filled
  · exact .inl (lt_of_lt_of_le popped step.grows.2)
  · cases step with
    | @write data place fails point =>
      right
      by_cases mate : pos % size = place % size
      · refine (congrArg VgcCell.seq (setCell_mate tickets power mate _)).trans ?_
        change (ring.cell place).seq = pos + 1
        rwa [← cell_mate tickets power mate]
      · exact (congrArg VgcCell.seq (setCell_apart tickets power mate _)).trans filled
    | @publish data place fails point =>
      right
      rw [point] at knows
      have apart : pos % size ≠ place % size := by
        intro mate
        rw [cell_mate tickets power mate,knows.2.1] at filled
        exact mod_ne_succ power.two_le 0 mate filled.symm
      exact (congrArg VgcCell.seq (setCell_apart tickets power apart _)).trans filled
    | @release place data fails point =>
      rw [point] at knows
      by_cases mate : pos % size = place % size
      · rw [cell_mate tickets power mate,knows.2.1] at filled
        cases Nat.succ.inj filled
        exact .inl knows.1
      · exact .inr ((congrArg VgcCell.seq (setCell_apart tickets power mate _)).trans filled)
    | _ => exact .inr filled

theorem logs_step (step : RingStep ring thread act next) :
    ring.pushes <+: next.pushes ∧ ring.returned <+: next.returned := by
  cases step with
  | claimPush point => exact ⟨List.prefix_append ..,List.prefix_rfl⟩
  | release point => exact ⟨List.prefix_rfl,List.prefix_append ..⟩
  | _ => exact ⟨List.prefix_rfl,List.prefix_rfl⟩

theorem between_owns {point : RingPoint Data} (between : point.between = true) :
    point.pushes = none ∧ point.pops = none := by
  cases point <;> first | exact ⟨rfl,rfl⟩ | cases between

theorem Tickets.pushes_step (tickets : ring.Tickets size) (after : next.Tickets size) (power : RingSize size)
    (pushes : ring.pushes.length < 2 ^ 63) (step : RingStep ring thread act next) {pos : Nat}
    (owns : (ring.threads thread).pushes = some pos) :
    (next.threads thread).pushes = some pos ∨ next.Stored pos := by
  cases step with
  | write point =>
    rw [point] at owns
    exact .inl (by rw [setPoint_same]; exact owns)
  | @publish data place fails point =>
    have knows := tickets.knows thread
    rw [point] at owns knows
    cases owns
    have less := (List.getElem?_eq_some_iff.mp knows.1).1
    refine .inr (after.stored_iff.mpr (.inr ?_))
    refine (congrArg VgcCell.seq (setCell_mate tickets power rfl _)).trans ?_
    exact word_of_lt (by omega)
  | push point => cases (between_owns point).1.symm.trans owns
  | pop point => cases (between_owns point).1.symm.trans owns
  | _ => simp_all [RingPoint.pushes]

theorem pops_step (step : RingStep ring thread act next) {pos : Nat}
    (owns : (ring.threads thread).pops = some pos) :
    (next.threads thread).pops = some pos ∨ pos ∈ next.returned.map Prod.fst := by
  cases step with
  | read point =>
    rw [point] at owns
    exact .inl (by rw [setPoint_same]; exact owns)
  | @release place data fails point =>
    rw [point] at owns
    cases owns
    exact .inr (List.mem_map.mpr ⟨(pos,data),List.mem_append_right _ (List.mem_singleton_self _),rfl⟩)
  | push point => cases (between_owns point).2.symm.trans owns
  | pop point => cases (between_owns point).2.symm.trans owns
  | _ => simp_all [RingPoint.pops]

theorem Kept.step (kept : ring.Kept) (tickets : ring.Tickets size) (after : next.Tickets size) (power : RingSize size)
    (pushes : ring.pushes.length < 2 ^ 63) (step : RingStep ring thread act next) : next.Kept := by
  refine ⟨fun pos less => ?_,fun pos less => ?_⟩
  · rcases Nat.lt_or_ge pos ring.pushes.length with old | new
    · rcases kept.stored pos old with ⟨owner,owns⟩ | stored
      · by_cases here : owner = thread
        · rw [here] at owns
          exact (tickets.pushes_step after power pushes step owns).imp_left fun owns => ⟨thread,owns⟩
        · exact .inl ⟨owner,by rw [step.others here]; exact owns⟩
      · exact .inr (tickets.stored_step after power step stored)
    · exact .inl ⟨thread,tickets.gains_push step new less⟩
  · rcases Nat.lt_or_ge pos ring.pops.length with old | new
    · rcases kept.taken pos old with ⟨owner,owns⟩ | returned
      · by_cases here : owner = thread
        · rw [here] at owns
          exact (pops_step step owns).imp_left fun owns => ⟨thread,owns⟩
        · exact .inl ⟨owner,by rw [step.others here]; exact owns⟩
      · exact .inr (List.map_subset Prod.fst (logs_step step).2.subset returned)
    · exact .inl ⟨thread,tickets.gains_pop step new less⟩

theorem Comes.mono {call : RingNote Data} {point : RingPoint Data} (comes : ring.Comes call point)
    (pushes : ring.pushes <+: next.pushes) (returned : ring.returned <+: next.returned)
    (stored : ∀ pos, ring.Stored pos → next.Stored pos) : next.Comes call point := by
  cases point with
  | pushed result =>
    refine comes.imp_left ?_
    rintro ⟨zero,data,pos,same,pushed,there⟩
    exact ⟨zero,data,pos,same,getElem?_extended pushes pushed,stored pos there⟩
  | popped data =>
    cases data with
    | none => exact comes
    | some data =>
      obtain ⟨pos,same,there⟩ := comes
      exact ⟨pos,same,returned.subset there⟩
  | _ => exact comes

variable {calls : Thread → RingNote Data}

theorem note_other {other : Thread} (different : other ≠ thread) :
    ring.note (thread,act) next calls other = calls other := Function.update_of_ne different ..

theorem Comes.goes {fails : Bool} {point later : RingPoint Data} (comes : ring.Comes (calls thread) (ring.threads thread))
    (before : ring.threads thread = point) (here : next.threads thread = later) (pushes : next.pushes = ring.pushes)
    (pops : next.pops = ring.pops) (goes : ring.Comes (calls thread) point → next.Comes (calls thread) later) :
    next.Comes (ring.note (thread,.go fails) next calls thread) (next.threads thread) := by
  have same : ring.note (thread,.go fails) next calls thread = calls thread := by
    simp only [note,Function.update_self,pushes,pops,List.drop_length,List.map_nil,List.append_nil]
  rw [same,here]
  rw [before] at comes
  exact goes comes

theorem Comes.step (comes : ring.Comes (calls thread) (ring.threads thread)) (tickets : ring.Tickets size)
    (after : next.Tickets size) (power : RingSize size) (pushes : ring.pushes.length < 2 ^ 63)
    (step : RingStep ring thread act next) :
    next.Comes (ring.note (thread,act) next calls thread) (next.threads thread) := by
  have knows := tickets.knows thread
  cases step with
  | push point =>
    rw [setPoint_same]
    exact Function.update_self ..
  | pop point =>
    rw [setPoint_same]
    exact Function.update_self ..
  | loadTail point => exact comes.goes point (setPoint_same _) rfl rfl id
  | free point zero => exact comes.goes point (setPoint_same _) rfl rfl id
  | full point behind => exact comes.goes point (setPoint_same _) rfl rfl fun noted => .inr ⟨rfl,_,noted⟩
  | lateTail point ahead => exact comes.goes point (setPoint_same _) rfl rfl id
  | missTail point => exact comes.goes point (setPoint_same _) rfl rfl id
  | @claimPush data fails point =>
    rw [point] at comes
    have noted : calls thread = ⟨some data,[]⟩ := comes
    have claimed : (ring.pushes ++ [(ring.rb.tail,data)]).drop ring.pushes.length = [(ring.rb.tail,data)] :=
      List.drop_left
    rw [setPoint_same]
    change ring.note _ _ _ _ = _
    simp only [note,Function.update_self,noted]
    change RingNote.mk (some data) ([] ++ (((ring.pushes ++ [(ring.rb.tail,data)]).drop _).map Prod.fst ++
      ring.pops.drop ring.pops.length)) = _
    rw [claimed,List.drop_length]
    rfl
  | write point => exact comes.goes point (setPoint_same _) rfl rfl id
  | @publish data pos fails point =>
    rw [point] at knows
    have less := (List.getElem?_eq_some_iff.mp knows.1).1
    refine comes.goes point (setPoint_same _) rfl rfl fun claimed => .inl ⟨rfl,data,pos,claimed,knows.1,?_⟩
    refine after.stored_iff.mpr (.inr ((congrArg VgcCell.seq (setCell_mate tickets power rfl _)).trans ?_))
    exact word_of_lt (by omega)
  | loadHead point => exact comes.goes point (setPoint_same _) rfl rfl id
  | filled point zero => exact comes.goes point (setPoint_same _) rfl rfl id
  | empty point => exact comes.goes point (setPoint_same _) rfl rfl id
  | lateHead point => exact comes.goes point (setPoint_same _) rfl rfl id
  | missHead point => exact comes.goes point (setPoint_same _) rfl rfl id
  | claimPop point =>
    rw [point] at comes
    have noted : calls thread = ⟨none,[]⟩ := comes
    have claimed : (ring.pops ++ [ring.rb.head]).drop ring.pops.length = [ring.rb.head] := List.drop_left
    rw [setPoint_same]
    change ring.note _ _ _ _ = _
    simp only [note,Function.update_self,noted]
    change RingNote.mk _ ([] ++ ((ring.pushes.drop ring.pushes.length).map Prod.fst ++
      (ring.pops ++ [ring.rb.head]).drop _)) = _
    rw [claimed,List.drop_length]
    rfl
  | read point => exact comes.goes point (setPoint_same _) rfl rfl id
  | @release pos data fails point =>
    exact comes.goes point (setPoint_same _) rfl rfl fun claimed =>
      ⟨pos,claimed,List.mem_append_right _ (List.mem_singleton_self _)⟩

/-- The ring keeps what is pushed in order and gives each of it away once, and does not lose any of it. -/
structure Safe (ring : RingSys Thread Data) : Prop where
  pushes : ring.pushes.map Prod.fst = List.range ring.pushes.length
  pops : ring.pops = List.range ring.pops.length
  behind : ring.pops.length ≤ ring.pushes.length
  returned : ∀ pos data, (pos,data) ∈ ring.returned → ring.pushes[pos]? = some (pos,data) ∧ pos ∈ ring.pops
  once : (ring.returned.map Prod.fst).Nodup
  reads : ∀ thread pos, ring.threads thread = .popData pos → (ring.cell pos).writer = some pos ∧
    ring.pushes[pos]? = some (pos,(ring.cell pos).data)
  unshared : ∀ thread other data pos place, ring.threads thread = .pushData data pos → other ≠ thread →
    place &&& ring.rb.bufmask = pos &&& ring.rb.bufmask → ring.threads other ≠ .popData place ∧
      ∀ datum, ring.threads other ≠ .pushData datum place
  kept : ring.Kept

theorem Tickets.safe (tickets : ring.Tickets size) (power : RingSize size) (kept : ring.Kept) : ring.Safe := by
  refine ⟨tickets.pushed,tickets.popped,tickets.behind,fun pos data returned => ?_,tickets.once,fun thread pos point => ?_,
    fun thread other data pos place point different mate => ?_,kept⟩
  · obtain ⟨pushed,less⟩ := tickets.results _ returned
    exact ⟨pushed,tickets.popped ▸ List.mem_range.mpr less⟩
  · have knows := tickets.knows thread
    rw [point] at knows
    exact tickets.full pos knows.2
  · have mine := tickets.knows thread
    have theirs := tickets.knows other
    rw [point] at mine
    have same : ring.cell place = ring.cell pos := congrArg ring.rb.buf mate
    rw [tickets.mask,power.and_mask,power.and_mask] at mate
    refine ⟨fun reads => ?_,fun datum writes => ?_⟩
    · rw [reads] at theirs
      have seq := theirs.2
      rw [same,mine.2] at seq
      exact mod_ne_succ power.two_le 0 mate seq.symm
    · rw [writes] at theirs
      have seq := theirs.2
      rw [same,mine.2] at seq
      subst seq
      exact different (tickets.pushAlone other thread pos (by rw [writes]; rfl) (by rw [point]; rfl))

/-- What is true of the ring and of the calls as long as the positions are far from the end of their 64 bits. -/
structure Served (size : Nat) (seen : RingSys Thread Data × (Thread → RingNote Data)) : Prop where
  tickets : seen.1.Tickets size
  kept : seen.1.Kept
  calls : ∀ thread, seen.1.Comes (seen.2 thread) (seen.1.threads thread)

theorem Served.step {seen after : RingSys Thread Data × (Thread → RingNote Data)} (served : Served size seen)
    (power : RingSize size) {label : Thread × RingAct Data} (stepped : observed RingSys.step note seen label = some after)
    (pushes : after.1.pushes.length < 2 ^ 63) (pops : after.1.pops.length < 2 ^ 63) : Served size after := by
  obtain ⟨next,moved,rfl⟩ := Option.map_eq_some_iff.mp stepped
  have step := ring_cases moved
  have fewer := lt_of_le_of_lt step.grows.1 pushes
  have tickets := served.tickets.step power step pushes pops
  refine ⟨tickets,served.kept.step served.tickets tickets power fewer step,fun thread => ?_⟩
  by_cases here : thread = label.1
  · subst here
    exact (served.calls _).step served.tickets tickets power fewer step
  · change next.Comes (seen.1.note (label.1,label.2) next seen.2 thread) (next.threads thread)
    rw [note_other here,step.others here]
    exact (served.calls thread).mono (logs_step step).1 (logs_step step).2
      fun pos => served.tickets.stored_step tickets power step

def Serves (size : Nat) (seen : RingSys Thread Data × (Thread → RingNote Data)) : Prop :=
  seen.1.pushes.length < 2 ^ 63 → seen.1.pops.length < 2 ^ 63 → Served size seen

theorem init_served (power : RingSize size) (buf : Nat → Data) :
    Served size ((init buf size : RingSys Thread Data),fun _ => ⟨none,[]⟩) where
  tickets := init_tickets power buf
  kept := ⟨fun _ less => absurd less (Nat.not_lt_zero _),fun _ less => absurd less (Nat.not_lt_zero _)⟩
  calls _ := trivial

theorem reached_serves (power : RingSize size) {buf : Nat → Data} {seen : RingSys Thread Data × (Thread → RingNote Data)}
    (run : Run (observed RingSys.step note) (fun _ _ => True) (init buf size,fun _ => ⟨none,[]⟩) seen) :
    Serves size seen := by
  refine run.invariant (fun _ _ => init_served power buf) ?_
  intro seen label after serves _ stepped pushes pops
  obtain ⟨next,moved,rfl⟩ := Option.map_eq_some_iff.mp stepped
  obtain ⟨morePushes,morePops⟩ := (ring_cases moved).grows
  exact (serves (lt_of_le_of_lt morePushes pushes) (lt_of_le_of_lt morePops pops)).step power stepped pushes pops

end RingSys

/-- An operation claims a position at most, so that there are fewer than 2^63 of either when there are fewer than
2^63 operations. -/
theorem run_ring {size : Nat} (power : RingSize size) {buf : Nat → Data}
    {seen : RingSys Thread Data × (Thread → RingNote Data)}
    (run : Run (observed RingSys.step RingSys.note) (fun _ _ => True) (RingSys.init buf size,fun _ => ⟨none,[]⟩) seen)
    (pushes : seen.1.pushes.length < 2 ^ 63) (pops : seen.1.pops.length < 2 ^ 63) :
    seen.1.Safe ∧ ∀ thread, seen.1.Comes (seen.2 thread) (seen.1.threads thread) := by
  have served := RingSys.reached_serves power run pushes pops
  exact ⟨served.tickets.safe power served.kept,served.calls⟩

/-- Two pushes at once, of which one comes late and then fails for no reason, a pop and a push of the next round. -/
def ringShared (here there : Fin 2) : List (Fin 2 × RingAct Nat) :=
  [(here,.push 10),(here,.go false),(here,.go false),(there,.push 20),(there,.go false),(there,.go false),(there,.go false),
    (here,.go false),(here,.go false),(here,.go true),(here,.go false),(here,.go false),(here,.go false),(here,.go false),
    (there,.go false),(there,.go false),(here,.pop),(here,.go false),(here,.go false),(here,.go false),(here,.go false),(here,.go false),
    (there,.push 30),(there,.go false),(there,.go false),(there,.go false),(there,.go false),(there,.go false)]

theorem run_ring_shared : ∃ seen : RingSys (Fin 2) Nat × (Fin 2 → RingNote Nat),
    replay (observed RingSys.step RingSys.note) (fun _ _ => True) (RingSys.init (fun _ => 0) 2,fun _ => ⟨none,[]⟩)
        (ringShared 0 1) = some seen ∧
      seen.1.pushes = [(0,20),(1,10),(2,30)] ∧ seen.1.threads 0 = .popped (some 20) ∧ (seen.2 0).claimed = [0] ∧
        seen.1.Safe ∧ ∀ thread, seen.1.Comes (seen.2 thread) (seen.1.threads thread) := by
  have ran : (replay (observed RingSys.step RingSys.note) (fun _ _ => True)
      (RingSys.init (fun _ => 0) 2,fun _ => ⟨none,[]⟩) (ringShared 0 1)).map (fun seen =>
        decide (seen.1.pushes = [(0,20),(1,10),(2,30)] ∧ seen.1.pops = [0] ∧ seen.1.threads 0 = .popped (some 20) ∧
          (seen.2 0).claimed = [0])) = some true := by decide +kernel
  obtain ⟨seen,replayed,state⟩ := Option.map_eq_some_iff.mp ran
  obtain ⟨pushes,pops,point,claimed⟩ := of_decide_eq_true state
  have served := run_ring ⟨1,by decide,by decide,rfl⟩ (Run.start.replay replayed) (by rw [pushes]; decide)
    (by rw [pops]; decide)
  exact ⟨seen,replayed,pushes,point,claimed,served⟩

end CSpock.Fibers
