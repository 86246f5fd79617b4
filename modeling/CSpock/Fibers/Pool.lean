import CSpock.Fibers.Tickets

/-! The pool of free fibers. A fiber that a pop gave away can be pushed again, and there is
room for it unless a pop has claimed its cell and is not done. -/
set_option linter.unusedSectionVars false
namespace CSpock.Fibers
open CSpock.Library.Transition

variable {size : Nat} {Thread : Type} [DecidableEq Thread]

/-- The ring with the fibers that are not in it and not about to be pushed. -/
structure FreeQPool (size : Nat) (Thread : Type) where
  ring : RingSys Thread (Fin size)
  held : List (Fin size)

def RingPoint.tries {Data : Type} : RingPoint Data → Bool
  | .pushTail _ => true
  | .pushSeq _ _ => true
  | .pushExchange _ _ => true
  | _ => false

def RingPoint.looks {Data : Type} : RingPoint Data → Option Nat
  | .pushSeq _ pos => some pos
  | _ => none

def RingPoint.gives {Data : Type} : RingPoint Data → Option Data
  | .popStore _ data => some data
  | _ => none

namespace FreeQPool

def step (pool : FreeQPool size Thread) (label : Thread × RingAct (Fin size)) : Option (FreeQPool size Thread) :=
  (pool.ring.step label).map fun next => ⟨next,match label.2 with
    | .push fiber => pool.held.erase fiber
    | .pop => pool.held
    | .go _ => pool.held ++ (pool.ring.threads label.1).gives.toList⟩

/-- The fibers are made. `vgc_scheduler_init` pushes all of them from there before a thread runs, which is one of
the things that can happen. -/
def init (size : Nat) (buf : Nat → Fin size) : FreeQPool size Thread := ⟨.init buf size,List.finRange size⟩

def Returns (pool : FreeQPool size Thread) (label : Thread × RingAct (Fin size)) : Prop :=
  match label.2 with
  | .push fiber => fiber ∈ pool.held
  | _ => True

/-- No push loads the sequence number of a cell whose pop of the round before has claimed it and is not done. -/
def Unhurried (pool : FreeQPool size Thread) (label : Thread × RingAct (Fin size)) : Prop :=
  pool.Returns label ∧ ∀ pos ∈ (pool.ring.threads label.1).looks, ∀ other, ∀ place ∈ (pool.ring.threads other).pops,
    place + size ≠ pos

instance (pool : FreeQPool size Thread) (label : Thread × RingAct (Fin size)) : Decidable (pool.Returns label) :=
  match label with
  | (_,.push fiber) => inferInstanceAs (Decidable (fiber ∈ pool.held))
  | (_,.pop) => isTrue trivial
  | (_,.go _) => isTrue trivial

instance [Fintype Thread] (pool : FreeQPool size Thread) (label : Thread × RingAct (Fin size)) :
    Decidable (pool.Unhurried label) := inferInstanceAs (Decidable (_ ∧ ∀ pos ∈ (pool.ring.threads label.1).looks,
      ∀ other, ∀ place ∈ (pool.ring.threads other).pops, place + size ≠ pos))

end FreeQPool

theorem difference_neg {seq pos : Nat} (seqBound : seq < 2 ^ 63) (posBound : pos < 2 ^ 63)
    (behind : difference seq pos < 0) : seq < pos := by
  unfold difference at behind
  rw [Int.bmod_eq_of_le (by omega) (by omega)] at behind
  omega

namespace RingSys

variable {Data : Type} {ring next : RingSys Thread Data} {thread : Thread} {act : RingAct Data}

theorem Tickets.seq_le (tickets : ring.Tickets size) (power : RingSize size) (step : RingStep ring thread act next)
    (pushes : ring.pushes.length < 2 ^ 63) (pops : ring.pops.length < 2 ^ 63) (pos : Nat) :
    (ring.cell pos).seq ≤ (next.cell pos).seq ∧ ((ring.cell pos).seq = (next.cell pos).seq ∨
      (next.cell pos).seq ≤ ring.pushes.length + size) := by
  have knows := tickets.knows thread
  have two := power.two_le
  have most := power.le
  have update : ∀ (place : Nat) (cell : VgcCell Data), (ring.cell place).seq ≤ cell.seq →
      ((ring.cell place).seq = cell.seq ∨ cell.seq ≤ ring.pushes.length + size) →
      (ring.cell pos).seq ≤ ((ring.setCell place cell).cell pos).seq ∧
        ((ring.cell pos).seq = ((ring.setCell place cell).cell pos).seq ∨
          ((ring.setCell place cell).cell pos).seq ≤ ring.pushes.length + size) := by
    intro place cell less bound
    by_cases same : pos % size = place % size
    · rw [setCell_mate tickets power same,cell_mate tickets power same]
      exact ⟨less,bound⟩
    · rw [setCell_apart tickets power same]
      exact ⟨le_refl _,.inl rfl⟩
  cases step with
  | write point => exact update _ _ (le_refl _) (.inl rfl)
  | @publish data place fails point =>
    rw [point] at knows
    have claimed := (List.getElem?_eq_some_iff.mp knows.1).1
    have seq := knows.2.1
    refine update place _ ?_ (.inr ?_)
    · change (ring.cell place).seq ≤ word (place+1)
      rw [word_of_lt (by omega)]
      omega
    · change word (place+1) ≤ _
      rw [word_of_lt (by omega)]
      omega
  | @release place data fails point =>
    rw [point] at knows
    obtain ⟨less,seq,_⟩ := knows
    have behind := tickets.behind
    have mask := tickets.mask
    refine update place _ ?_ (.inr ?_)
    · change (ring.cell place).seq ≤ word (place+ring.rb.bufmask+1)
      rw [word_of_lt (by omega)]
      omega
    · change word (place+ring.rb.bufmask+1) ≤ _
      rw [word_of_lt (by omega)]
      omega
  | _ => exact ⟨le_refl _,.inl rfl⟩

theorem Tickets.claims_push (tickets : ring.Tickets size) (step : RingStep ring thread act next) {pos : Nat}
    (new : ring.pushes.length ≤ pos) (less : pos < next.pushes.length) : pos ≤ (ring.cell pos).seq := by
  have knows := tickets.knows thread
  cases step with
  | @claimPush data fails point =>
    change pos < (ring.pushes ++ [(ring.rb.tail,data)]).length at less
    rw [List.length_append,List.length_singleton] at less
    have here : pos = ring.rb.tail := by
      have tail := tickets.tail
      omega
    rw [point] at knows
    rw [here]
    exact le_of_eq (knows.resolve_left (by rw [tickets.tail]; exact lt_irrefl _)).symm
  | claimPop point => exact absurd less (not_lt.mpr new)
  | _ => exact absurd less (not_lt.mpr new)

theorem Tickets.pops_on (tickets : ring.Tickets size) (step : RingStep ring thread act next) (power : RingSize size)
    (pops : ring.pops.length < 2 ^ 63) {pos : Nat} (owns : (ring.threads thread).pops = some pos) :
    pos + size ≤ (next.cell pos).seq ∨ (next.threads thread).pops = some pos := by
  cases step with
  | @read place fails point =>
    rw [point] at owns
    exact .inr (by rw [setPoint_same]; exact owns)
  | @release place data fails point =>
    have less := pops_lt tickets owns
    rw [point] at owns
    cases owns
    have two := power.two_le
    have most := power.le
    have mask := tickets.mask
    refine .inl ?_
    change pos + size ≤ ((ring.setCell pos _).cell pos).seq
    rw [setCell_mate tickets power rfl]
    change pos + size ≤ word (pos+ring.rb.bufmask+1)
    rw [word_of_lt (by omega)]
    omega
  | push point => cases at_ : ring.threads thread <;> rw [at_] at owns point <;> cases owns <;> cases point
  | pop point => cases at_ : ring.threads thread <;> rw [at_] at owns point <;> cases owns <;> cases point
  | _ => simp_all [RingPoint.pops]

end RingSys

namespace FreeQPool

variable {pool after : FreeQPool size Thread} {label : Thread × RingAct (Fin size)}

/-- There is room: the cells are as far as the claims are, and no more fibers are about than there are. -/
structure Roomy (pool : FreeQPool size Thread) : Prop where
  tickets : pool.ring.Tickets size
  most : ∀ pos, (pool.ring.cell pos).seq ≤ pool.ring.pushes.length + size
  early : ∀ pos, pos < size → pos ≤ (pool.ring.cell pos).seq
  claimed : ∀ pos, pos < pool.ring.pushes.length → pos ≤ (pool.ring.cell pos).seq
  drained : ∀ pos, pos < pool.ring.pops.length → pos + size ≤ (pool.ring.cell pos).seq ∨
    ∃ thread, (pool.ring.threads thread).pops = some pos
  fibers : ∃ trying popping : Finset Thread, (∀ thread, thread ∈ trying ↔ (pool.ring.threads thread).tries = true) ∧
    (∀ thread, thread ∈ popping ↔ (pool.ring.threads thread).pops.isSome = true) ∧
    pool.held.length + trying.card + pool.ring.pushes.length + popping.card ≤ size + pool.ring.pops.length
  accepted : ∀ thread, pool.ring.threads thread ≠ .pushed (-1)

theorem init_roomy (power : RingSize size) (buf : Nat → Fin size) :
    (init size buf : FreeQPool size Thread).Roomy where
  tickets := RingSys.init_tickets power buf
  most pos := by
    have two := power.two_le
    have cell : ((init size buf : FreeQPool size Thread).ring.cell pos).seq = pos % size :=
      congrArg VgcCell.seq (RingSys.init_cell power buf pos)
    exact cell.trans_le (le_trans (le_of_lt (Nat.mod_lt pos (by omega))) (Nat.le_add_left ..))
  early pos less := by
    have cell : ((init size buf : FreeQPool size Thread).ring.cell pos).seq = pos % size :=
      congrArg VgcCell.seq (RingSys.init_cell power buf pos)
    exact le_of_eq (cell.trans (Nat.mod_eq_of_lt less)).symm
  claimed := nofun
  drained := nofun
  fibers := ⟨∅,∅,by simp [init,RingSys.init,RingPoint.tries],by simp [init,RingSys.init,RingPoint.pops],by
    simp [init,RingSys.init]⟩
  accepted := nofun

/-- A push that finds its cell behind is late to a pop that is not done. -/
theorem Roomy.not_full (roomy : pool.Roomy) (power : RingSize size) (limit : pool.ring.pushes.length + size < 2 ^ 63)
    {thread : Thread} {fiber : Fin size} {pos : Nat} (point : pool.ring.threads thread = .pushSeq fiber pos)
    (behind : difference (pool.ring.cell pos).seq pos < 0) :
    ∃ other place, (pool.ring.threads other).pops = some place ∧ place + size = pos := by
  have knows := roomy.tickets.knows thread
  rw [point] at knows
  have here : pos ≤ pool.ring.pushes.length := knows
  have most := roomy.most pos
  have late := difference_neg (by omega) (by omega) behind
  have last : pos = pool.ring.pushes.length := by
    by_contra different
    have enough := roomy.claimed pos (by omega)
    omega
  have wrapped : size ≤ pos := by
    by_contra less
    have enough := roomy.early pos (by omega)
    omega
  obtain ⟨trying,popping,tries,_,few⟩ := roomy.fibers
  have one : 0 < trying.card := Finset.card_pos.mpr ⟨thread,(tries thread).mpr (by rw [point]; rfl)⟩
  have mate : pool.ring.cell (pos-size) = pool.ring.cell pos :=
    RingSys.cell_mate roomy.tickets power (by rw [← Nat.mod_eq_sub_mod wrapped])
  rcases roomy.drained (pos-size) (by omega) with done | ⟨other,owns⟩
  · rw [mate] at done
    omega
  · exact ⟨other,pos-size,owns,by omega⟩

theorem Roomy.fibers_step (roomy : pool.Roomy) {thread : Thread} {act : RingAct (Fin size)}
    {next : RingSys Thread (Fin size)} (returns : pool.Returns (thread,act)) (step : RingStep pool.ring thread act next) :
    ∃ trying popping : Finset Thread, (∀ thread, thread ∈ trying ↔ (next.threads thread).tries = true) ∧
      (∀ thread, thread ∈ popping ↔ (next.threads thread).pops.isSome = true) ∧
      (match act with
        | .push fiber => pool.held.erase fiber
        | .pop => pool.held
        | .go _ => pool.held ++ (pool.ring.threads thread).gives.toList).length +
          trying.card + next.pushes.length + popping.card ≤ size + next.pops.length := by
  obtain ⟨trying,popping,tries,pops,few⟩ := roomy.fibers
  have others : ∀ other, other ≠ thread → next.threads other = pool.ring.threads other := fun _ => step.others
  obtain ⟨trying',tries',tried⟩ := tally RingPoint.tries others tries
  obtain ⟨popping',pops',popped⟩ := tally (fun point => (RingPoint.pops point).isSome) others pops
  refine ⟨trying',popping',tries',pops',?_⟩
  cases step with
  | @push fiber point =>
    have less := List.length_erase_of_mem returns
    have some_held := List.length_pos_of_mem returns
    simp only [RingSys.setPoint_same,RingPoint.tries,RingPoint.pops,Bool.toNat_true,Bool.toNat_false,
      Option.isSome_none] at tried popped
    simp only [RingSys.setPoint]
    omega
  | pop point =>
    simp only [RingSys.setPoint_same,RingPoint.tries,RingPoint.pops,Bool.toNat_false,
      Option.isSome_none] at tried popped
    simp only [RingSys.setPoint]
    omega
  | claimPush point =>
    simp only [point,RingSys.setPoint_same,RingPoint.tries,RingPoint.pops,Bool.toNat_false,Bool.toNat_true,
      Option.isSome_none] at tried popped
    simp only [point,RingPoint.gives,RingSys.setPoint,RingSys.claimPush,List.length_append,Option.toList_none,
      List.length_nil,List.length_singleton]
    omega
  | claimPop point =>
    simp only [point,RingSys.setPoint_same,RingPoint.tries,RingPoint.pops,Bool.toNat_false,Bool.toNat_true,
      Option.isSome_none,Option.isSome_some] at tried popped
    simp only [point,RingPoint.gives,RingSys.setPoint,RingSys.claimPop,List.length_append,Option.toList_none,
      List.length_nil,List.length_singleton]
    omega
  | release point =>
    simp only [point,RingSys.setPoint_same,RingPoint.tries,RingPoint.pops,Bool.toNat_false,Bool.toNat_true,
      Option.isSome_none,Option.isSome_some] at tried popped
    simp only [point,RingPoint.gives,RingSys.setPoint,RingSys.setCell,List.length_append,Option.toList_some,
      List.length_singleton]
    omega
  | _ =>
    simp_all only [RingSys.setPoint_same,RingPoint.tries,RingPoint.pops,Bool.toNat_false,Bool.toNat_true,
      Option.isSome_none,Option.isSome_some]
    simp only [RingPoint.gives,RingSys.setPoint,RingSys.setCell,List.length_append,Option.toList_none,
      List.length_nil]
    omega

theorem Roomy.step (roomy : pool.Roomy) (power : RingSize size) {thread : Thread} {act : RingAct (Fin size)}
    (unhurried : pool.Unhurried (thread,act)) (stepped : pool.step (thread,act) = some after)
    (pushes : after.ring.pushes.length + size < 2 ^ 63) (pops : after.ring.pops.length + size < 2 ^ 63) :
    after.Roomy := by
  obtain ⟨next,moved,rfl⟩ := Option.map_eq_some_iff.mp stepped
  have step := ring_cases moved
  obtain ⟨morePushes,morePops⟩ := step.grows
  change next.pushes.length + size < 2 ^ 63 at pushes
  change next.pops.length + size < 2 ^ 63 at pops
  have seq := roomy.tickets.seq_le power step (by omega) (by omega)
  have others : ∀ other, other ≠ thread → next.threads other = pool.ring.threads other := fun _ => step.others
  have most : ∀ pos, (next.cell pos).seq ≤ next.pushes.length + size := by
    intro pos
    have most := roomy.most pos
    obtain ⟨_,same | small⟩ := seq pos <;> omega
  have claimed : ∀ pos, pos < next.pushes.length → pos ≤ (next.cell pos).seq := by
    intro pos less
    by_cases before : pos < pool.ring.pushes.length
    · exact le_trans (roomy.claimed pos before) (seq pos).1
    · exact le_trans (roomy.tickets.claims_push step (by omega) less) (seq pos).1
  have drained : ∀ pos, pos < next.pops.length → pos + size ≤ (next.cell pos).seq ∨
      ∃ thread, (next.threads thread).pops = some pos := by
    intro pos less
    by_cases before : pos < pool.ring.pops.length
    · rcases roomy.drained pos before with done | ⟨other,owns⟩
      · exact .inl (le_trans done (seq pos).1)
      · by_cases here : other = thread
        · subst here
          exact (roomy.tickets.pops_on step power (by omega) owns).imp id fun owns => ⟨other,owns⟩
        · exact .inr ⟨other,by rw [others other here]; exact owns⟩
    · exact .inr ⟨thread,roomy.tickets.gains_pop step (by omega) less⟩
  have fibers := roomy.fibers_step unhurried.1 step
  have tickets := roomy.tickets.step power step (by omega) (by omega)
  refine ⟨tickets,most,fun pos less => le_trans (roomy.early pos less) (seq pos).1,claimed,drained,fibers,
    fun other => ?_⟩
  by_cases here : other = thread
  · subst here
    intro failed
    change next.threads other = .pushed (-1) at failed
    cases step with
    | full point behind =>
      obtain ⟨owner,place,owns,round⟩ := roomy.not_full power (by omega) point behind
      exact unhurried.2 _ (by rw [point]; rfl) owner place owns round
    | _ => simp at failed
  · change next.threads other ≠ .pushed (-1)
    rw [others other here]
    exact roomy.accepted other

/-- As long as the positions, and those of the next round, are far from the end of their 64 bits. -/
def Bounded (pool : FreeQPool size Thread) : Prop :=
  pool.ring.pushes.length + size < 2 ^ 63 → pool.ring.pops.length + size < 2 ^ 63 → pool.Roomy

theorem reached_roomy (power : RingSize size) {buf : Nat → Fin size}
    (run : Run step Unhurried (init size buf) pool) : pool.Bounded := by
  refine run.invariant (fun _ _ => init_roomy power buf) ?_
  intro pool label after roomy unhurried stepped pushes pops
  obtain ⟨next,moved,rfl⟩ := Option.map_eq_some_iff.mp stepped
  obtain ⟨morePushes,morePops⟩ := (ring_cases moved).grows
  exact (roomy (lt_of_le_of_lt (Nat.add_le_add_right morePushes size) pushes)
    (lt_of_le_of_lt (Nat.add_le_add_right morePops size) pops)).step power unhurried stepped pushes pops

end FreeQPool

/-- While no push looks at a cell whose pop is not done, and the positions are far from the end of their 64 bits. -/
theorem run_pool {size : Nat} (power : RingSize size) {buf : Nat → Fin size} {pool : FreeQPool size Thread}
    (run : Run FreeQPool.step FreeQPool.Unhurried (FreeQPool.init size buf) pool)
    (pushes : pool.ring.pushes.length + size < 2 ^ 63) (pops : pool.ring.pops.length + size < 2 ^ 63)
    (thread : Thread) : pool.ring.threads thread ≠ .pushed (-1) :=
  (FreeQPool.reached_roomy power run pushes pops).accepted thread

/-- The two fibers of a pool are pushed and one pop claims a position. -/
def poolFilled (main fiber mate : Fin 2) : List (Fin 2 × RingAct (Fin 2)) :=
  [(main,.push fiber),(main,.go false),(main,.go false),(main,.go false),(main,.go false),(main,.go false),
    (main,.push mate),(main,.go false),(main,.go false),(main,.go false),(main,.go false),(main,.go false),
    (main,.pop),(main,.go false),(main,.go false),(main,.go false)]

/-- The other fiber is popped, and pushed before the first pop is done or after. -/
def poolReturned (worker mate : Fin 2) (first : List (Fin 2 × RingAct (Fin 2))) : List (Fin 2 × RingAct (Fin 2)) :=
  [(worker,.pop),(worker,.go false),(worker,.go false),(worker,.go false),(worker,.go false),(worker,.go false)] ++
    first ++ [(worker,.push mate),(worker,.go false),(worker,.go false)]

theorem run_pool_patient : ∃ pool : FreeQPool 2 (Fin 2),
    replay FreeQPool.step FreeQPool.Unhurried (FreeQPool.init 2 fun _ => 0)
      (poolFilled 0 0 1 ++ poolReturned 1 1 [(0,.go false),(0,.go false)]) = some pool ∧
        pool.ring.threads 1 ≠ .pushed (-1) := by
  have ran : (replay FreeQPool.step FreeQPool.Unhurried (FreeQPool.init 2 fun _ => 0)
      (poolFilled 0 0 1 ++ poolReturned 1 1 [(0,.go false),(0,.go false)])).map
        (fun pool => decide (pool.ring.pushes = [(0,0),(1,1)] ∧ pool.ring.pops = [0,1])) = some true := by
    decide +kernel
  obtain ⟨pool,replayed,state⟩ := Option.map_eq_some_iff.mp ran
  obtain ⟨pushes,pops⟩ := of_decide_eq_true state
  refine ⟨pool,replayed,run_pool ⟨1,by decide,by decide,rfl⟩ (Run.start.replay replayed) ?_ ?_ 1⟩
  · rw [pushes]
    decide
  · rw [pops]
    decide

theorem run_pool_fails : ∃ pool : FreeQPool 2 (Fin 2),
    Run FreeQPool.step FreeQPool.Returns (FreeQPool.init 2 fun _ => 0) pool ∧
      pool.ring.threads 1 = .pushed (-1) := by
  have ran : (replay FreeQPool.step FreeQPool.Returns (FreeQPool.init 2 fun _ => 0)
      (poolFilled 0 0 1 ++ poolReturned 1 1 [])).map (fun pool => decide (pool.ring.threads 1 = .pushed (-1))) = some true := by
    decide +kernel
  obtain ⟨pool,replayed,state⟩ := Option.map_eq_some_iff.mp ran
  exact ⟨pool,Run.start.replay replayed,of_decide_eq_true state⟩

end CSpock.Fibers
