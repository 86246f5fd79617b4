import CSpock.Fibers.Ring

/-! The sequence number of a cell is a ticket: it says which push or pop may have the cell
next. -/
set_option linter.unusedSectionVars false
namespace CSpock.Fibers
open CSpock.Library.Transition

theorem difference_eq_zero {seq pos : Nat} (seqBound : seq < 2 ^ 64) (posBound : pos < 2 ^ 64) :
    difference seq pos = 0 ↔ seq = pos := by
  unfold difference
  rw [← Int.dvd_iff_bmod_eq_zero]
  omega

theorem word_of_lt {value : Nat} (bound : value < 2 ^ 64) : word value = value := Nat.mod_eq_of_lt bound

/-- A power of two that is at least 2, in 64 bits. -/
def RingSize (size : Nat) : Prop := ∃ bits, 1 ≤ bits ∧ bits ≤ 63 ∧ size = 2 ^ bits

theorem RingSize.two_le {size : Nat} (power : RingSize size) : 2 ≤ size := by
  obtain ⟨bits,one,_,rfl⟩ := power
  exact Nat.le_self_pow (by omega) 2

theorem RingSize.le {size : Nat} (power : RingSize size) : size ≤ 2 ^ 63 := by
  obtain ⟨bits,_,most,rfl⟩ := power
  exact Nat.pow_le_pow_right (by omega) most

theorem RingSize.and_mask {size : Nat} (power : RingSize size) (pos : Nat) : pos &&& (size-1) = pos % size := by
  obtain ⟨bits,_,_,rfl⟩ := power
  exact Nat.and_two_pow_sub_one_eq_mod pos bits

theorem mod_ne_succ {size one two : Nat} (twoLe : 2 ≤ size) (round : Nat) (same : one % size = two % size) :
    one + 1 ≠ two + size * round := by
  intro next
  have left : (one + 1) % size = one % size := by rw [next,Nat.add_mul_mod_self_left,same]
  have right : (one + 1) % size = (one % size + 1) % size := (Nat.mod_add_mod ..).symm
  have less := Nat.mod_lt one (show 0 < size by omega)
  by_cases last : one % size + 1 = size
  · rw [last,Nat.mod_self] at right
    omega
  · rw [Nat.mod_eq_of_lt (show one % size + 1 < size by omega)] at right
    omega

variable {Thread Data : Type} [DecidableEq Thread]

def RingPoint.pushes : RingPoint Data → Option Nat
  | .pushData _ pos => some pos
  | .pushStore _ pos => some pos
  | _ => none

def RingPoint.pops : RingPoint Data → Option Nat
  | .popData pos => some pos
  | .popStore pos _ => some pos
  | _ => none

theorem RingStep.grows {ring next : RingSys Thread Data} {thread : Thread} {act : RingAct Data}
    (step : RingStep ring thread act next) :
    ring.pushes.length ≤ next.pushes.length ∧ ring.pops.length ≤ next.pops.length := by
  cases step with
  | claimPush point => exact ⟨(List.prefix_append ..).length_le,le_refl _⟩
  | claimPop point => exact ⟨le_refl _,(List.prefix_append ..).length_le⟩
  | _ => exact ⟨le_refl _,le_refl _⟩

namespace RingSys

/-- What a thread knows about the position that it is at. Before it has claimed the position, it may be late. -/
def Knows (ring : RingSys Thread Data) : RingPoint Data → Prop
  | .pushSeq _ pos => pos ≤ ring.pushes.length
  | .pushExchange _ pos => pos < ring.pushes.length ∨ (ring.cell pos).seq = pos
  | .pushData data pos => ring.pushes[pos]? = some (pos,data) ∧ (ring.cell pos).seq = pos
  | .pushStore data pos => ring.pushes[pos]? = some (pos,data) ∧ (ring.cell pos).seq = pos ∧
      (ring.cell pos).writer = some pos ∧ (ring.cell pos).data = data
  | .popSeq pos => pos ≤ ring.pops.length
  | .popExchange pos => pos < ring.pops.length ∨ (ring.cell pos).seq = pos + 1
  | .popData pos => pos < ring.pops.length ∧ (ring.cell pos).seq = pos + 1
  | .popStore pos data => pos < ring.pops.length ∧ (ring.cell pos).seq = pos + 1 ∧
      ring.pushes[pos]? = some (pos,data)
  | _ => True

structure Tickets (size : Nat) (ring : RingSys Thread Data) : Prop where
  mask : ring.rb.bufmask = size - 1
  tail : ring.rb.tail = ring.pushes.length
  head : ring.rb.head = ring.pops.length
  pushed : ring.pushes.map Prod.fst = List.range ring.pushes.length
  popped : ring.pops = List.range ring.pops.length
  behind : ring.pops.length ≤ ring.pushes.length
  bound : ∀ pos, (ring.cell pos).seq < 2 ^ 63 + size
  full : ∀ pos, (ring.cell pos).seq = pos + 1 → (ring.cell pos).writer = some pos ∧
    ring.pushes[pos]? = some (pos,(ring.cell pos).data)
  knows : ∀ thread, ring.Knows (ring.threads thread)
  pushAlone : ∀ thread other pos, (ring.threads thread).pushes = some pos →
    (ring.threads other).pushes = some pos → thread = other
  popAlone : ∀ thread other pos, (ring.threads thread).pops = some pos →
    (ring.threads other).pops = some pos → thread = other
  results : ∀ entry ∈ ring.returned, ring.pushes[entry.1]? = some entry ∧ entry.1 < ring.pops.length
  once : (ring.returned.map Prod.fst).Nodup
  unreturned : ∀ thread pos, (ring.threads thread).pops = some pos → pos ∉ ring.returned.map Prod.fst

variable {ring next : RingSys Thread Data} {thread : Thread} {size : Nat}

@[simp] theorem setPoint_same (point : RingPoint Data) : (ring.setPoint thread point).threads thread = point :=
  Function.update_self ..

theorem setPoint_other (point : RingPoint Data) {other : Thread} (different : other ≠ thread) :
    (ring.setPoint thread point).threads other = ring.threads other := Function.update_of_ne different ..

theorem owned_step (own : RingPoint Data → Option Nat)
    (others : ∀ other, other ≠ thread → next.threads other = ring.threads other)
    (mine : ∀ pos, own (next.threads thread) = some pos → own (ring.threads thread) = some pos) (other : Thread)
    (pos : Nat) (owns : own (next.threads other) = some pos) : own (ring.threads other) = some pos := by
  by_cases here : other = thread
  · subst here
    exact mine pos owns
  · rwa [others other here] at owns

theorem cell_mod (tickets : ring.Tickets size) (power : RingSize size) (pos : Nat) :
    ring.cell pos = ring.rb.buf (pos % size) := by
  rw [cell,tickets.mask,power.and_mask]

theorem setCell_mate (tickets : ring.Tickets size) (power : RingSize size) {pos other : Nat}
    (mate : other % size = pos % size) (cell : VgcCell Data) : (ring.setCell pos cell).cell other = cell := by
  have same : other &&& ring.rb.bufmask = pos &&& ring.rb.bufmask := by
    rw [tickets.mask,power.and_mask,power.and_mask,mate]
  exact (congrArg (Function.update ring.rb.buf _ cell) same).trans (Function.update_self ..)

theorem setCell_apart (tickets : ring.Tickets size) (power : RingSize size) {pos other : Nat}
    (apart : other % size ≠ pos % size) (cell : VgcCell Data) :
    (ring.setCell pos cell).cell other = ring.cell other := by
  refine Function.update_of_ne ?_ ..
  change other &&& ring.rb.bufmask ≠ pos &&& ring.rb.bufmask
  rw [tickets.mask,power.and_mask,power.and_mask]
  exact apart

theorem cell_mate (tickets : ring.Tickets size) (power : RingSize size) {pos other : Nat}
    (mate : other % size = pos % size) : ring.cell other = ring.cell pos := by
  rw [cell_mod tickets power,cell_mod tickets power,mate]

def RingPoint.pos : RingPoint Data → Option Nat
  | .pushSeq _ pos => some pos
  | .pushExchange _ pos => some pos
  | .pushData _ pos => some pos
  | .pushStore _ pos => some pos
  | .popSeq pos => some pos
  | .popExchange pos => some pos
  | .popData pos => some pos
  | .popStore pos _ => some pos
  | _ => none

theorem getElem?_extended {list longer : List (Nat × Data)} (grown : list <+: longer) {pos : Nat}
    {entry : Nat × Data} (found : list[pos]? = some entry) : longer[pos]? = some entry := by
  obtain ⟨less,same⟩ := List.getElem?_eq_some_iff.mp found
  obtain ⟨rest,rfl⟩ := grown
  rw [List.getElem?_append_left less,found]

/-- What a thread knows is not touched by the claims of others and the accesses to other cells. -/
theorem Knows.mono {point : RingPoint Data} (knows : ring.Knows point) (pushes : ring.pushes <+: next.pushes)
    (pops : ring.pops.length ≤ next.pops.length)
    (cell : ∀ pos, RingPoint.pos point = some pos → next.cell pos = ring.cell pos) : next.Knows point := by
  have more := pushes.length_le
  cases point with
  | pushSeq data pos => exact le_trans knows more
  | pushExchange data pos =>
    simp only [Knows,cell pos rfl]
    exact knows.imp (fun less => lt_of_lt_of_le less more) id
  | pushData data pos =>
    simp only [Knows,cell pos rfl]
    exact ⟨getElem?_extended pushes knows.1,knows.2⟩
  | pushStore data pos =>
    simp only [Knows,cell pos rfl]
    exact ⟨getElem?_extended pushes knows.1,knows.2⟩
  | popSeq pos => exact le_trans knows pops
  | popExchange pos =>
    simp only [Knows,cell pos rfl]
    exact knows.imp (fun less => lt_of_lt_of_le less pops) id
  | popData pos =>
    simp only [Knows,cell pos rfl]
    exact ⟨lt_of_lt_of_le knows.1 pops,knows.2⟩
  | popStore pos data =>
    simp only [Knows,cell pos rfl]
    exact ⟨lt_of_lt_of_le knows.1 pops,knows.2.1,getElem?_extended pushes knows.2.2⟩
  | _ => trivial

theorem Tickets.point (tickets : ring.Tickets size) {point : RingPoint Data} (knows : ring.Knows point)
    (pushes : ∀ pos, point.pushes = some pos → (ring.threads thread).pushes = some pos)
    (pops : ∀ pos, point.pops = some pos → (ring.threads thread).pops = some pos) :
    (ring.setPoint thread point).Tickets size := by
  have others : ∀ other, other ≠ thread → (ring.setPoint thread point).threads other = ring.threads other :=
    fun other => setPoint_other point
  have pushes' := owned_step RingPoint.pushes others (by simpa using pushes)
  have pops' := owned_step RingPoint.pops others (by simpa using pops)
  refine { tickets with knows := fun other => ?_, pushAlone := ?_, popAlone := ?_, unreturned := ?_ }
  · by_cases here : other = thread
    · subst here
      rw [setPoint_same]
      exact Knows.mono knows List.prefix_rfl (le_refl _) fun _ _ => rfl
    · rw [setPoint_other point here]
      exact (tickets.knows other).mono List.prefix_rfl (le_refl _) fun _ _ => rfl
  · exact fun one two pos first second => tickets.pushAlone one two pos (pushes' one pos first) (pushes' two pos second)
  · exact fun one two pos first second => tickets.popAlone one two pos (pops' one pos first) (pops' two pos second)
  · exact fun other pos owns => tickets.unreturned other pos (pops' other pos owns)

theorem pushes_lt (tickets : ring.Tickets size) {pos : Nat} (owns : (ring.threads thread).pushes = some pos) :
    pos < ring.pushes.length := by
  have knows := tickets.knows thread
  cases point : ring.threads thread <;> rw [point] at owns knows <;> cases owns
  · exact (List.getElem?_eq_some_iff.mp knows.1).1
  · exact (List.getElem?_eq_some_iff.mp knows.1).1

theorem pops_lt (tickets : ring.Tickets size) {pos : Nat} (owns : (ring.threads thread).pops = some pos) :
    pos < ring.pops.length := by
  have knows := tickets.knows thread
  cases point : ring.threads thread <;> rw [point] at owns knows <;> cases owns
  · exact knows.1
  · exact knows.1

theorem Tickets.claimPush (tickets : ring.Tickets size) {data : Data}
    (point : ring.threads thread = .pushExchange data ring.rb.tail) (bound : ring.pushes.length + 1 < 2 ^ 63) :
    ((ring.claimPush ring.rb.tail data).setPoint thread (.pushData data ring.rb.tail)).Tickets size := by
  let next := (ring.claimPush ring.rb.tail data).setPoint thread (.pushData data ring.rb.tail)
  have here : next.threads thread = .pushData data ring.rb.tail := setPoint_same _
  have others : ∀ other, other ≠ thread → next.threads other = ring.threads other := fun other => setPoint_other _
  have grown : ring.pushes <+: next.pushes := List.prefix_append ..
  have length : next.pushes.length = ring.pushes.length + 1 := List.length_append ..
  have free : (ring.cell ring.rb.tail).seq = ring.rb.tail := by
    have knows := tickets.knows thread
    rw [point] at knows
    exact knows.resolve_left (by rw [tickets.tail]; exact lt_irrefl _)
  have fresh : ∀ other, other ≠ thread → (ring.threads other).pushes ≠ some ring.rb.tail := by
    intro other different owns
    have less := pushes_lt tickets owns
    rw [tickets.tail] at less
    exact lt_irrefl _ less
  have keeps := owned_step RingPoint.pops others (by rw [here]; rintro pos ⟨⟩)
  refine ⟨tickets.mask,?_,tickets.head,?_,tickets.popped,?_,tickets.bound,fun pos filled => ?_,fun other => ?_,?_,?_,?_,
    tickets.once,?_⟩
  · change word (ring.rb.tail+1) = next.pushes.length
    rw [word_of_lt (by rw [tickets.tail]; omega),tickets.tail,length]
  · rw [length,List.range_succ]
    change (ring.pushes ++ [(ring.rb.tail,data)]).map Prod.fst = _
    rw [List.map_append,tickets.pushed,tickets.tail]
    rfl
  · rw [length]
    exact le_trans tickets.behind (Nat.le_succ _)
  · obtain ⟨writer,pushed⟩ := tickets.full pos filled
    exact ⟨writer,getElem?_extended grown pushed⟩
  · by_cases same : other = thread
    · rw [same,here]
      refine ⟨?_,free⟩
      change (ring.pushes ++ [(ring.rb.tail,data)])[ring.rb.tail]? = _
      rw [tickets.tail,List.getElem?_append_right (le_refl _),Nat.sub_self]
      rfl
    · rw [others other same]
      exact (tickets.knows other).mono grown (le_refl _) fun _ _ => rfl
  · refine unshared_step (fun other different => congrArg RingPoint.pushes (others other different)) ?_ tickets.pushAlone
    rw [here]
    rintro pos ⟨⟩
    exact fresh
  · exact fun one two pos first second => tickets.popAlone one two pos (keeps one pos first) (keeps two pos second)
  · intro entry returned
    obtain ⟨pushed,claimed⟩ := tickets.results entry returned
    exact ⟨getElem?_extended grown pushed,claimed⟩
  · exact fun other pos owns => tickets.unreturned other pos (keeps other pos owns)

theorem Tickets.claimPop (tickets : ring.Tickets size)
    (point : ring.threads thread = .popExchange ring.rb.head) (bound : ring.pops.length + 1 < 2 ^ 63) :
    ((ring.claimPop ring.rb.head).setPoint thread (.popData ring.rb.head)).Tickets size := by
  let next := (ring.claimPop ring.rb.head).setPoint thread (.popData ring.rb.head)
  have here : next.threads thread = .popData ring.rb.head := setPoint_same _
  have others : ∀ other, other ≠ thread → next.threads other = ring.threads other := fun other => setPoint_other _
  have length : next.pops.length = ring.pops.length + 1 := List.length_append ..
  have filled : (ring.cell ring.rb.head).seq = ring.rb.head + 1 := by
    have knows := tickets.knows thread
    rw [point] at knows
    exact knows.resolve_left (by rw [tickets.head]; exact lt_irrefl _)
  have pushed : ring.rb.head < ring.pushes.length :=
    (List.getElem?_eq_some_iff.mp (tickets.full ring.rb.head filled).2).1
  have fresh : ∀ other, other ≠ thread → (ring.threads other).pops ≠ some ring.rb.head := by
    intro other different owns
    have less := pops_lt tickets owns
    rw [tickets.head] at less
    exact lt_irrefl _ less
  have keeps := owned_step RingPoint.pushes others (by rw [here]; rintro pos ⟨⟩)
  refine ⟨tickets.mask,tickets.tail,?_,tickets.pushed,?_,?_,tickets.bound,tickets.full,fun other => ?_,?_,?_,?_,
    tickets.once,?_⟩
  · change word (ring.rb.head+1) = next.pops.length
    rw [word_of_lt (by rw [tickets.head]; omega),tickets.head,length]
  · rw [length,List.range_succ,← tickets.popped,← tickets.head]
    rfl
  · rw [length,← tickets.head]
    exact pushed
  · by_cases same : other = thread
    · rw [same,here]
      refine ⟨?_,filled⟩
      rw [length,tickets.head]
      exact Nat.lt_succ_self _
    · rw [others other same]
      exact (tickets.knows other).mono List.prefix_rfl (show ring.pops.length ≤ next.pops.length by omega) fun _ _ => rfl
  · exact fun one two pos first second => tickets.pushAlone one two pos (keeps one pos first) (keeps two pos second)
  · refine unshared_step (fun other different => congrArg RingPoint.pops (others other different)) ?_ tickets.popAlone
    rw [here]
    rintro pos ⟨⟩
    exact fresh
  · intro entry returned
    obtain ⟨pushed,claimed⟩ := tickets.results entry returned
    exact ⟨pushed,show entry.1 < next.pops.length by omega⟩
  · intro other pos owns returned
    by_cases same : other = thread
    · rw [same,here] at owns
      cases owns
      obtain ⟨entry,inside,position⟩ := List.mem_map.mp returned
      have claimed := (tickets.results entry inside).2
      rw [position,tickets.head] at claimed
      exact lt_irrefl _ claimed
    · rw [others other same] at owns
      exact tickets.unreturned other pos owns returned

theorem Tickets.access (tickets : ring.Tickets size) {point : RingPoint Data}
    (others : ∀ other, other ≠ thread → next.threads other = ring.threads other) (here : next.threads thread = point)
    (mask : next.rb.bufmask = ring.rb.bufmask) (tail : next.rb.tail = ring.rb.tail) (head : next.rb.head = ring.rb.head)
    (pushes : next.pushes = ring.pushes) (pops : next.pops = ring.pops)
    (bound : ∀ pos, (next.cell pos).seq < 2 ^ 63 + size)
    (full : ∀ pos, (next.cell pos).seq = pos + 1 → (next.cell pos).writer = some pos ∧
      ring.pushes[pos]? = some (pos,(next.cell pos).data))
    (own : next.Knows point) (kept : ∀ other, other ≠ thread → next.Knows (ring.threads other))
    (ownsPush : ∀ pos, point.pushes = some pos → (ring.threads thread).pushes = some pos)
    (ownsPop : ∀ pos, point.pops = some pos → (ring.threads thread).pops = some pos)
    (results : ∀ entry ∈ next.returned, ring.pushes[entry.1]? = some entry ∧ entry.1 < ring.pops.length)
    (once : (next.returned.map Prod.fst).Nodup)
    (unreturned : ∀ other pos, (next.threads other).pops = some pos → pos ∉ next.returned.map Prod.fst) :
    next.Tickets size := by
  have owners := owned_step RingPoint.pushes others (by rwa [here])
  have owners' := owned_step RingPoint.pops others (by rwa [here])
  refine ⟨mask.trans tickets.mask,?_,?_,?_,?_,?_,bound,?_,fun other => ?_,?_,?_,?_,once,unreturned⟩
  · rw [tail,pushes,tickets.tail]
  · rw [head,pops,tickets.head]
  · rw [pushes,tickets.pushed]
  · rw [pops,← tickets.popped]
  · rw [pops,pushes]
    exact tickets.behind
  · rw [pushes]
    exact full
  · by_cases same : other = thread
    · rw [same,here]
      exact own
    · rw [others other same]
      exact kept other same
  · exact fun one two pos first second => tickets.pushAlone one two pos (owners one pos first) (owners two pos second)
  · exact fun one two pos first second => tickets.popAlone one two pos (owners' one pos first) (owners' two pos second)
  · rw [pushes,pops]
    exact results

theorem Tickets.write (tickets : ring.Tickets size) (power : RingSize size) {data : Data} {pos : Nat}
    (point : ring.threads thread = .pushData data pos) :
    ((ring.setCell pos { ring.cell pos with data := data, writer := some pos }).setPoint thread
      (.pushStore data pos)).Tickets size := by
  let next := (ring.setCell pos { ring.cell pos with data := data, writer := some pos }).setPoint thread
    (.pushStore data pos)
  have knows := tickets.knows thread
  rw [point] at knows
  obtain ⟨pushed,free⟩ := knows
  have others : ∀ other, other ≠ thread → next.threads other = ring.threads other := fun other => setPoint_other _
  have here : next.threads thread = .pushStore data pos := setPoint_same _
  have mate : ∀ other, other % size = pos % size →
      next.cell other = { ring.cell pos with data := data, writer := some pos } :=
    fun other same => setCell_mate tickets power same _
  have apart : ∀ other, other % size ≠ pos % size → next.cell other = ring.cell other :=
    fun other different => setCell_apart tickets power different _
  have seq : ∀ other, (next.cell other).seq = (ring.cell other).seq := by
    intro other
    by_cases same : other % size = pos % size
    · rw [mate other same,cell_mate tickets power same]
    · rw [apart other same]
  refine tickets.access others here rfl rfl rfl rfl rfl ?_ ?_ ?_ ?_ ?_ nofun tickets.results tickets.once ?_
  · intro other
    rw [seq]
    exact tickets.bound other
  · intro other filled
    rw [seq] at filled
    have different : other % size ≠ pos % size := by
      intro same
      rw [cell_mate tickets power same,free] at filled
      exact mod_ne_succ power.two_le 0 same filled.symm
    rw [apart other different]
    exact tickets.full other filled
  · rw [Knows,mate pos rfl]
    exact ⟨pushed,free,rfl,rfl⟩
  · intro other different
    change next.Knows (ring.threads other)
    have knows := tickets.knows other
    cases at_ : ring.threads other with
    | pushStore own place =>
      rw [at_] at knows
      refine Knows.mono knows List.prefix_rfl (le_refl _) fun place same => ?_
      cases same
      refine apart _ fun same => ?_
      rw [Knows,cell_mate tickets power same,free] at knows
      exact different (tickets.pushAlone other thread pos (by rw [at_,knows.2.1]; rfl) (by rw [point]; rfl))
    | pushSeq own place => rw [at_] at knows; exact knows
    | pushExchange own place => rw [at_] at knows; simp only [Knows,seq]; exact knows
    | pushData own place => rw [at_] at knows; simp only [Knows,seq]; exact knows
    | popSeq place => rw [at_] at knows; exact knows
    | popExchange place => rw [at_] at knows; simp only [Knows,seq]; exact knows
    | popData place => rw [at_] at knows; simp only [Knows,seq]; exact knows
    | popStore place own => rw [at_] at knows; simp only [Knows,seq]; exact knows
    | _ => trivial
  · rintro _ ⟨⟩
    rw [point]
    rfl
  · have keeps := owned_step RingPoint.pops others (by rw [here]; rintro pos ⟨⟩)
    exact fun other place owns => tickets.unreturned other place (keeps other place owns)

/-- A sequence number changes. Those at the same cell that rely on it own the cell, or are late. -/
theorem Knows.reseq {point : RingPoint Data} (knows : ring.Knows point) (pushes : next.pushes = ring.pushes)
    (pops : next.pops = ring.pops) {changed : Nat → Prop}
    (apart : ∀ other, ¬ changed other → next.cell other = ring.cell other)
    (free : ∀ place, changed place → (ring.cell place).seq = place → place < ring.pushes.length ∧
      RingPoint.pushes point ≠ some place)
    (filled : ∀ place, changed place → (ring.cell place).seq = place + 1 → place < ring.pops.length ∧
      RingPoint.pops point ≠ some place) : next.Knows point := by
  have elsewhere : (∀ place, RingPoint.pos point = some place → ¬ changed place) → next.Knows point :=
    fun unchanged => knows.mono (pushes ▸ List.prefix_rfl) (pops ▸ le_refl _)
      fun place same => apart place (unchanged place same)
  cases point with
  | pushSeq own place => simpa only [Knows,pushes] using knows
  | popSeq place => simpa only [Knows,pops] using knows
  | pushExchange own place =>
    by_cases here : changed place
    · simp only [Knows,pushes]
      exact .inl (knows.elim id fun seq => (free place here seq).1)
    · exact elsewhere fun other same => Option.some.inj same ▸ here
  | popExchange place =>
    by_cases here : changed place
    · simp only [Knows,pops]
      exact .inl (knows.elim id fun seq => (filled place here seq).1)
    · exact elsewhere fun other same => Option.some.inj same ▸ here
  | pushData own place =>
    exact elsewhere fun other same here => (free place (Option.some.inj same ▸ here) knows.2).2 rfl
  | pushStore own place =>
    exact elsewhere fun other same here => (free place (Option.some.inj same ▸ here) knows.2.1).2 rfl
  | popData place =>
    exact elsewhere fun other same here => (filled place (Option.some.inj same ▸ here) knows.2).2 rfl
  | popStore place own =>
    exact elsewhere fun other same here => (filled place (Option.some.inj same ▸ here) knows.2.1).2 rfl
  | _ => trivial

theorem Tickets.publish (tickets : ring.Tickets size) (power : RingSize size) (limit : ring.pushes.length < 2 ^ 63)
    {data : Data} {pos : Nat} (point : ring.threads thread = .pushStore data pos) :
    ((ring.setCell pos { ring.cell pos with seq := word (pos+1) }).setPoint thread (.pushed 0)).Tickets size := by
  let next := (ring.setCell pos { ring.cell pos with seq := word (pos+1) }).setPoint thread (.pushed 0)
  have knows := tickets.knows thread
  rw [point] at knows
  obtain ⟨pushed,free,writer,datum⟩ := knows
  have less := (List.getElem?_eq_some_iff.mp pushed).1
  have succ : word (pos+1) = pos + 1 := word_of_lt (by omega)
  have others : ∀ other, other ≠ thread → next.threads other = ring.threads other := fun other => setPoint_other _
  have here : next.threads thread = .pushed 0 := setPoint_same _
  have mate : ∀ other, other % size = pos % size → next.cell other = { ring.cell pos with seq := pos + 1 } :=
    fun other same => (setCell_mate tickets power same _).trans (by rw [succ])
  have apart : ∀ other, other % size ≠ pos % size → next.cell other = ring.cell other :=
    fun other different => setCell_apart tickets power different _
  have two := power.two_le
  refine tickets.access others here rfl rfl rfl rfl rfl ?_ ?_ trivial ?_ nofun nofun tickets.results tickets.once ?_
  · intro other
    by_cases same : other % size = pos % size
    · rw [mate other same]
      change pos + 1 < _
      omega
    · rw [apart other same]
      exact tickets.bound other
  · intro other filled
    by_cases same : other % size = pos % size
    · rw [mate other same] at filled ⊢
      have equal : pos = other := Nat.succ.inj filled
      subst equal
      exact ⟨writer,by rw [datum]; exact pushed⟩
    · rw [apart other same] at filled ⊢
      exact tickets.full other filled
  · intro other different
    refine Knows.reseq (tickets.knows other) rfl rfl (fun place => apart place) ?_ ?_
    · intro place same seq
      rw [cell_mate tickets power same,free] at seq
      subst seq
      exact ⟨less,fun owns => different (tickets.pushAlone other thread pos owns (by rw [point]; rfl))⟩
    · intro place same seq
      rw [cell_mate tickets power same,free] at seq
      exact absurd seq.symm (mod_ne_succ two 0 same)
  · have keeps := owned_step RingPoint.pops others (by rw [here]; rintro pos ⟨⟩)
    exact fun other place owns => tickets.unreturned other place (keeps other place owns)

theorem Tickets.release (tickets : ring.Tickets size) (power : RingSize size) (limit : ring.pops.length < 2 ^ 63)
    {data : Data} {pos : Nat} (point : ring.threads thread = .popStore pos data) :
    ({ ring.setCell pos { ring.cell pos with seq := word (pos+ring.rb.bufmask+1) } with
      returned := ring.returned ++ [(pos,data)] }.setPoint thread (.popped (some data))).Tickets size := by
  let next := { ring.setCell pos { ring.cell pos with seq := word (pos+ring.rb.bufmask+1) } with
    returned := ring.returned ++ [(pos,data)] }.setPoint thread (.popped (some data))
  have knows := tickets.knows thread
  rw [point] at knows
  obtain ⟨less,filled,pushed⟩ := knows
  have two := power.two_le
  have most := power.le
  have round : word (pos+ring.rb.bufmask+1) = pos + size := by
    rw [tickets.mask,word_of_lt (by omega)]
    omega
  have others : ∀ other, other ≠ thread → next.threads other = ring.threads other := fun other => setPoint_other _
  have here : next.threads thread = .popped (some data) := setPoint_same _
  have mate : ∀ other, other % size = pos % size → next.cell other = { ring.cell pos with seq := pos + size } :=
    fun other same => (setCell_mate tickets power same _).trans (by rw [round])
  have apart : ∀ other, other % size ≠ pos % size → next.cell other = ring.cell other :=
    fun other different => setCell_apart tickets power different _
  have owned : (ring.threads thread).pops = some pos := by rw [point]; rfl
  refine tickets.access others here rfl rfl rfl rfl rfl ?_ ?_ trivial ?_ nofun nofun ?_ ?_ ?_
  · intro other
    by_cases same : other % size = pos % size
    · rw [mate other same]
      change pos + size < _
      omega
    · rw [apart other same]
      exact tickets.bound other
  · intro other now
    by_cases same : other % size = pos % size
    · rw [mate other same] at now
      change pos + size = other + 1 at now
      exact absurd (by omega) (mod_ne_succ two 1 same)
    · rw [apart other same] at now ⊢
      exact tickets.full other now
  · intro other different
    refine Knows.reseq (tickets.knows other) rfl rfl (fun place => apart place) ?_ ?_
    · intro place same seq
      rw [cell_mate tickets power same,filled] at seq
      exact absurd seq (mod_ne_succ two 0 same.symm)
    · intro place same seq
      rw [cell_mate tickets power same,filled] at seq
      have equal : pos = place := Nat.succ.inj seq
      subst equal
      exact ⟨less,fun owns => different (tickets.popAlone other thread pos owns owned)⟩
  · intro entry returned
    rcases List.mem_append.mp returned with before | now
    · exact tickets.results entry before
    · cases List.mem_singleton.mp now
      exact ⟨pushed,less⟩
  · change ((ring.returned ++ [(pos,data)]).map Prod.fst).Nodup
    rw [List.map_append]
    refine List.nodup_append.mpr ⟨tickets.once,List.nodup_cons.mpr ⟨List.not_mem_nil,List.nodup_nil⟩,?_⟩
    rintro place before other now rfl
    cases List.mem_singleton.mp now
    exact tickets.unreturned thread pos owned before
  · intro other place owns returned
    by_cases same : other = thread
    · rw [same,here] at owns
      cases owns
    · rw [others other same] at owns
      change place ∈ (ring.returned ++ [(pos,data)]).map Prod.fst at returned
      rw [List.map_append] at returned
      rcases List.mem_append.mp returned with before | now
      · exact tickets.unreturned other place owns before
      · cases List.mem_singleton.mp now
        exact same (tickets.popAlone other thread pos owns owned)

theorem Tickets.step (tickets : ring.Tickets size) (power : RingSize size) {act : RingAct Data}
    (step : RingStep ring thread act next) (pushes : next.pushes.length < 2 ^ 63) (pops : next.pops.length < 2 ^ 63) :
    next.Tickets size := by
  have knows := tickets.knows thread
  cases step with
  | push point => exact tickets.point trivial nofun nofun
  | pop point => exact tickets.point trivial nofun nofun
  | loadTail point => exact tickets.point (le_of_eq tickets.tail) nofun nofun
  | @free data pos fails point zero =>
    rw [point] at knows
    have seq := tickets.bound pos
    have most := power.le
    refine tickets.point (.inr ?_) nofun nofun
    exact (difference_eq_zero (by omega) (lt_of_le_of_lt knows (lt_trans pushes (by omega)))).mp zero
  | full point behind => exact tickets.point trivial nofun nofun
  | lateTail point ahead => exact tickets.point trivial nofun nofun
  | missTail point => exact tickets.point (le_of_eq tickets.tail) nofun nofun
  | @claimPush data fails point =>
    change (ring.pushes ++ [(ring.rb.tail,data)]).length < 2 ^ 63 at pushes
    rw [List.length_append] at pushes
    exact tickets.claimPush point pushes
  | write point => exact tickets.write power point
  | publish point => exact tickets.publish power pushes point
  | loadHead point => exact tickets.point (le_of_eq tickets.head) nofun nofun
  | @filled pos fails point zero =>
    rw [point] at knows
    have less : pos < 2 ^ 63 := lt_of_le_of_lt knows pops
    have seq := tickets.bound pos
    have most := power.le
    rw [word_of_lt (by omega)] at zero
    exact tickets.point (.inr ((difference_eq_zero (by omega) (by omega)).mp zero)) nofun nofun
  | empty point => exact tickets.point trivial nofun nofun
  | lateHead point => exact tickets.point trivial nofun nofun
  | missHead point => exact tickets.point (le_of_eq tickets.head) nofun nofun
  | claimPop point =>
    change (ring.pops ++ [ring.rb.head]).length < 2 ^ 63 at pops
    rw [List.length_append] at pops
    exact tickets.claimPop point pops
  | @read pos fails point =>
    rw [point] at knows
    refine tickets.point ⟨knows.1,knows.2,(tickets.full pos knows.2).2⟩ nofun ?_
    rw [point]
    exact fun place => id
  | release point => exact tickets.release power pops point

theorem Tickets.gains_push (tickets : ring.Tickets size) {act : RingAct Data} (step : RingStep ring thread act next)
    {pos : Nat} (new : ring.pushes.length ≤ pos) (less : pos < next.pushes.length) :
    (next.threads thread).pushes = some pos := by
  cases step with
  | @claimPush data fails point =>
    change pos < (ring.pushes ++ [(ring.rb.tail,data)]).length at less
    rw [List.length_append,List.length_singleton] at less
    have here : pos = ring.rb.tail := by
      have tail := tickets.tail
      omega
    rw [setPoint_same,here]
    rfl
  | claimPop point => exact absurd less (not_lt.mpr new)
  | _ => exact absurd less (not_lt.mpr new)

theorem Tickets.gains_pop (tickets : ring.Tickets size) {act : RingAct Data} (step : RingStep ring thread act next)
    {pos : Nat} (new : ring.pops.length ≤ pos) (less : pos < next.pops.length) : (next.threads thread).pops = some pos := by
  cases step with
  | claimPop point =>
    change pos < (ring.pops ++ [ring.rb.head]).length at less
    rw [List.length_append,List.length_singleton] at less
    have here : pos = ring.rb.head := by
      have head := tickets.head
      omega
    rw [setPoint_same,here]
    rfl
  | claimPush point => exact absurd less (not_lt.mpr new)
  | _ => exact absurd less (not_lt.mpr new)

theorem init_cell (power : RingSize size) (buf : Nat → Data) (pos : Nat) :
    (init buf size : RingSys Thread Data).cell pos = ⟨pos % size,buf (pos % size),none⟩ := by
  rw [← power.and_mask]
  rfl

theorem init_tickets (power : RingSize size) (buf : Nat → Data) : (init buf size : RingSys Thread Data).Tickets size := by
  have two := power.two_le
  refine ⟨rfl,rfl,rfl,rfl,rfl,le_refl _,fun pos => ?_,fun pos filled => ?_,fun _ => trivial,nofun,nofun,nofun,
    List.nodup_nil,nofun⟩
  · rw [init_cell power]
    have less := Nat.mod_lt pos (show 0 < size by omega)
    change pos % size < _
    omega
  · rw [init_cell power] at filled
    have small := Nat.mod_le pos size
    change pos % size = pos + 1 at filled
    omega

end RingSys

end CSpock.Fibers
