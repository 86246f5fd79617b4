import CSpock.Fibers.Tickets
import CSpock.Library.Fifo

/-! Calls of the ring that do not overlap. Positions and sequence numbers wrap around as words do. -/
namespace CSpock.Fibers
open CSpock.Library.Transition CSpock.Library.Fifo

variable {Data : Type}

/-- The claimed place with its datum, and the place behind it to be claimed next. -/
def VgcRingbuf.put (rb : VgcRingbuf Data) (pos : Nat) (data : Data) : VgcRingbuf Data :=
  { rb with
    tail := word (pos+1)
    buf := Function.update rb.buf (pos &&& rb.bufmask) ⟨word (pos+1),data,some pos⟩ }

/-- The claimed place let go for the round to come. -/
def VgcRingbuf.release (rb : VgcRingbuf Data) (pos : Nat) : VgcRingbuf Data :=
  { rb with
    head := word (pos+1)
    buf := Function.update rb.buf (pos &&& rb.bufmask)
      { rb.buf (pos &&& rb.bufmask) with seq := word (pos+rb.bufmask+1) } }

/-- The loop of `vgc_push`, with what the exchange of each round does for no reason. -/
def vgcPushLoop (rb : VgcRingbuf Data) (data : Data) : List Bool → Nat → Option (Int × VgcRingbuf Data)
  | [],_ => none
  | fails::rounds,pos =>
    let dif := difference (rb.buf (pos &&& rb.bufmask)).seq pos
    if dif = 0 then
      if fails = true ∨ rb.tail ≠ pos then vgcPushLoop rb data rounds rb.tail else some (0,rb.put pos data)
    else if dif < 0 then some (-1,rb)
    else vgcPushLoop rb data rounds rb.tail

def vgcPush (rb : VgcRingbuf Data) (data : Data) (rounds : List Bool) : Option (Int × VgcRingbuf Data) :=
  vgcPushLoop rb data rounds rb.tail

/-- The loop of `vgc_pop`. A datum of `none` is the result -1, with which nothing is written. -/
def vgcPopLoop (rb : VgcRingbuf Data) : List Bool → Nat → Option (Option Data × VgcRingbuf Data)
  | [],_ => none
  | fails::rounds,pos =>
    let cell := rb.buf (pos &&& rb.bufmask)
    let dif := difference cell.seq (word (pos+1))
    if dif = 0 then
      if fails = true ∨ rb.head ≠ pos then vgcPopLoop rb rounds rb.head else some (some cell.data,rb.release pos)
    else if dif < 0 then some (none,rb)
    else vgcPopLoop rb rounds rb.head

def vgcPop (rb : VgcRingbuf Data) (rounds : List Bool) : Option (Option Data × VgcRingbuf Data) :=
  vgcPopLoop rb rounds rb.head

section Alone
variable {rb : VgcRingbuf Data} {data : Data} {rounds : List Bool}

/-- With nobody else there an exchange fails only for no reason, and no position is late. -/
theorem vgcPush_succeeds (zero : difference (rb.buf (rb.tail &&& rb.bufmask)).seq rb.tail = 0)
    (succeeds : false ∈ rounds) : vgcPush rb data rounds = some (0,rb.put rb.tail data) := by
  induction rounds with
  | nil => cases succeeds
  | cons fails rounds ih =>
    simp only [vgcPush,vgcPushLoop,zero,if_true]
    cases fails with
    | false => simp
    | true =>
      rw [if_pos (.inl rfl)]
      exact ih (List.mem_of_ne_of_mem Bool.false_ne_true succeeds)

theorem vgcPush_refused (behind : difference (rb.buf (rb.tail &&& rb.bufmask)).seq rb.tail < 0)
    (goes : rounds ≠ []) : vgcPush rb data rounds = .some (-1,rb) := by
  obtain ⟨fails,rest,rfl⟩ := List.exists_cons_of_ne_nil goes
  rw [vgcPush,vgcPushLoop,if_neg (Int.ne_of_lt behind),if_pos behind]

theorem vgcPop_succeeds (zero : difference (rb.buf (rb.head &&& rb.bufmask)).seq (word (rb.head+1)) = 0)
    (succeeds : false ∈ rounds) :
    vgcPop rb rounds = some (some (rb.buf (rb.head &&& rb.bufmask)).data,rb.release rb.head) := by
  induction rounds with
  | nil => cases succeeds
  | cons fails rounds ih =>
    simp only [vgcPop,vgcPopLoop,zero,if_true]
    cases fails with
    | false => simp
    | true =>
      rw [if_pos (.inl rfl)]
      exact ih (List.mem_of_ne_of_mem Bool.false_ne_true succeeds)

theorem vgcPop_refused (behind : difference (rb.buf (rb.head &&& rb.bufmask)).seq (word (rb.head+1)) < 0)
    (goes : rounds ≠ []) : vgcPop rb rounds = .some (none,rb) := by
  obtain ⟨fails,rest,rfl⟩ := List.exists_cons_of_ne_nil goes
  rw [vgcPop,vgcPopLoop]
  simp only [if_neg (Int.ne_of_lt behind),if_pos behind]

end Alone

section Words
variable {size : Nat}

theorem word_add (pos steps : Nat) : word (word pos + steps) = word (pos + steps) := Nat.mod_add_mod ..

theorem difference_word (seq pos : Nat) : difference (word seq) (word pos) = Int.bmod (seq - pos) (2 ^ 64) := by
  rw [difference,word,word,Int.natCast_mod,Int.natCast_mod,Int.emod_sub_bmod,Int.sub_emod_bmod]

/-- A sequence number behind a position by half of the words at most is told as such, however often both went round. -/
theorem difference_behind {seq behind : Nat} (late : 0 < behind) (half : behind ≤ 2 ^ 63) :
    difference (word seq) (word (seq + behind)) < 0 := by
  rw [difference_word,show (seq : Int) - (seq + behind : Nat) = -behind by omega,
    Int.bmod_eq_of_le (by omega) (by omega)]
  omega

theorem difference_self (pos : Nat) : difference (word pos) (word pos) = 0 := by
  rw [difference_word,Int.sub_self]
  rfl

theorem RingSize.word_mask (power : RingSize size) (pos : Nat) : word pos &&& (size-1) = pos % size := by
  rw [power.and_mask,word]
  obtain ⟨bits,_,most,rfl⟩ := power
  exact Nat.mod_mod_of_dvd pos (Nat.pow_dvd_pow 2 (by omega))

theorem place_inj {first one two : Nat} (oneLess : one < size) (twoLess : two < size)
    (same : (first + one) % size = (first + two) % size) : one = two := by
  have cancelled : one % size = two % size := Nat.ModEq.add_left_cancel' first same
  rwa [Nat.mod_eq_of_lt oneLess,Nat.mod_eq_of_lt twoLess] at cancelled

end Words

/-- The ring holds the items. `first` counts all the pops that there were. -/
structure Queued (size : Nat) (rb : VgcRingbuf Data) (first : Nat) (items : List Data) : Prop where
  mask : rb.bufmask = size - 1
  head : rb.head = word first
  tail : rb.tail = word (first + items.length)
  room : items.length ≤ size
  full : ∀ index, index < items.length → (rb.buf ((first + index) % size)).seq = word (first + index + 1)
  free : ∀ index, items.length ≤ index → index < size → (rb.buf ((first + index) % size)).seq = word (first + index)
  held : ∀ index, index < items.length → items[index]? = some (rb.buf ((first + index) % size)).data

variable {size first : Nat} {rb : VgcRingbuf Data} {items : List Data}

theorem Queued.init (power : RingSize size) (buf : Nat → Data) : Queued size (vgcRingbufInit buf size) 0 [] where
  mask := rfl
  head := rfl
  tail := rfl
  room := Nat.zero_le size
  full _ less := absurd less (Nat.not_lt_zero _)
  free index _ less := by
    have small := power.le
    rw [Nat.zero_add,Nat.mod_eq_of_lt less]
    exact (word_of_lt (show index < 2 ^ 64 by omega)).symm
  held _ less := absurd less (Nat.not_lt_zero _)

def VgcRingbuf.held (rb : VgcRingbuf Data) : List Data :=
  (List.range (word (rb.tail + (2 ^ 64 - rb.head)))).map fun index => (rb.buf ((rb.head + index) &&& rb.bufmask)).data

theorem Queued.held_eq (queued : Queued size rb first items) (power : RingSize size) : rb.held = items := by
  have small := power.le
  have room := queued.room
  have length : word (rb.tail + (2 ^ 64 - rb.head)) = items.length := by
    rw [queued.tail,queued.head]
    unfold word
    omega
  rw [VgcRingbuf.held,length]
  refine List.ext_getElem (by simp) fun index left right => ?_
  have place : (rb.head + index) &&& rb.bufmask = (first + index) % size := by
    rw [queued.head,queued.mask,← power.word_mask,← word_add,power.and_mask,power.word_mask]
  have here := queued.held index right
  rw [List.getElem?_eq_getElem right] at here
  rw [List.getElem_map,List.getElem_range,place,Option.some.inj here]

theorem Queued.tail_place (queued : Queued size rb first items) (power : RingSize size) :
    rb.tail &&& rb.bufmask = (first + items.length) % size := by
  rw [queued.tail,queued.mask,power.word_mask]

theorem Queued.head_place (queued : Queued size rb first items) (power : RingSize size) :
    rb.head &&& rb.bufmask = first % size := by
  rw [queued.head,queued.mask,power.word_mask]

theorem Queued.put (queued : Queued size rb first items) (power : RingSize size) (more : items.length < size)
    (data : Data) : Queued size (rb.put rb.tail data) first (items ++ [data]) := by
  have longer : (items ++ [data]).length = items.length + 1 := List.length_append
  have tail : word (rb.tail + 1) = word (first + items.length + 1) := by rw [queued.tail,word_add]
  have here : (rb.put rb.tail data).buf ((first + items.length) % size) = ⟨word (rb.tail+1),data,some rb.tail⟩ := by
    rw [← queued.tail_place power]
    exact Function.update_self ..
  have others : ∀ index, index < size → index ≠ items.length →
      (rb.put rb.tail data).buf ((first + index) % size) = rb.buf ((first + index) % size) := by
    intro index less different
    refine Function.update_of_ne ?_ ..
    rw [queued.tail_place power]
    exact fun same => different (place_inj less more same)
  refine ⟨queued.mask,queued.head,?_,?_,fun index less => ?_,fun index behind less => ?_,fun index less => ?_⟩
  · rw [longer]
    exact tail
  · rwa [longer]
  · rw [longer] at less
    rcases Nat.lt_succ_iff_lt_or_eq.mp less with old | rfl
    · rw [others index (by omega) (by omega)]
      exact queued.full index old
    · rw [here]
      exact tail
  · rw [longer] at behind
    rw [others index less (Nat.ne_of_gt behind)]
    exact queued.free index (Nat.le_of_succ_le behind) less
  · rw [longer] at less
    rcases Nat.lt_succ_iff_lt_or_eq.mp less with old | rfl
    · rw [others index (by omega) (by omega),List.getElem?_append_left old]
      exact queued.held index old
    · rw [here,List.getElem?_concat_length]

theorem Queued.release {data : Data} (queued : Queued size rb first (data::items)) (power : RingSize size) :
    Queued size (rb.release rb.head) (first+1) items := by
  have room : items.length < size := queued.room
  have shifted : ∀ index, first + 1 + index = first + (index + 1) := fun index => by omega
  have others : ∀ index, index + 1 < size →
      (rb.release rb.head).buf ((first + 1 + index) % size) = rb.buf ((first + (index + 1)) % size) := by
    intro index less
    rw [shifted]
    refine Function.update_of_ne ?_ ..
    rw [queued.head_place power]
    exact fun same => Nat.succ_ne_zero index (place_inj less (by omega) same)
  refine ⟨queued.mask,?_,?_,Nat.le_of_lt room,fun index less => ?_,fun index behind less => ?_,fun index less => ?_⟩
  · exact (congrArg (fun head => word (head + 1)) queued.head).trans (word_add first 1)
  · rw [shifted]
    exact queued.tail
  · rw [others index (by omega),shifted]
    exact queued.full (index+1) (Nat.succ_lt_succ less)
  · by_cases last : index + 1 = size
    · -- the cell that was let go is the last one of the round to come
      have place : (first + 1 + index) % size = rb.head &&& rb.bufmask := by
        rw [queued.head_place power,shifted,last,Nat.add_mod_right]
      have seq : ((rb.release rb.head).buf ((first + 1 + index) % size)).seq = word (rb.head + rb.bufmask + 1) := by
        rw [place]
        simp only [VgcRingbuf.release,Function.update_self]
      rw [seq,queued.head,queued.mask,shifted,last,← word_add first]
      congr 1
      omega
    · rw [others index (by omega),shifted]
      exact queued.free (index+1) (Nat.succ_le_succ behind) (by omega)
  · rw [others index (by omega)]
    exact queued.held (index+1) (Nat.succ_lt_succ less)

theorem Queued.vgcPush (queued : Queued size rb first items) (power : RingSize size) (data : Data)
    {rounds : List Bool} (succeeds : false ∈ rounds) :
    (items.length < size ∧ vgcPush rb data rounds = some (0,rb.put rb.tail data)) ∨
    (items.length = size ∧ vgcPush rb data rounds = some (-1,rb)) := by
  rcases Nat.lt_or_eq_of_le queued.room with more | full
  · refine .inl ⟨more,vgcPush_succeeds ?_ succeeds⟩
    rw [queued.tail_place power,queued.free _ (Nat.le_refl _) more,queued.tail,difference_self]
  · refine .inr ⟨full,vgcPush_refused ?_ (List.ne_nil_of_mem succeeds)⟩
    -- a round behind, in the cell of the first item
    have two := power.two_le
    have small := power.le
    have here := queued.full 0 (by omega)
    rw [Nat.add_zero] at here
    rw [queued.tail_place power,queued.tail,full,Nat.add_mod_right,here,
      show first + size = first + 1 + (size - 1) by omega]
    exact difference_behind (by omega) (by omega)

theorem Queued.vgcPop (queued : Queued size rb first items) (power : RingSize size)
    {rounds : List Bool} (succeeds : false ∈ rounds) :
    (∃ data rest, items = data::rest ∧ vgcPop rb rounds = some (some data,rb.release rb.head)) ∨
    (items = [] ∧ vgcPop rb rounds = some (none,rb)) := by
  cases items with
  | cons data rest =>
    refine .inl ⟨data,rest,rfl,?_⟩
    have here := queued.full 0 (Nat.succ_pos _)
    have held := queued.held 0 (Nat.succ_pos _)
    rw [Nat.add_zero] at here held
    have same : data = (rb.buf (first % size)).data := Option.some.inj held
    have zero : difference (rb.buf (rb.head &&& rb.bufmask)).seq (word (rb.head+1)) = 0 := by
      rw [queued.head_place power,here,queued.head,word_add,difference_self]
    have done := vgcPop_succeeds zero succeeds
    rwa [queued.head_place power,← same] at done
  | nil =>
    refine .inr ⟨rfl,vgcPop_refused ?_ (List.ne_nil_of_mem succeeds)⟩
    have two := power.two_le
    have here := queued.free 0 (Nat.le_refl 0) (by omega)
    rw [Nat.add_zero] at here
    rw [queued.head_place power,here,queued.head,word_add]
    exact difference_behind (by decide) (by decide)

inductive RingCall (Data : Type) where
  | push (data : Data) (rounds : List Bool)
  | pop (rounds : List Bool)

inductive RingAnswer (Data : Type) where
  | pushed (result : Int)
  | popped (data : Option Data)

namespace RingCall

def run (rb : VgcRingbuf Data) : RingCall Data → Option (RingAnswer Data × VgcRingbuf Data)
  | .push data rounds => (vgcPush rb data rounds).map fun result => (.pushed result.1,result.2)
  | .pop rounds => (vgcPop rb rounds).map fun result => (.popped result.1,result.2)

def Returns : RingCall Data → Prop
  | .push _ rounds => false ∈ rounds
  | .pop rounds => false ∈ rounds

def ask : RingCall Data → Call Data
  | .push data _ => .push data
  | .pop _ => .pop

end RingCall

/-- The answer of the queue as the calls give it. -/
def RingAnswer.given : Answer Data → RingAnswer Data
  | .pushed true => .pushed 0
  | .pushed false => .pushed (-1)
  | .popped item => .popped item

instance : ∀ call : RingCall Data, Decidable call.Returns
  | .push _ rounds => inferInstanceAs (Decidable (false ∈ rounds))
  | .pop rounds => inferInstanceAs (Decidable (false ∈ rounds))

theorem Queued.call (queued : Queued size rb first items) (power : RingSize size) {call : RingCall Data}
    (returns : call.Returns) : ∃ after, call.run rb = some (.given (bounded size items call.ask).1,after) ∧
      ∃ first, Queued size after first (bounded size items call.ask).2 := by
  cases call with
  | push data rounds =>
    rcases queued.vgcPush power data returns with ⟨more,done⟩ | ⟨full,done⟩
    · refine ⟨rb.put rb.tail data,?_,first,?_⟩
      · simp [RingCall.run,done,RingCall.ask,bounded,more,RingAnswer.given]
      · simpa only [RingCall.ask,bounded,if_pos more] using queued.put power more data
    · have none_left : ¬items.length < size := by omega
      refine ⟨rb,?_,first,?_⟩
      · simp [RingCall.run,done,RingCall.ask,bounded,none_left,RingAnswer.given]
      · simpa only [RingCall.ask,bounded,if_neg none_left] using queued
  | pop rounds =>
    rcases queued.vgcPop power returns with ⟨data,rest,rfl,done⟩ | ⟨rfl,done⟩
    · exact ⟨rb.release rb.head,by simp [RingCall.run,done,RingCall.ask,bounded,RingAnswer.given],
        first+1,queued.release power⟩
    · exact ⟨rb,by simp [RingCall.run,done,RingCall.ask,bounded,RingAnswer.given],first,queued⟩

/-- Calls that do not overlap have the answers of a queue for `size` items, round the words and on. -/
theorem serveAll_ring (power : RingSize size) (buf : Nat → Data) {calls : List (RingCall Data)}
    (returns : ∀ call ∈ calls, call.Returns) :
    ∃ answers items rb, serve (bounded size) [] (calls.map RingCall.ask) = (answers,items) ∧
      serveAll RingCall.run (vgcRingbufInit buf size) calls = some (answers.map .given,rb) ∧
      (∀ data rounds, false ∈ rounds → ∃ result after, vgcPush rb data rounds = some (result,after) ∧
        (result = 0 ∨ result = -1) ∧ (result = -1 ↔ items.length = size) ∧ (result = -1 → after = rb)) ∧
      ∀ rounds, false ∈ rounds → ∃ item after, vgcPop rb rounds = some (item,after) ∧ item = items.head? ∧
        (item = none ↔ items = []) ∧ (item = none → after = rb) := by
  obtain ⟨rb,served,first,queued⟩ := serveAll_serve (R := fun rb items => ∃ first, Queued size rb first items)
    RingCall.ask RingAnswer.given (fun call member rb items ⟨first,queued⟩ => queued.call power (returns call member))
    ⟨0,Queued.init power buf⟩
  refine ⟨_,_,rb,rfl,served,fun data rounds succeeds => ?_,fun rounds succeeds => ?_⟩
  · rcases queued.vgcPush power data succeeds with ⟨more,done⟩ | ⟨full,done⟩
    · exact ⟨0,_,done,.inl rfl,⟨fun refused => absurd refused (by decide),fun full => absurd full (Nat.ne_of_lt more)⟩,
        fun refused => absurd refused (by decide)⟩
    · exact ⟨-1,rb,done,.inr rfl,⟨fun _ => full,fun _ => rfl⟩,fun _ => rfl⟩
  · rcases queued.vgcPop power succeeds with ⟨data,rest,same,done⟩ | ⟨empty,done⟩
    · rw [same]
      exact ⟨some data,_,done,rfl,⟨nofun,nofun⟩,nofun⟩
    · rw [empty]
      exact ⟨none,rb,done,rfl,⟨fun _ => rfl,fun _ => rfl⟩,fun _ => rfl⟩

def ringRound : List (RingCall Nat) :=
  [.pop [false],.push 5 [true,false],.push 6 [false],.push 7 [false],.pop [false],.push 8 [false],.pop [true,true,false],
    .pop [false],.pop [false]]

theorem serveAll_ring_round : ∃ rb, serveAll RingCall.run (vgcRingbufInit (fun _ => 0) 2) ringRound =
    some ([.popped none,.pushed 0,.pushed 0,.pushed (-1),.popped (some 5),.pushed 0,.popped (some 6),.popped (some 8),
      .popped none],rb) := by
  obtain ⟨answers,items,rb,asked,served,_⟩ := serveAll_ring ⟨1,le_refl 1,by decide,rfl⟩ (fun _ => 0)
    (by decide : ∀ call ∈ ringRound, call.Returns)
  cases asked
  exact ⟨rb,served⟩

/-! The calls are those that one thread makes of the accesses while no other thread makes any. -/

section Accesses
variable {Thread : Type} [DecidableEq Thread] {start ring next : RingSys Thread Data} {thread : Thread}

theorem RingSys.others (run : Alone RingSys.step thread start ring) {other : Thread} (different : other ≠ thread) :
    ring.threads other = start.threads other :=
  Alone.others (fun _ _ _ _ _ stepped => (ring_cases stepped).others) run different

theorem RingSys.put_alone (run : Alone RingSys.step thread start ring) {data : Data}
    (point : ring.threads thread = .pushExchange data ring.rb.tail) :
    ∃ next, Alone RingSys.step thread start next ∧ next.rb = ring.rb.put ring.rb.tail data ∧
      next.threads thread = .pushed 0 := by
  have claim : ring.step (thread,.go false) = some ((ring.claimPush ring.rb.tail data).setPoint thread
      (.pushData data ring.rb.tail)) := by simp [RingSys.step,RingSys.go,point]
  have write {ring : RingSys Thread Data} {pos : Nat} (point : ring.threads thread = .pushData data pos) :
      ring.step (thread,.go false) =
        some ((ring.setCell pos { ring.cell pos with data := data, writer := some pos }).setPoint thread
          (.pushStore data pos)) := by simp only [RingSys.step,RingSys.go,point]
  have publish {ring : RingSys Thread Data} {pos : Nat} (point : ring.threads thread = .pushStore data pos) :
      ring.step (thread,.go false) = some ((ring.setCell pos { ring.cell pos with seq := word (pos+1) }).setPoint thread
        (.pushed 0)) := by simp only [RingSys.step,RingSys.go,point]
  refine ⟨_,((run.extend claim).extend (write (RingSys.setPoint_same _))).extend (publish (RingSys.setPoint_same _)),?_,
    RingSys.setPoint_same _⟩
  simp only [RingSys.setPoint,RingSys.setCell,RingSys.cell,RingSys.claimPush,VgcRingbuf.put,Function.update_self,
    Function.update_idem]

theorem RingSys.release_alone (run : Alone RingSys.step thread start ring)
    (point : ring.threads thread = .popExchange ring.rb.head) :
    ∃ next, Alone RingSys.step thread start next ∧ next.rb = ring.rb.release ring.rb.head ∧
      next.threads thread = .popped (some (ring.cell ring.rb.head).data) := by
  have claim : ring.step (thread,.go false) =
      some ((ring.claimPop ring.rb.head).setPoint thread (.popData ring.rb.head)) := by
    simp [RingSys.step,RingSys.go,point]
  have read {ring : RingSys Thread Data} {pos : Nat} (point : ring.threads thread = .popData pos) :
      ring.step (thread,.go false) = some (ring.setPoint thread (.popStore pos (ring.cell pos).data)) := by
    simp only [RingSys.step,RingSys.go,point]
  have release {ring : RingSys Thread Data} {pos : Nat} {data : Data}
      (point : ring.threads thread = .popStore pos data) : ring.step (thread,.go false) =
        some ({ ring.setCell pos { ring.cell pos with seq := word (pos+ring.rb.bufmask+1) } with
          returned := ring.returned ++ [(pos,data)] }.setPoint thread (.popped (some data))) := by
    simp only [RingSys.step,RingSys.go,point]
  exact ⟨_,((run.extend claim).extend (read (RingSys.setPoint_same _))).extend (release (RingSys.setPoint_same _)),rfl,
    RingSys.setPoint_same _⟩

theorem vgcPushLoop_alone {rounds : List Bool} {data : Data} {pos : Nat} {result : Int} {rb : VgcRingbuf Data}
    (run : Alone RingSys.step thread start ring) (point : ring.threads thread = .pushSeq data pos)
    (ran : vgcPushLoop ring.rb data rounds pos = some (result,rb)) :
    ∃ next, Alone RingSys.step thread start next ∧ next.rb = rb ∧ next.threads thread = .pushed result := by
  induction rounds generalizing ring pos with
  | nil => cases ran
  | cons fails rounds ih =>
    rw [vgcPushLoop] at ran
    have looked : ring.step (thread,.go fails) = some (ring.setPoint thread
        (if difference (ring.cell pos).seq pos = 0 then .pushExchange data pos
          else if difference (ring.cell pos).seq pos < 0 then .pushed (-1) else .pushTail data)) := by
      simp only [RingSys.step,RingSys.go,point]
    have run := run.extend looked
    split at ran
    next zero =>
      rw [if_pos (show difference (ring.cell pos).seq pos = 0 from zero)] at run
      split at ran
      next missed =>
        have again : (ring.setPoint thread (.pushExchange data pos)).step (thread,.go fails) =
            some ((ring.setPoint thread (.pushExchange data pos)).setPoint thread (.pushSeq data ring.rb.tail)) := by
          simp only [RingSys.step,RingSys.go,RingSys.setPoint_same]
          exact if_pos missed
        exact ih (run.extend again) (RingSys.setPoint_same _) ran
      next hit =>
        cases ran
        obtain rfl : ring.rb.tail = pos := not_not.mp (not_or.mp hit).2
        exact RingSys.put_alone run (RingSys.setPoint_same _)
    next nonzero =>
      rw [if_neg (show difference (ring.cell pos).seq pos ≠ 0 from nonzero)] at run
      split at ran
      next behind =>
        cases ran
        rw [if_pos (show difference (ring.cell pos).seq pos < 0 from behind)] at run
        exact ⟨_,run,rfl,RingSys.setPoint_same _⟩
      next ahead =>
        rw [if_neg (show ¬difference (ring.cell pos).seq pos < 0 from ahead)] at run
        have again : (ring.setPoint thread (.pushTail data)).step (thread,.go false) =
            some ((ring.setPoint thread (.pushTail data)).setPoint thread (.pushSeq data ring.rb.tail)) := by
          simp only [RingSys.step,RingSys.go,RingSys.setPoint_same]
          rfl
        exact ih (run.extend again) (RingSys.setPoint_same _) ran

theorem vgcPopLoop_alone {rounds : List Bool} {pos : Nat} {result : Option Data} {rb : VgcRingbuf Data}
    (run : Alone RingSys.step thread start ring) (point : ring.threads thread = .popSeq pos)
    (ran : vgcPopLoop ring.rb rounds pos = some (result,rb)) :
    ∃ next, Alone RingSys.step thread start next ∧ next.rb = rb ∧ next.threads thread = .popped result := by
  induction rounds generalizing ring pos with
  | nil => cases ran
  | cons fails rounds ih =>
    rw [vgcPopLoop] at ran
    have looked : ring.step (thread,.go fails) = some (ring.setPoint thread
        (if difference (ring.cell pos).seq (word (pos+1)) = 0 then .popExchange pos
          else if difference (ring.cell pos).seq (word (pos+1)) < 0 then .popped none else .popHead)) := by
      simp only [RingSys.step,RingSys.go,point]
    have run := run.extend looked
    split at ran
    next zero =>
      rw [if_pos (show difference (ring.cell pos).seq (word (pos+1)) = 0 from zero)] at run
      split at ran
      next missed =>
        have again : (ring.setPoint thread (.popExchange pos)).step (thread,.go fails) =
            some ((ring.setPoint thread (.popExchange pos)).setPoint thread (.popSeq ring.rb.head)) := by
          simp only [RingSys.step,RingSys.go,RingSys.setPoint_same]
          exact if_pos missed
        exact ih (run.extend again) (RingSys.setPoint_same _) ran
      next hit =>
        cases ran
        obtain rfl : ring.rb.head = pos := not_not.mp (not_or.mp hit).2
        obtain ⟨next,run,same,returned⟩ := RingSys.release_alone run (RingSys.setPoint_same _)
        exact ⟨next,run,same,returned⟩
    next nonzero =>
      rw [if_neg (show difference (ring.cell pos).seq (word (pos+1)) ≠ 0 from nonzero)] at run
      split at ran
      next behind =>
        cases ran
        rw [if_pos (show difference (ring.cell pos).seq (word (pos+1)) < 0 from behind)] at run
        exact ⟨_,run,rfl,RingSys.setPoint_same _⟩
      next ahead =>
        rw [if_neg (show ¬difference (ring.cell pos).seq (word (pos+1)) < 0 from ahead)] at run
        have again : (ring.setPoint thread .popHead).step (thread,.go false) =
            some ((ring.setPoint thread .popHead).setPoint thread (.popSeq ring.rb.head)) := by
          simp only [RingSys.step,RingSys.go,RingSys.setPoint_same]
          rfl
        exact ih (run.extend again) (RingSys.setPoint_same _) ran

theorem vgcPush_alone {rounds : List Bool} {data : Data} {result : Int} {rb : VgcRingbuf Data}
    (point : (ring.threads thread).between = true) (ran : vgcPush ring.rb data rounds = some (result,rb)) :
    ∃ next, Alone RingSys.step thread ring next ∧ next.rb = rb ∧ next.threads thread = .pushed result ∧
      ∀ other, other ≠ thread → next.threads other = ring.threads other := by
  have called : ring.step (thread,.push data) = some (ring.setPoint thread (.pushTail data)) := if_pos point
  have run : Alone RingSys.step thread ring (ring.setPoint thread (.pushTail data)) := .next .start rfl called
  have loaded : (ring.setPoint thread (.pushTail data)).step (thread,.go false) =
      some ((ring.setPoint thread (.pushTail data)).setPoint thread (.pushSeq data ring.rb.tail)) := by
    simp only [RingSys.step,RingSys.go,RingSys.setPoint_same]
    rfl
  obtain ⟨next,run,same,returned⟩ := vgcPushLoop_alone (run.extend loaded) (RingSys.setPoint_same _) ran
  exact ⟨next,run,same,returned,fun other => RingSys.others run⟩

theorem vgcPop_alone {rounds : List Bool} {result : Option Data} {rb : VgcRingbuf Data}
    (point : (ring.threads thread).between = true) (ran : vgcPop ring.rb rounds = some (result,rb)) :
    ∃ next, Alone RingSys.step thread ring next ∧ next.rb = rb ∧ next.threads thread = .popped result ∧
      ∀ other, other ≠ thread → next.threads other = ring.threads other := by
  have called : ring.step (thread,.pop) = some (ring.setPoint thread .popHead) := if_pos point
  have run : Alone RingSys.step thread ring (ring.setPoint thread .popHead) := .next .start rfl called
  have loaded : (ring.setPoint thread .popHead).step (thread,.go false) =
      some ((ring.setPoint thread .popHead).setPoint thread (.popSeq ring.rb.head)) := by
    simp only [RingSys.step,RingSys.go,RingSys.setPoint_same]
    rfl
  obtain ⟨next,run,same,returned⟩ := vgcPopLoop_alone (run.extend loaded) (RingSys.setPoint_same _) ran
  exact ⟨next,run,same,returned,fun other => RingSys.others run⟩

end Accesses

end CSpock.Fibers
