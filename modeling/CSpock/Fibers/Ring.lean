import CSpock.Library.Transition

/-! The bounded queue of `fibers/queue.c`, one atomic access a step. Positions and sequence
numbers are 64 bits wide. -/
namespace CSpock.Fibers
open CSpock.Library.Transition

def word (value : Nat) : Nat := value % 2 ^ 64

def difference (seq pos : Nat) : Int := Int.bmod (seq - pos) (2 ^ 64)

/-- `writer` is not in the code: the position of the push that wrote the datum. -/
structure VgcCell (Data : Type) where
  seq : Nat
  data : Data
  writer : Option Nat

structure VgcRingbuf (Data : Type) where
  bufmask : Nat
  buf : Nat → VgcCell Data
  head : Nat
  tail : Nat

/-- What is in the memory of the cells stays there. -/
def vgcRingbufInit {Data : Type} (buf : Nat → Data) (size : Nat) : VgcRingbuf Data where
  bufmask := size - 1
  buf index := ⟨index,buf index,none⟩
  head := 0
  tail := 0

/-- Where a thread is in `vgc_push` or `vgc_pop`, in front of the access that the name says. -/
inductive RingPoint (Data : Type) where
  | idle
  | pushTail (data : Data)
  | pushSeq (data : Data) (pos : Nat)
  | pushExchange (data : Data) (pos : Nat)
  | pushData (data : Data) (pos : Nat)
  | pushStore (data : Data) (pos : Nat)
  | pushed (result : Int)
  | popHead
  | popSeq (pos : Nat)
  | popExchange (pos : Nat)
  | popData (pos : Nat)
  | popStore (pos : Nat) (data : Data)
  | popped (data : Option Data)
  deriving DecidableEq

def RingPoint.between {Data : Type} : RingPoint Data → Bool
  | .idle => true
  | .pushed _ => true
  | .popped _ => true
  | _ => false

/-- `fails` is what a compare-exchange may do for no reason. -/
inductive RingAct (Data : Type) where
  | push (data : Data)
  | pop
  | go (fails : Bool)

/-- The ring and its users, with the positions that were claimed and what the pops returned, in order. -/
structure RingSys (Thread Data : Type) where
  rb : VgcRingbuf Data
  threads : Thread → RingPoint Data
  pushes : List (Nat × Data)
  pops : List Nat
  returned : List (Nat × Data)

namespace RingSys
variable {Thread Data : Type} [DecidableEq Thread]

def cell (ring : RingSys Thread Data) (pos : Nat) : VgcCell Data := ring.rb.buf (pos &&& ring.rb.bufmask)

def setCell (ring : RingSys Thread Data) (pos : Nat) (cell : VgcCell Data) : RingSys Thread Data :=
  { ring with rb := { ring.rb with buf := Function.update ring.rb.buf (pos &&& ring.rb.bufmask) cell } }

def setPoint (ring : RingSys Thread Data) (thread : Thread) (point : RingPoint Data) : RingSys Thread Data :=
  { ring with threads := Function.update ring.threads thread point }

def claimPush (ring : RingSys Thread Data) (pos : Nat) (data : Data) : RingSys Thread Data :=
  { ring with rb := { ring.rb with tail := word (pos+1) }, pushes := ring.pushes ++ [(pos,data)] }

def claimPop (ring : RingSys Thread Data) (pos : Nat) : RingSys Thread Data :=
  { ring with rb := { ring.rb with head := word (pos+1) }, pops := ring.pops ++ [pos] }

def go (ring : RingSys Thread Data) (thread : Thread) (fails : Bool) : Option (RingSys Thread Data) :=
  match ring.threads thread with
  | .idle => none
  | .pushed _ => none
  | .popped _ => none
  | .pushTail data => some (ring.setPoint thread (.pushSeq data ring.rb.tail))
  | .pushSeq data pos =>
    let dif := difference (ring.cell pos).seq pos
    some (ring.setPoint thread
      (if dif = 0 then .pushExchange data pos else if dif < 0 then .pushed (-1) else .pushTail data))
  | .pushExchange data pos =>
    if fails = true ∨ ring.rb.tail ≠ pos then some (ring.setPoint thread (.pushSeq data ring.rb.tail))
    else some ((ring.claimPush pos data).setPoint thread (.pushData data pos))
  | .pushData data pos =>
    some ((ring.setCell pos { ring.cell pos with data := data, writer := some pos }).setPoint thread
      (.pushStore data pos))
  | .pushStore _ pos =>
    some ((ring.setCell pos { ring.cell pos with seq := word (pos+1) }).setPoint thread (.pushed 0))
  | .popHead => some (ring.setPoint thread (.popSeq ring.rb.head))
  | .popSeq pos =>
    let dif := difference (ring.cell pos).seq (word (pos+1))
    some (ring.setPoint thread
      (if dif = 0 then .popExchange pos else if dif < 0 then .popped none else .popHead))
  | .popExchange pos =>
    if fails = true ∨ ring.rb.head ≠ pos then some (ring.setPoint thread (.popSeq ring.rb.head))
    else some ((ring.claimPop pos).setPoint thread (.popData pos))
  | .popData pos => some (ring.setPoint thread (.popStore pos (ring.cell pos).data))
  | .popStore pos data =>
    some ({ ring.setCell pos { ring.cell pos with seq := word (pos+ring.rb.bufmask+1) } with
      returned := ring.returned ++ [(pos,data)] }.setPoint thread (.popped (some data)))

def step (ring : RingSys Thread Data) (label : Thread × RingAct Data) : Option (RingSys Thread Data) :=
  match label.2 with
  | .push data =>
    if (ring.threads label.1).between then some (ring.setPoint label.1 (.pushTail data)) else none
  | .pop => if (ring.threads label.1).between then some (ring.setPoint label.1 .popHead) else none
  | .go fails => ring.go label.1 fails

def init (buf : Nat → Data) (size : Nat) : RingSys Thread Data :=
  ⟨vgcRingbufInit buf size,fun _ => .idle,[],[],[]⟩

end RingSys

open RingSys

variable {Thread Data : Type} [DecidableEq Thread]

inductive RingStep (ring : RingSys Thread Data) (thread : Thread) : RingAct Data → RingSys Thread Data → Prop where
  | push {data : Data} (point : (ring.threads thread).between = true) :
      RingStep ring thread (.push data) (ring.setPoint thread (.pushTail data))
  | pop (point : (ring.threads thread).between = true) : RingStep ring thread .pop (ring.setPoint thread .popHead)
  | loadTail {data : Data} {fails : Bool} (point : ring.threads thread = .pushTail data) :
      RingStep ring thread (.go fails) (ring.setPoint thread (.pushSeq data ring.rb.tail))
  | free {data : Data} {pos : Nat} {fails : Bool} (point : ring.threads thread = .pushSeq data pos)
      (zero : difference (ring.cell pos).seq pos = 0) :
      RingStep ring thread (.go fails) (ring.setPoint thread (.pushExchange data pos))
  | full {data : Data} {pos : Nat} {fails : Bool} (point : ring.threads thread = .pushSeq data pos)
      (behind : difference (ring.cell pos).seq pos < 0) :
      RingStep ring thread (.go fails) (ring.setPoint thread (.pushed (-1)))
  | lateTail {data : Data} {pos : Nat} {fails : Bool} (point : ring.threads thread = .pushSeq data pos)
      (ahead : 0 < difference (ring.cell pos).seq pos) :
      RingStep ring thread (.go fails) (ring.setPoint thread (.pushTail data))
  | missTail {data : Data} {pos : Nat} {fails : Bool} (point : ring.threads thread = .pushExchange data pos) :
      RingStep ring thread (.go fails) (ring.setPoint thread (.pushSeq data ring.rb.tail))
  | claimPush {data : Data} {fails : Bool} (point : ring.threads thread = .pushExchange data ring.rb.tail) :
      RingStep ring thread (.go fails)
        ((ring.claimPush ring.rb.tail data).setPoint thread (.pushData data ring.rb.tail))
  | write {data : Data} {pos : Nat} {fails : Bool} (point : ring.threads thread = .pushData data pos) :
      RingStep ring thread (.go fails)
        ((ring.setCell pos { ring.cell pos with data := data, writer := some pos }).setPoint thread
          (.pushStore data pos))
  | publish {data : Data} {pos : Nat} {fails : Bool} (point : ring.threads thread = .pushStore data pos) :
      RingStep ring thread (.go fails)
        ((ring.setCell pos { ring.cell pos with seq := word (pos+1) }).setPoint thread (.pushed 0))
  | loadHead {fails : Bool} (point : ring.threads thread = .popHead) :
      RingStep ring thread (.go fails) (ring.setPoint thread (.popSeq ring.rb.head))
  | filled {pos : Nat} {fails : Bool} (point : ring.threads thread = .popSeq pos)
      (zero : difference (ring.cell pos).seq (word (pos+1)) = 0) :
      RingStep ring thread (.go fails) (ring.setPoint thread (.popExchange pos))
  | empty {pos : Nat} {fails : Bool} (point : ring.threads thread = .popSeq pos) :
      RingStep ring thread (.go fails) (ring.setPoint thread (.popped none))
  | lateHead {pos : Nat} {fails : Bool} (point : ring.threads thread = .popSeq pos) :
      RingStep ring thread (.go fails) (ring.setPoint thread .popHead)
  | missHead {pos : Nat} {fails : Bool} (point : ring.threads thread = .popExchange pos) :
      RingStep ring thread (.go fails) (ring.setPoint thread (.popSeq ring.rb.head))
  | claimPop {fails : Bool} (point : ring.threads thread = .popExchange ring.rb.head) :
      RingStep ring thread (.go fails) ((ring.claimPop ring.rb.head).setPoint thread (.popData ring.rb.head))
  | read {pos : Nat} {fails : Bool} (point : ring.threads thread = .popData pos) :
      RingStep ring thread (.go fails) (ring.setPoint thread (.popStore pos (ring.cell pos).data))
  | release {pos : Nat} {data : Data} {fails : Bool} (point : ring.threads thread = .popStore pos data) :
      RingStep ring thread (.go fails)
        ({ ring.setCell pos { ring.cell pos with seq := word (pos+ring.rb.bufmask+1) } with
          returned := ring.returned ++ [(pos,data)] }.setPoint thread (.popped (some data)))

variable {ring next : RingSys Thread Data} {thread : Thread}

theorem ring_go_cases {fails : Bool} (stepped : ring.go thread fails = some next) :
    RingStep ring thread (.go fails) next := by
  unfold RingSys.go at stepped
  split at stepped
  next => cases stepped
  next => cases stepped
  next => cases stepped
  next data point => cases stepped; exact .loadTail point
  next data pos point =>
    cases stepped
    split
    next zero => exact .free point zero
    next nonzero =>
      split
      next behind => exact .full point behind
      next ahead => exact .lateTail point (by omega)
  next data pos point =>
    split at stepped
    next => cases stepped; exact .missTail point
    next hit =>
      cases stepped
      have same : ring.rb.tail = pos := by
        by_contra different
        exact hit (.inr different)
      subst same
      exact .claimPush point
  next data pos point => cases stepped; exact .write point
  next data pos point => cases stepped; exact .publish point
  next point => cases stepped; exact .loadHead point
  next pos point =>
    cases stepped
    split
    next zero => exact .filled point zero
    next nonzero =>
      split
      next behind => exact .empty point
      next ahead => exact .lateHead point
  next pos point =>
    split at stepped
    next => cases stepped; exact .missHead point
    next hit =>
      cases stepped
      have same : ring.rb.head = pos := by
        by_contra different
        exact hit (.inr different)
      subst same
      exact .claimPop point
  next pos point => cases stepped; exact .read point
  next pos data point => cases stepped; exact .release point

theorem ring_cases {act : RingAct Data} (stepped : ring.step (thread,act) = some next) :
    RingStep ring thread act next := by
  unfold RingSys.step at stepped
  cases act with
  | push data =>
    dsimp only at stepped
    split at stepped
    next point => cases stepped; exact .push point
    next => cases stepped
  | pop =>
    dsimp only at stepped
    split at stepped
    next point => cases stepped; exact .pop point
    next => cases stepped
  | go fails => exact ring_go_cases stepped

theorem RingStep.others {act : RingAct Data} (step : RingStep ring thread act next) {other : Thread}
    (different : other ≠ thread) : next.threads other = ring.threads other := by
  cases step <;> exact Function.update_of_ne different ..

end CSpock.Fibers
