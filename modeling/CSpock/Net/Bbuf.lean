import Mathlib

/-! The read buffer of `sb_net.c`, a queue of bytes inside one allocation. -/
namespace CSpock.Net

/-- What an allocation of some size holds: any bytes, but as many. -/
abbrev Block (size : Nat) := { bytes : List UInt8 // bytes.length = size }

/-- `mem` are the `len` bytes at `base`, and `cur` is an offset from it. -/
structure Bbuf where
  mem : List UInt8
  cur : Nat
  inUse : Nat
  rem : Nat
  deriving Repr, DecidableEq

namespace Bbuf

/-- The bytes that were received and not yet taken. -/
def queue (buf : Bbuf) : List UInt8 := (buf.mem.drop buf.cur).take buf.inUse

theorem length_zeros (size : Nat) : (List.replicate size (0 : UInt8)).length = size := List.length_replicate

structure WellFormed (buf : Bbuf) : Prop where
  total : buf.cur + buf.inUse + buf.rem = buf.mem.length

/-- `realloc` keeps the bytes and appends whatever the larger block holds. -/
def makeRoom (realloc : (size : Nat) → Option (Block size)) (buf : Bbuf) (len : Nat) : Option Bbuf :=
  if len ≤ buf.rem then some buf else
    let moved : Bbuf := ⟨buf.queue ++ buf.mem.drop buf.inUse,0,buf.inUse,buf.mem.length - buf.inUse⟩
    if len ≤ moved.rem then some moved else
      (realloc (buf.inUse + len)).map fun block =>
        { moved with mem := moved.mem ++ block.1.drop moved.mem.length, rem := len }

def write (buf : Bbuf) (chunk : List UInt8) : Bbuf :=
  { buf with mem := buf.mem.take (buf.cur + buf.inUse) ++ chunk ++
      buf.mem.drop (buf.cur + buf.inUse + chunk.length) }

def received (buf : Bbuf) (nread : Nat) : Bbuf :=
  { buf with inUse := buf.inUse + nread, rem := buf.rem - nread }

/-- The bytes that are copied to `dest` and the buffer that is left; `none` is a result of -1. -/
def recv (src : Bbuf) (len : Nat) : Option (List UInt8 × Bbuf) :=
  if src.inUse < len then none else
    some ((src.mem.drop src.cur).take len,{ src with cur := src.cur + len, inUse := src.inUse - len })

/-- As the callers ignore the result, a refused advance is no advance. -/
def adv (buf : Bbuf) (dist : Nat) : Bbuf :=
  if buf.inUse < dist then buf else { buf with cur := buf.cur + dist, inUse := buf.inUse - dist }

variable {buf : Bbuf}

@[simp] theorem length_queue (wellFormed : buf.WellFormed) : buf.queue.length = buf.inUse := by
  have := wellFormed.total
  simp [queue]
  omega

theorem drop_cur (buf : Bbuf) : ∃ stale, buf.mem.drop buf.cur = buf.queue ++ stale :=
  ⟨_,(List.take_append_drop buf.inUse (buf.mem.drop buf.cur)).symm⟩

theorem queue_moved {front : List UInt8} {inUse : Nat} (length : front.length = inUse) (back : List UInt8)
    (rem : Nat) : (⟨front ++ back,0,inUse,rem⟩ : Bbuf).queue = front := by
  rw [queue,List.drop_zero]
  exact List.take_left' length

section Room
variable {realloc : (size : Nat) → Option (Block size)} {len : Nat} {roomy : Bbuf}

theorem makeRoom_cases (made : buf.makeRoom realloc len = some roomy) : (len ≤ buf.rem ∧ roomy = buf) ∨
    (len ≤ buf.mem.length - buf.inUse ∧
      roomy = ⟨buf.queue ++ buf.mem.drop buf.inUse,0,buf.inUse,buf.mem.length - buf.inUse⟩) ∨
    buf.mem.length - buf.inUse < len ∧ ∃ block fresh, realloc (buf.inUse + len) = some block ∧
      fresh = block.1.drop (buf.queue ++ buf.mem.drop buf.inUse).length ∧
      roomy = ⟨buf.queue ++ (buf.mem.drop buf.inUse ++ fresh),0,buf.inUse,len⟩ := by
  unfold makeRoom at made
  split at made
  next room => cases made; exact .inl ⟨room,rfl⟩
  next =>
    dsimp only at made
    split at made
    next room => cases made; exact .inr (.inl ⟨room,rfl⟩)
    next short =>
      obtain ⟨block,granted,rfl⟩ := Option.map_eq_some_iff.mp made
      exact .inr (.inr ⟨Nat.lt_of_not_le short,block,_,granted,rfl,by rw [List.append_assoc]⟩)

theorem makeRoom_granted {block : Block (buf.inUse + len)} (granted : realloc (buf.inUse + len) = some block) :
    ∃ roomy, buf.makeRoom realloc len = some roomy := by
  unfold makeRoom
  split
  next => exact ⟨_,rfl⟩
  next =>
    dsimp only
    split
    next => exact ⟨_,rfl⟩
    next => exact ⟨_,by rw [granted]; rfl⟩

theorem makeRoom_wellFormed (wellFormed : buf.WellFormed) (made : buf.makeRoom realloc len = some roomy) :
    roomy.WellFormed ∧ roomy.queue = buf.queue ∧ len ≤ roomy.rem := by
  have total := wellFormed.total
  have length := length_queue wellFormed
  rcases makeRoom_cases made with ⟨room,rfl⟩ | ⟨room,rfl⟩ | ⟨short,block,fresh,_,rest,rfl⟩
  · exact ⟨wellFormed,rfl,room⟩
  · refine ⟨⟨?_⟩,queue_moved length _ _,room⟩
    simp only [List.length_append,length,List.length_drop]
    omega
  · refine ⟨⟨?_⟩,queue_moved length _ _,Nat.le_refl len⟩
    simp only [List.length_append,length,List.length_drop,rest,block.2]
    omega

end Room

theorem write_received (wellFormed : buf.WellFormed) {chunk : List UInt8} (room : chunk.length ≤ buf.rem) :
    ((buf.write chunk).received chunk.length).WellFormed ∧
      ((buf.write chunk).received chunk.length).queue = buf.queue ++ chunk := by
  have total := wellFormed.total
  refine ⟨⟨?_⟩,?_⟩
  · simp [write,received]
    omega
  · have length := length_queue wellFormed
    have front : (buf.mem.take (buf.cur + buf.inUse)).drop buf.cur = buf.queue := by
      rw [List.drop_take,Nat.add_sub_cancel_left,queue]
    have inside : buf.cur ≤ (buf.mem.take (buf.cur + buf.inUse)).length := by
      rw [List.length_take]
      omega
    let back := buf.mem.drop (buf.cur + buf.inUse + chunk.length)
    change ((buf.mem.take (buf.cur + buf.inUse) ++ chunk ++ back).drop buf.cur).take (buf.inUse + chunk.length) = _
    rw [List.append_assoc,List.drop_append_of_le_length inside,front,← List.append_assoc]
    exact List.take_left' (by rw [List.length_append,length])

theorem adv_queue (wellFormed : buf.WellFormed) {dist : Nat} (inside : dist ≤ buf.inUse) :
    (buf.adv dist).WellFormed ∧ (buf.adv dist).queue = buf.queue.drop dist ∧
      (buf.adv dist).inUse = buf.inUse - dist := by
  have total := wellFormed.total
  rw [adv,if_neg (by omega)]
  refine ⟨⟨by simp only; omega⟩,?_,rfl⟩
  simp only [queue,List.drop_take,List.drop_drop]

theorem adv_block (buf : Bbuf) (dist : Nat) : (buf.adv dist).mem.length = buf.mem.length := by
  unfold adv
  split <;> rfl

theorem write_block {realloc : (size : Nat) → Option (Block size)} {len : Nat} {roomy : Bbuf} {chunk : List UInt8}
    (wellFormed : buf.WellFormed) (made : buf.makeRoom realloc len = some roomy) (fits : chunk.length ≤ len)
    {limit : Nat} (granted : ∀ size block, realloc size = some block → size < limit)
    (small : buf.mem.length < limit) : ((roomy.write chunk).received chunk.length).mem.length < limit := by
  obtain ⟨roomyFormed,_,room⟩ := makeRoom_wellFormed wellFormed made
  have total := roomyFormed.total
  have same : ((roomy.write chunk).received chunk.length).mem.length = roomy.mem.length := by
    simp [write,received]
    omega
  have before := wellFormed.total
  have length := length_queue wellFormed
  rw [same]
  rcases makeRoom_cases made with ⟨_,rfl⟩ | ⟨_,rfl⟩ | ⟨short,block,fresh,given,rest,rfl⟩
  · exact small
  · simp only [List.length_append,length,List.length_drop]
    omega
  · have := granted _ block given
    simp only [List.length_append,length,List.length_drop,rest,block.2]
    omega

theorem recv_queue {len : Nat} (inside : len ≤ buf.inUse) :
    buf.recv len = some (buf.queue.take len,buf.adv len) := by
  rw [recv,if_neg (by omega),adv,if_neg (by omega),queue,List.take_take,Nat.min_eq_left inside]

end Bbuf

end CSpock.Net
