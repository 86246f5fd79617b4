import CSpock.Library.Fifo
import CSpock.Library.Transition
import CSpock.Net.Bbuf

/-! The read buffer as a queue. Its sizes are of 64 bits, and the one that is asked of
`realloc` is a sum of two of them. -/
namespace CSpock.Net
open CSpock.Library.Transition CSpock.Library

namespace Bbuf

/-- `sbnet_bbuf_make_room` with the sum as it is computed; `realloc` cuts off what a smaller block has no room for. -/
def sbnetBbufMakeRoom (realloc : (size : Nat) → Option (Block size)) (buf : Bbuf) (len : Nat) : Option Bbuf :=
  if len ≤ buf.rem then some buf else
    let moved : Bbuf := ⟨buf.queue ++ buf.mem.drop buf.inUse,0,buf.inUse,buf.mem.length - buf.inUse⟩
    if len ≤ moved.rem then some moved else
      let total := (buf.inUse + len) % 2 ^ 64
      (realloc total).map fun block =>
        { moved with mem := (moved.mem ++ block.1.drop moved.mem.length).take total, rem := len }

/-- `sbnet_adv_bbuf` with its result; `none` is one of -1. -/
def sbnetAdvBbuf (buf : Bbuf) (dist : Nat) : Option Bbuf :=
  if buf.inUse < dist then none else some { buf with cur := buf.cur + dist, inUse := buf.inUse - dist }

def fill (buf : Bbuf) (start : Nat) (chunk : List UInt8) : Bbuf :=
  { buf with mem := buf.mem.take start ++ chunk ++ buf.mem.drop (start + chunk.length) }

variable {buf roomy : Bbuf} {realloc : (size : Nat) → Option (Block size)} {len : Nat}

/-- While the sum is right, the larger block keeps what was there. -/
theorem sbnetBbufMakeRoom_eq (wellFormed : buf.WellFormed) (small : buf.inUse + len < 2 ^ 64) :
    buf.sbnetBbufMakeRoom realloc len = buf.makeRoom realloc len := by
  have total := wellFormed.total
  have length := length_queue wellFormed
  unfold sbnetBbufMakeRoom makeRoom
  split
  next => rfl
  next =>
    dsimp only
    split
    next => rfl
    next short =>
      rw [Nat.mod_eq_of_lt small]
      congr 1
      funext block
      congr 1
      refine List.take_of_length_le ?_
      simp only [List.length_append,length,List.length_drop,block.2]
      omega

theorem makeRoom_size (wellFormed : buf.WellFormed) (size : buf.mem.length < 2 ^ 64)
    (small : buf.inUse + len < 2 ^ 64) (made : buf.makeRoom realloc len = some roomy) : roomy.mem.length < 2 ^ 64 := by
  have total := wellFormed.total
  have length := length_queue wellFormed
  unfold makeRoom at made
  split at made
  next => cases made; exact size
  next =>
    dsimp only at made
    split at made
    next =>
      cases made
      simp only [List.length_append,length,List.length_drop]
      omega
    next =>
      obtain ⟨block,_,rfl⟩ := Option.map_eq_some_iff.mp made
      simp only [List.length_append,length,List.length_drop,block.2]
      omega

theorem sbnetAdvBbuf_eq {dist : Nat} : buf.sbnetAdvBbuf dist = if buf.inUse < dist then none else some (buf.adv dist) := by
  unfold sbnetAdvBbuf adv
  split <;> rfl

end Bbuf

/-- `realloc` is what the allocator does at that call. -/
inductive BbufOp where
  | alloc (size : Nat) (realloc : (size : Nat) → Option (Block size))
  | read (chunk : List UInt8)
  | recv (len : Nat)
  | adv (dist : Nat)

/-- The buffer with the window that was handed out last, the bytes that were read into it and those that were
taken out. -/
structure Feed where
  buf : Bbuf
  window : Option (Nat × Nat)
  appended : List UInt8
  taken : List UInt8

namespace Feed

/-- A failed allocation ends the process. The length of a window is an `unsigned int` of `uv_buf_init`. -/
def step (feed : Feed) : BbufOp → Option Feed
  | .alloc size realloc => (feed.buf.sbnetBbufMakeRoom realloc size).map fun buf =>
      { feed with buf := buf, window := some (buf.cur + buf.inUse,size % 2 ^ 32) }
  | .read chunk => feed.window.map fun window =>
      { feed with
        buf := (feed.buf.fill window.1 chunk).received chunk.length
        window := none
        appended := feed.appended ++ chunk }
  | .recv len =>
    match feed.buf.recv len with
    | none => some feed
    | some (dest,buf) => some { feed with buf := buf, taken := feed.taken ++ dest }
  | .adv dist =>
    match feed.buf.sbnetAdvBbuf dist with
    | none => some feed
    | some buf => some { feed with buf := buf, taken := feed.taken ++ (feed.buf.mem.drop feed.buf.cur).take dist }

def init (block : Block 4096) : Feed := ⟨⟨block.1,0,0,4096⟩,none,[],[]⟩

/-- A size is of 64 bits, and a read is no longer than its window. -/
def Issues (feed : Feed) : BbufOp → Prop
  | .alloc size _ => size < 2 ^ 64
  | .read chunk => ∀ window ∈ feed.window, chunk.length ≤ window.2
  | _ => True

/-- The bytes in use and those that are asked for can be counted together. -/
def Fits (feed : Feed) (op : BbufOp) : Prop :=
  feed.Issues op ∧ match op with
    | .alloc size _ => feed.buf.inUse + size < 2 ^ 64
    | _ => True

instance (feed : Feed) (op : BbufOp) : Decidable (feed.Issues op) := by
  unfold Issues
  split <;> infer_instance

instance (feed : Feed) (op : BbufOp) : Decidable (feed.Fits op) := by
  unfold Fits
  refine @instDecidableAnd _ _ _ ?_
  split <;> infer_instance

/-- The buffer is the queue of the bytes that were read and not taken. -/
structure Refines (feed : Feed) : Prop where
  layout : feed.buf.cur + feed.buf.inUse + feed.buf.rem = feed.buf.mem.length
  size : feed.buf.mem.length < 2 ^ 64
  fifo : Fifo.Passes [] feed.appended feed.taken feed.buf.queue
  length : feed.buf.queue.length = feed.buf.inUse
  recv : ∀ len, (feed.buf.recv len).map (fun result => (result.1,result.2.queue)) = Fifo.take feed.buf.queue len
  adv : ∀ dist, (feed.buf.sbnetAdvBbuf dist).map Bbuf.queue = (Fifo.take feed.buf.queue dist).map Prod.snd
  window : ∀ start size, feed.window = some (start,size) →
    feed.buf.cur + feed.buf.inUse ≤ start ∧ start + size ≤ feed.buf.mem.length

structure Keeps (feed : Feed) : Prop where
  wellFormed : feed.buf.WellFormed
  size : feed.buf.mem.length < 2 ^ 64
  fifo : Fifo.Passes [] feed.appended feed.taken feed.buf.queue
  window : ∀ start size, feed.window = some (start,size) →
    start = feed.buf.cur + feed.buf.inUse ∧ size ≤ feed.buf.rem

variable {feed after : Feed}

theorem Keeps.refines (keeps : feed.Keeps) : feed.Refines := by
  have total := keeps.wellFormed.total
  have length := Bbuf.length_queue keeps.wellFormed
  refine ⟨total,keeps.size,keeps.fifo,length,fun len => ?_,fun dist => ?_,fun start size window => ?_⟩
  · unfold Fifo.take
    rw [length]
    split
    next short => rw [Bbuf.recv,if_pos short,Option.map_none]
    next enough =>
      rw [Bbuf.recv_queue (not_lt.mp enough),Option.map_some,(Bbuf.adv_queue keeps.wellFormed (not_lt.mp enough)).2.1]
  · rw [Bbuf.sbnetAdvBbuf_eq,Fifo.take,length]
    split
    next => rfl
    next enough => rw [Option.map_some,Option.map_some,(Bbuf.adv_queue keeps.wellFormed (not_lt.mp enough)).2.1]
  · obtain ⟨rfl,less⟩ := keeps.window start size window
    omega

theorem Keeps.advance (keeps : feed.Keeps) {dist : Nat} (enough : dist ≤ feed.buf.inUse) :
    Keeps { feed with buf := feed.buf.adv dist, taken := feed.taken ++ feed.buf.queue.take dist } := by
  have length := Bbuf.length_queue keeps.wellFormed
  obtain ⟨ready,queue,_⟩ := Bbuf.adv_queue keeps.wellFormed enough
  have moved : feed.buf.adv dist =
      { feed.buf with cur := feed.buf.cur + dist, inUse := feed.buf.inUse - dist } := if_neg (not_lt.mpr enough)
  have size : (feed.buf.adv dist).mem.length < 2 ^ 64 := by
    rw [Bbuf.adv_block]
    exact keeps.size
  refine ⟨ready,size,?_,fun start size window => ?_⟩
  · have delivered : Fifo.take feed.buf.queue dist = some (feed.buf.queue.take dist,(feed.buf.adv dist).queue) := by
      rw [Fifo.take,length,if_neg (not_lt.mpr enough),queue]
    have passed := keeps.fifo.trans (.deliver delivered)
    rwa [List.append_nil] at passed
  · obtain ⟨rfl,less⟩ := keeps.window start size window
    simp only [moved]
    omega

theorem Keeps.step (keeps : feed.Keeps) {op : BbufOp} (fits : feed.Fits op) (stepped : feed.step op = some after) :
    after.Keeps := by
  have total := keeps.wellFormed.total
  cases op with
  | alloc size realloc =>
    obtain ⟨buf,made,rfl⟩ := Option.map_eq_some_iff.mp stepped
    rw [Bbuf.sbnetBbufMakeRoom_eq keeps.wellFormed fits.2] at made
    obtain ⟨ready,queue,room⟩ := Bbuf.makeRoom_wellFormed keeps.wellFormed made
    refine ⟨ready,Bbuf.makeRoom_size keeps.wellFormed keeps.size fits.2 made,?_,fun start size window => ?_⟩
    · rw [queue]
      exact keeps.fifo
    · cases window
      exact ⟨rfl,le_trans (Nat.mod_le ..) room⟩
  | read chunk =>
    obtain ⟨⟨start,size⟩,window,rfl⟩ := Option.map_eq_some_iff.mp stepped
    obtain ⟨rfl,less⟩ := keeps.window start size window
    have short : chunk.length ≤ size := fits.1 _ window
    obtain ⟨ready,queue⟩ := Bbuf.write_received keeps.wellFormed (le_trans short less)
    refine ⟨ready,?_,?_,nofun⟩
    · have total' := ready.total
      have same : ((feed.buf.write chunk).received chunk.length).mem.length = feed.buf.mem.length := by
        rw [← total',← total]
        simp only [Bbuf.write,Bbuf.received]
        omega
      exact lt_of_eq_of_lt same keeps.size
    · have passed := keeps.fifo.trans (.accept feed.buf.queue chunk)
      rw [List.append_nil,← queue] at passed
      exact passed
  | recv len =>
    by_cases enough : len ≤ feed.buf.inUse
    · simp only [Feed.step,Bbuf.recv_queue enough] at stepped
      cases stepped
      exact keeps.advance enough
    · simp only [Feed.step,Bbuf.recv,if_pos (not_le.mp enough)] at stepped
      cases stepped
      exact keeps
  | adv dist =>
    by_cases enough : dist ≤ feed.buf.inUse
    · simp only [Feed.step,Bbuf.sbnetAdvBbuf_eq,if_neg (not_lt.mpr enough)] at stepped
      cases stepped
      have same : (feed.buf.mem.drop feed.buf.cur).take dist = feed.buf.queue.take dist := by
        rw [Bbuf.queue,List.take_take,Nat.min_eq_left enough]
      rw [same]
      exact keeps.advance enough
    · simp only [Feed.step,Bbuf.sbnetAdvBbuf_eq,if_pos (not_le.mp enough)] at stepped
      cases stepped
      exact keeps

theorem init_keeps (block : Block 4096) : (init block).Keeps where
  wellFormed := ⟨by rw [init,block.2]; rfl⟩
  size := by
    rw [init,block.2]
    decide
  fifo := by simp [Fifo.Passes,init,Bbuf.queue]
  window := nofun

end Feed

/-- As long as the sum of what is in use and what is asked for does not run over. -/
theorem run_queued {block : Block 4096} {feed : Feed} (run : Run Feed.step Feed.Fits (Feed.init block) feed) :
    feed.Refines :=
  (run.invariant (Feed.init_keeps block) fun _ _ _ keeps fits stepped => keeps.step fits stepped).refines

def zeros (size : Nat) : Option (Block size) := some ⟨List.replicate size 0,Bbuf.length_zeros size⟩

/-- Two bytes are read and one is taken, and a window is handed out that needs a larger block. -/
def readAndGrown : List BbufOp :=
  [.alloc 100 zeros,.read [1,2],.recv 1,.recv 2,.alloc 5000 zeros,.read [3],.adv 1]

theorem run_queued_grown : ∃ feed : Feed,
    replay Feed.step Feed.Fits (Feed.init ⟨List.replicate 4096 0,List.length_replicate⟩) readAndGrown = some feed ∧
      feed.appended = [1,2,3] ∧ feed.taken = [1,2] ∧ feed.Refines := by
  have ran : (replay Feed.step Feed.Fits (Feed.init ⟨List.replicate 4096 0,List.length_replicate⟩) readAndGrown).map
      (fun feed => decide (feed.appended = [1,2,3] ∧ feed.taken = [1,2])) = some true := by decide +kernel
  obtain ⟨feed,replayed,state⟩ := Option.map_eq_some_iff.mp ran
  obtain ⟨appended,taken⟩ := of_decide_eq_true state
  exact ⟨feed,replayed,appended,taken,run_queued (Run.start.replay replayed)⟩

/-- With two bytes in use the largest size is one more than 64 bits hold, and what is left is a block of one byte. -/
theorem run_queued_fails : ∃ feed : Feed,
    Run Feed.step Feed.Issues (Feed.init ⟨List.replicate 4096 0,List.length_replicate⟩) feed ∧
      feed.appended = [1,2] ∧ feed.taken = [] ∧ feed.buf.mem = [1] ∧ feed.buf.inUse = 2 ∧ ¬feed.Refines := by
  have ran : (replay Feed.step Feed.Issues (Feed.init ⟨List.replicate 4096 0,List.length_replicate⟩)
      [.alloc 2 zeros,.read [1,2],.alloc (2^64-1) zeros]).map (fun feed =>
        decide (feed.appended = [1,2] ∧ feed.taken = [] ∧ feed.buf.mem = [1] ∧ feed.buf.inUse = 2)) = some true := by
    decide +kernel
  obtain ⟨feed,replayed,state⟩ := Option.map_eq_some_iff.mp ran
  obtain ⟨appended,taken,mem,inUse⟩ := of_decide_eq_true state
  refine ⟨feed,Run.start.replay replayed,appended,taken,mem,inUse,fun refines => ?_⟩
  have layout := refines.layout
  rw [mem,inUse,List.length_singleton] at layout
  omega

end CSpock.Net
