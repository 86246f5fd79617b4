import CSpock.Numeric

/-! `cNBT/buffer.c`. The block of a buffer is its own. -/
namespace CSpock.Nbt
open CSpock.Numeric

/-- Which sizes are granted. Nobody knows what is in a new block, or in what a block is longer by. -/
structure Growth where
  grants : Nat → Bool
  contents : Nat → List UInt8
  size : ∀ size, (contents size).length = size

/-- `struct buffer`, with the block at `data` -/
structure Buffer where
  data : Option (List UInt8)
  len : Nat
  cap : Nat
  deriving Repr, DecidableEq

namespace Buffer

def init : Buffer := ⟨none,0,0⟩

def bytes (b : Buffer) : List UInt8 := (b.data.getD []).take b.len

end Buffer

def lazyInit (growth : Growth) : Bool × Buffer :=
  if growth.grants 1024 then (true,⟨some (growth.contents 1024),0,1024⟩) else (false,⟨none,0,1024⟩)

def Buffer.lazily (growth : Growth) (b : Buffer) : Bool × Buffer := if b.data.isNone then lazyInit growth else (true,b)

def bufferFree : Buffer := ⟨none,0,0⟩

/-- The loop of `buffer_reserve`. A capacity that has become zero stays zero. -/
def doubled : Nat → Nat → Nat → Option Nat
  | 0,_,_ => none
  | fuel+1,cap,reserved => if cap < reserved then doubled fuel (sizeT (cap * 2)) reserved else some cap

/-- A result of `none` is a loop that does not end. -/
def bufferReserve (growth : Growth) (b : Buffer) (reserved : Nat) : Option (Bool × Buffer) :=
  match b.lazily growth with
  | (false,b) => some (false,b)
  | (true,b) =>
    if reserved ≤ b.cap then some (true,b)
    else (doubled 65 b.cap reserved).map fun cap =>
      if growth.grants cap then
        let old := b.data.getD []
        (true,⟨some (old ++ (growth.contents cap).drop old.length),b.len,cap⟩)
      else (false,bufferFree)

def Buffer.write (b : Buffer) (bytes : List UInt8) : Option Buffer :=
  match b.data with
  | some block =>
    if b.len + bytes.length ≤ block.length then
      some ⟨some (block.take b.len ++ bytes ++ block.drop (b.len + bytes.length)),sizeT (b.len + bytes.length),b.cap⟩
    else none
  | none => none

def bufferAppend (growth : Growth) (b : Buffer) (bytes : List UInt8) : Option (Bool × Buffer) :=
  match b.lazily growth with
  | (false,b) => some (false,b)
  | (true,b) => do
    let (reserved,b) ← bufferReserve growth b (sizeT (b.len + bytes.length))
    if reserved then
      let b ← b.write bytes
      some (true,b)
    else some (false,b)

/-- A buffer that has not been used, or one whose capacity is that of its block. -/
inductive Buffer.Kept : Buffer → Prop
  | unused (cap : Nat) : Kept ⟨none,0,cap⟩
  | used {block : List UInt8} {len : Nat} (doublings : Nat) (size : block.length = 1024 * 2^doublings) (fits : len ≤ block.length) :
      Kept ⟨some block,len,1024 * 2^doublings⟩

section Appending
variable {growth : Growth} {b : Buffer}

theorem sizeT_double {cap : Nat} (small : cap < 2^63) : sizeT (cap * 2) = cap * 2 := by
  rw [show (cap : Int) * 2 = (cap * 2 : Nat) by push_cast; rfl,sizeT_natCast (by omega)]

theorem sizeT_sum {len count : Nat} (small : len + count < 2^64) : sizeT (len + count) = len + count := by
  rw [← Int.natCast_add,sizeT_natCast small]

theorem doubled_eq {doublings fuel reserved : Nat} (small : reserved ≤ 2^63) (some1 : 0 < fuel) (enough : 54 ≤ doublings + fuel) :
    ∃ more, doublings ≤ more ∧ reserved ≤ 1024 * 2^more ∧ doubled fuel (1024 * 2^doublings) reserved = some (1024 * 2^more) := by
  induction fuel generalizing doublings with
  | zero => exact absurd some1 (Nat.lt_irrefl 0)
  | succ fuel ih =>
    rw [doubled]
    split
    next short =>
      have below : 2^doublings < 2^53 := by omega
      have early : doublings < 53 := (Nat.pow_lt_pow_iff_right (Nat.lt_succ_self 1)).mp below
      have twice : 1024 * 2^doublings * 2 = 1024 * 2^(doublings+1) := by rw [Nat.pow_succ,Nat.mul_assoc]
      obtain ⟨more,later,room,ran⟩ := @ih (doublings+1) (by omega) (by omega)
      refine ⟨more,by omega,room,?_⟩
      rw [sizeT_double (by omega),twice,ran]
    next room => exact ⟨doublings,Nat.le_refl _,by omega,rfl⟩

theorem Buffer.Kept.lazily (kept : b.Kept) (growth : Growth) : (∃ cap, b.lazily growth = (false,⟨none,0,cap⟩) ∧ growth.grants 1024 = false) ∨
    ∃ block doublings, b.lazily growth = (true,⟨some block,b.len,1024 * 2^doublings⟩) ∧ block.length = 1024 * 2^doublings ∧
      b.len ≤ block.length ∧ block.take b.len = b.bytes := by
  cases kept with
  | unused cap =>
    cases granted : growth.grants 1024 with
    | false => exact .inl ⟨1024,by simp [Buffer.lazily,lazyInit,granted],rfl⟩
    | true =>
      exact .inr ⟨growth.contents 1024,0,by simp [Buffer.lazily,lazyInit,granted],growth.size 1024,Nat.zero_le _,by simp [Buffer.bytes]⟩
  | used doublings size fits => exact .inr ⟨_,doublings,rfl,size,fits,rfl⟩

theorem Buffer.write_eq {block bytes : List UInt8} {len cap : Nat} (room : len + bytes.length ≤ block.length)
    (small : len + bytes.length ≤ 2^63) :
    ∃ block', (⟨some block,len,cap⟩ : Buffer).write bytes = some ⟨some block',len + bytes.length,cap⟩ ∧
      block'.length = block.length ∧ block'.take (len + bytes.length) = block.take len ++ bytes := by
  refine ⟨block.take len ++ bytes ++ block.drop (len + bytes.length),?_,?_,?_⟩
  · simp only [Buffer.write,if_pos room,sizeT_sum (show len + bytes.length < 2^64 by omega)]
  · simp only [List.length_append,List.length_take,List.length_drop]
    omega
  · refine List.take_left' ?_
    rw [List.length_append,List.length_take]
    omega

theorem bufferReserve_eq {block : List UInt8} {len doublings reserved : Nat} (size : block.length = 1024 * 2^doublings)
    (small : reserved ≤ 2^63) :
    (∃ more rest, bufferReserve growth ⟨some block,len,1024 * 2^doublings⟩ reserved =
        some (true,⟨some (block ++ rest),len,1024 * 2^more⟩) ∧ (block ++ rest).length = 1024 * 2^more ∧ reserved ≤ 1024 * 2^more) ∨
      bufferReserve growth ⟨some block,len,1024 * 2^doublings⟩ reserved = some (false,⟨none,0,0⟩) ∧
        ∃ size, growth.grants size = false := by
  have begun : (⟨some block,len,1024 * 2^doublings⟩ : Buffer).lazily growth = (true,⟨some block,len,1024 * 2^doublings⟩) := rfl
  simp only [bufferReserve,begun]
  split
  · next room => exact .inl ⟨doublings,[],by rw [List.append_nil],by rwa [List.append_nil],room⟩
  · obtain ⟨more,later,room,ran⟩ := @doubled_eq doublings 65 reserved small (by decide) (by omega)
    have wider : 1024 * 2^doublings ≤ 1024 * 2^more := Nat.mul_le_mul_left _ (Nat.pow_le_pow_right Nat.two_pos later)
    rw [ran,Option.map_some]
    cases granted : growth.grants (1024 * 2^more) with
    | false => exact .inr ⟨rfl,_,granted⟩
    | true =>
      refine .inl ⟨more,_,rfl,?_,room⟩
      rw [List.length_append,Option.getD_some,List.length_drop,growth.size]
      omega

/-- The bytes come behind those that are there, or there is nothing left. -/
theorem bufferAppend_eq (kept : b.Kept) {bytes : List UInt8} (small : b.len + bytes.length ≤ 2^63) :
    (∃ after, bufferAppend growth b bytes = some (true,after) ∧ after.Kept ∧ after.len = b.len + bytes.length ∧
      after.bytes = b.bytes ++ bytes) ∨
    ∃ cap, bufferAppend growth b bytes = some (false,⟨none,0,cap⟩) ∧ ∃ size, growth.grants size = false := by
  rcases kept.lazily growth with ⟨cap,refused,grantless⟩ | ⟨block,doublings,begun,size,fits,same⟩
  · exact .inr ⟨cap,by simp only [bufferAppend,refused],1024,grantless⟩
  have sum := sizeT_sum (show b.len + bytes.length < 2^64 by omega)
  rcases @bufferReserve_eq growth block b.len doublings _ size small with
    ⟨more,rest,reserved,size',room⟩ | ⟨refused,grantless⟩
  · obtain ⟨block',written,length,there⟩ := @Buffer.write_eq (block ++ rest) bytes b.len (1024 * 2^more) (by omega) small
    have taken : (block ++ rest).take b.len = b.bytes := by rw [List.take_append_of_le_length fits,same]
    rw [size'] at length
    refine .inl ⟨⟨some block',b.len + bytes.length,1024 * 2^more⟩,?_,.used more length (by omega),rfl,?_⟩
    · simp only [bufferAppend,begun,sum,reserved,Option.bind_eq_bind,Option.bind_some,if_true,written]
    · rw [← taken]
      exact there
  · refine .inr ⟨0,?_,grantless⟩
    simp [bufferAppend,begun,sum,refused]

end Appending

end CSpock.Nbt
