import CSpock.Nbt.Dump

/-! The size functions of `datautils.c` against the binary dump of cNBT. Sums of sizes
wrap around as those of a `size_t` do. -/
namespace CSpock.Nbt
open CSpock.Library.Endian CSpock.Numeric

/-- The type, the length of the name and the name; without a name, its length all the same. -/
def sizeHead : Option (List UInt8) → Nat
  | none => 1 + 2
  | some name => 1 + 2 + (cString name).length

mutual

def sizeUnnamedNbt : NbtNode → Nat
  | .mk _ payload => sizePayload payload

def sizePayload : NbtPayload → Nat
  | .tagByte _ => 1
  | .tagShort _ => 2
  | .tagInt _ => 4
  | .tagLong _ => 8
  | .tagFloat _ => 4
  | .tagDouble _ => 8
  | .tagByteArray data => 4 + data.length
  | .tagIntArray data => 4 + data.length * 4
  | .tagNegativeIntArray length _ => sizeT (4 + length.toInt * 4)
  | .tagString text => 2 + (cString text).length
  | .tagList _ entries => sizeNbtList entries
  | .tagCompound entries => sizeNbtCompound entries

def sizeNbtList : List NbtNode → Nat
  | [] => 0
  | entry::entries => (sizeUnnamedNbt entry + sizeNbtList entries) % 2^64

/-- The 1 that the sum starts from is for the closing byte. -/
def sizeNbtCompound : List NbtNode → Nat
  | [] => 1
  | member::members => (sizeHead member.name + sizeUnnamedNbt member + sizeNbtCompound members) % 2^64

end

def sizeNbt (nbt : NbtNode) : Nat := (sizeHead nbt.name + sizeUnnamedNbt nbt) % 2^64

mutual

/-- A tree as the format has it: the members of a compound have a name, the elements of
a list have none. -/
def NbtNode.Formed (named : Bool) : NbtNode → Prop
  | .mk name payload => name.isSome = named ∧ payload.Formed

def NbtPayload.Formed : NbtPayload → Prop
  | .tagList _ entries => FormedEntries false entries
  | .tagCompound entries => FormedEntries true entries
  | _ => True

def FormedEntries (named : Bool) : List NbtNode → Prop
  | [] => True
  | entry::entries => entry.Formed named ∧ FormedEntries named entries

end

mutual

def NbtNode.lists : NbtNode → Nat
  | .mk _ payload => payload.lists

def NbtPayload.lists : NbtPayload → Nat
  | .tagList _ entries => 1 + listsIn entries
  | .tagCompound entries => listsIn entries
  | _ => 0

def listsIn : List NbtNode → Nat
  | [] => 0
  | entry::entries => entry.lists + listsIn entries

end

mutual

/-- By how much the lengths of the int arrays in a tree are under zero, at any depth. -/
def NbtNode.deficit : NbtNode → Nat
  | .mk _ payload => payload.deficit

def NbtPayload.deficit : NbtPayload → Nat
  | .tagNegativeIntArray length _ => length.toInt.natAbs
  | .tagList _ entries => deficitIn entries
  | .tagCompound entries => deficitIn entries
  | _ => 0

def deficitIn : List NbtNode → Nat
  | [] => 0
  | entry::entries => entry.deficit + deficitIn entries

end

theorem Dump.andThen_ok {first next : Dump} (ok : (first.andThen next).status = .ok) :
    first.status = .ok ∧ next.status = .ok ∧ (first.andThen next).bytes.length = first.bytes.length + next.bytes.length := by
  unfold Dump.andThen at ok ⊢
  split at ok
  next went =>
    rw [if_pos went]
    exact ⟨went,ok,List.length_append⟩
  next stopped => exact absurd ok stopped

theorem length_dumpStringBinary {name : List UInt8} (ok : (dumpStringBinary name).status = .ok) :
    (dumpStringBinary name).bytes.length = 2 + (cString name).length := by
  simp only [dumpStringBinary] at ok ⊢
  split at ok
  next => cases ok
  next short =>
    rw [if_neg short]
    simp [Dump.append]

theorem length_flatMap_bigEndian (data : List UInt32) :
    (data.flatMap fun entry => bigEndian 4 entry.toNat).length = data.length * 4 := by
  simp [List.length_flatMap]

theorem length_dumpIntArrayBinary (data : List UInt32) :
    (dumpIntArrayBinary data).bytes.length = 4 + data.length * 4 := by
  simp [dumpIntArrayBinary,Dump.append]

theorem length_head {named : Bool} {name : Option (List UInt8)} (right : name.isSome = named) {payload : NbtPayload}
    (ok : (dumpBinary named (.mk name payload)).status = .ok) : (dumpPayload payload).status = .ok ∧
      (dumpBinary named (.mk name payload)).bytes.length =
        (if named then sizeHead name else 0) + (dumpPayload payload).bytes.length := by
  simp only [dumpBinary] at ok ⊢
  obtain ⟨_,ok,typed⟩ := Dump.andThen_ok ok
  obtain ⟨text,ok,put⟩ := Dump.andThen_ok ok
  refine ⟨ok,?_⟩
  rw [typed,put]
  subst right
  cases name with
  | none => simp [Dump.append]
  | some name =>
    have length := length_dumpStringBinary text
    simp only [Dump.append,Option.isSome_some,if_true,List.length_singleton,length,sizeHead]
    omega

theorem sizeT_negative {length : Int32} (negative : length.toInt < 0) :
    (sizeT (4 + length.toInt * 4) + 4 * length.toInt.natAbs) % 2^64 = 4 := by
  have low := length.le_toInt
  unfold sizeT
  omega

mutual

/-- A dump that went well is longer than the size, up to a multiple of 2^64, by the five bytes in front of the
elements of each list and by four for each entry that an array lacks to have none. -/
theorem length_dumpBinary (named : Bool) : (node : NbtNode) → node.Formed named →
    (dumpBinary named node).status = .ok → (dumpBinary named node).bytes.length % 2^64 =
      ((if named then sizeHead node.name else 0) + sizeUnnamedNbt node + (5 * node.lists + 4 * node.deficit)) % 2^64
  | .mk name payload,formed,ok => by
    obtain ⟨went,length⟩ := length_head formed.1 ok
    have inner := length_dumpPayload payload formed.2 went
    rw [length,sizeUnnamedNbt,NbtNode.lists,NbtNode.deficit,NbtNode.name]
    omega

theorem length_dumpPayload : (payload : NbtPayload) → payload.Formed → (dumpPayload payload).status = .ok →
    (dumpPayload payload).bytes.length % 2^64 =
      (sizePayload payload + (5 * payload.lists + 4 * payload.deficit)) % 2^64
  | .tagByte _,_,_ => rfl
  | .tagShort _,_,_ => rfl
  | .tagInt _,_,_ => rfl
  | .tagLong _,_,_ => rfl
  | .tagFloat _,_,_ => rfl
  | .tagDouble _,_,_ => rfl
  | .tagByteArray data,_,_ => by
    simp [dumpPayload,dumpByteArrayBinary,Dump.append,sizePayload,NbtPayload.lists,NbtPayload.deficit]
  | .tagIntArray data,_,_ => by
    rw [dumpPayload,length_dumpIntArrayBinary]
    rfl
  | .tagNegativeIntArray length negative,_,_ => by
    have header := sizeT_negative negative
    simp only [dumpPayload,Dump.append,length_bigEndian,sizePayload,NbtPayload.lists,NbtPayload.deficit]
    omega
  | .tagString text,_,ok => by
    simp only [dumpPayload] at ok ⊢
    rw [length_dumpStringBinary ok]
    rfl
  | .tagList type entries,formed,ok => by
    simp only [dumpPayload] at ok ⊢
    split at ok
    next => cases ok
    next few =>
      split at ok
      next => cases ok
      next uniform =>
        obtain ⟨_,went,length⟩ := Dump.andThen_ok ok
        have inner := length_dumpEntries false entries formed went
        rw [if_neg few,if_neg uniform,length]
        simp only [Bool.false_eq_true,if_false,Nat.add_zero] at inner
        simp only [Dump.append,List.length_cons,length_bigEndian,sizePayload,NbtPayload.lists,NbtPayload.deficit]
        omega
  | .tagCompound entries,formed,ok => by
    simp only [dumpPayload] at ok ⊢
    obtain ⟨went,_,length⟩ := Dump.andThen_ok ok
    have inner := length_dumpEntries true entries formed went
    rw [length]
    simp only [if_true] at inner
    simp only [Dump.append,List.length_singleton,sizePayload,NbtPayload.lists,NbtPayload.deficit]
    omega

theorem length_dumpEntries (named : Bool) : (entries : List NbtNode) → FormedEntries named entries →
    (dumpEntries named entries).status = .ok →
    ((dumpEntries named entries).bytes.length + (if named then 1 else 0)) % 2^64 =
      ((if named then sizeNbtCompound entries else sizeNbtList entries) +
        (5 * listsIn entries + 4 * deficitIn entries)) % 2^64
  | [],_,_ => by cases named <;> rfl
  | entry::entries,formed,ok => by
    simp only [dumpEntries] at ok ⊢
    obtain ⟨first,rest,length⟩ := Dump.andThen_ok ok
    have head := length_dumpBinary named entry formed.1 first
    have tail := length_dumpEntries named entries formed.2 rest
    rw [length,listsIn,deficitIn,sizeNbtList,sizeNbtCompound]
    cases named
    · simp only [Bool.false_eq_true,if_false,Nat.add_zero,Nat.zero_add] at head tail ⊢
      omega
    · simp only [if_true] at head tail ⊢
      omega

end

/-- A size is right for the trees without a list and without an array of negative length. The five bytes of each
list and the four of each missing entry are missed in 64 bits. -/
theorem sizeNbt_iff {tree : NbtNode} (formed : tree.Formed true) (dumped : (nbtDumpBinary (some tree)).status = .ok) :
    (∃ bytes, encNbt (some tree) = some bytes ∧ sizeNbt tree = bytes.length % 2^64) ↔
      2^64 ∣ 5 * tree.lists + 4 * tree.deficit := by
  have length : (nbtDumpBinary (some tree)).bytes.length % 2^64 = _ := length_dumpBinary true tree formed dumped
  have written : encNbt (some tree) = some (nbtDumpBinary (some tree)).bytes := by simp [encNbt,dumped]
  rw [if_pos rfl] at length
  unfold sizeNbt
  constructor
  · rintro ⟨bytes,again,size⟩
    rw [Option.some.inj (again.symm.trans written)] at size
    omega
  · intro missing
    exact ⟨_,written,by omega⟩

/-- A compound whose one member is an empty list of bytes named "a". -/
def emptyListTree : NbtNode := .mk (some []) (.tagCompound [.mk (some [97]) (.tagList tagByte [])])

/-- An int array of length -1 beside a string, and one of two entries further down. -/
def negativeTree : NbtNode := .mk (some []) (.tagCompound [.mk (some [97]) (.tagNegativeIntArray (-1) (by decide)),
  .mk (some [98]) (.tagString [120]),.mk (some [99]) (.tagCompound [.mk (some [100]) (.tagIntArray [1,2])])])

theorem sizeNbt_iff_negative :
    ¬∃ bytes, encNbt (some negativeTree) = some bytes ∧ sizeNbt negativeTree = bytes.length % 2^64 := by
  have formed : negativeTree.Formed true := ⟨rfl,⟨rfl,trivial⟩,⟨rfl,trivial⟩,⟨rfl,⟨rfl,trivial⟩,trivial⟩,trivial⟩
  have missing : ¬2^64 ∣ 5 * negativeTree.lists + 4 * negativeTree.deficit := by decide
  rwa [sizeNbt_iff formed (by decide)]

theorem sizeNbt_fails : ¬∀ tree : NbtNode, tree.Formed true → (nbtDumpBinary (some tree)).status = .ok →
    ∃ bytes, encNbt (some tree) = some bytes ∧ sizeNbt tree = bytes.length % 2^64 := by
  intro sized
  obtain ⟨bytes,written,size⟩ := sized emptyListTree ⟨rfl,⟨rfl,trivial⟩,trivial⟩ (by decide)
  have dump : encNbt (some emptyListTree) = some [10,0,0,9,0,1,97,1,0,0,0,0,0] := by decide
  have eight : sizeNbt emptyListTree = 8 := by decide
  rw [dump,Option.some.injEq] at written
  rw [eight,← written] at size
  contradiction

end CSpock.Nbt
