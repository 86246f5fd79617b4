import CSpock.Nbt.Memory

/-! `nbt_free` and `nbt_free_list` of `cNBT/nbt_treeops.c`. A result of `none` is an access
to what is not allocated, or no more fuel. -/
namespace CSpock.Nbt
open CSpock.Library.Circular

/-- By the type of the node; `freeList` is called for a list. -/
def Memory.freePayload (freeList : Memory → Ptr → Option Memory) (memory : Memory) : Payload → Option Memory
  | .list list => freeList memory list
  | .compound list => freeList memory list
  | .byteArray data _ => memory.free data
  | .intArray data _ => memory.free data
  | .string text => memory.free text
  | .scalar _ => some memory

mutual

def nbtFreeList : Nat → Memory → Option Ptr → Option Memory
  | _,memory,none => some memory
  | 0,_,some _ => none
  | fuel+1,memory,some list => do
    let _ ← memory.entryData list
    let memory ← freeEntries fuel memory list (memory.links.flink list)
    let data ← memory.entryData list
    let memory ← memory.freeName data
    memory.free list

/-- The loop; the link onward is read before the entry goes. -/
def freeEntries : Nat → Memory → Ptr → Ptr → Option Memory
  | 0,_,_,_ => none
  | fuel+1,memory,list,current =>
    if current = list then some memory
    else do
      let data ← memory.entryData current
      let temp := memory.links.flink current
      let memory ← nbtFree fuel memory data
      let memory ← memory.free current
      freeEntries fuel memory list temp

def nbtFree : Nat → Memory → Option Ptr → Option Memory
  | _,memory,none => some memory
  | 0,_,some _ => none
  | fuel+1,memory,some tree =>
    match memory.cell tree with
    | some (.node name payload) => do
      let memory ← memory.freePayload (fun memory list => nbtFreeList fuel memory (some list)) payload
      let memory ← memory.freeName name
      memory.free tree
    | _ => none

end

section Results
variable {memory : Memory} {typed : Bool} {cells : List Ptr}

theorem Same.without {gone : List Ptr} (apart : ∀ address ∈ cells, address ∉ gone) :
    Same memory (memory.without gone) cells :=
  ⟨fun address there => Memory.without_cell (apart address there),fun _ _ => rfl,fun _ _ => rfl⟩

theorem NameAt.freeName {address : Option Ptr} {name : Option (List UInt8)} (at' : NameAt memory address name cells) :
    memory.freeName address = some (memory.without cells) := by
  cases address <;> cases name <;> simp only [NameAt] at at'
  · rw [at',Memory.without_nil]
    rfl
  · obtain ⟨there,rfl⟩ := at'
    exact Memory.free_eq there

theorem SentinelAt.freeName {data : Option Ptr} {type : Option UInt8} (at' : SentinelAt memory data type cells) :
    memory.freeName data = some (memory.without cells) := by
  cases type <;> simp only [SentinelAt] at at'
  · obtain ⟨rfl,rfl⟩ := at'
    rw [Memory.without_nil]
    rfl
  · obtain ⟨address,rfl,there,rfl⟩ := at'
    exact Memory.free_eq there

theorem HeadAt.free {fuel : Nat} {list : Ptr} {type : Option UInt8} {items front owned : List Ptr}
    (head : HeadAt memory list type items front) (nodup : (list :: (front ++ owned)).Nodup)
    (loop : freeEntries fuel memory list (memory.links.flink list) = some (memory.without owned)) :
    nbtFreeList (fuel + 1) memory (some list) = some (memory.without (list :: (front ++ owned))) := by
  obtain ⟨data,there,sentinel,_⟩ := head
  obtain ⟨outside,nodup⟩ := List.nodup_cons.mp nodup
  have apart := (List.nodup_append.mp nodup).2.2
  rw [List.mem_append,not_or] at outside
  have sentinel' := sentinel.frame (Same.without fun one here gone => apart one here one gone rfl).cell
  have still : (memory.without owned).cell list = some (.entry data) := (Memory.without_cell outside.2).trans there
  have last : ((memory.without owned).without front).cell list = some (.entry data) :=
    (Memory.without_cell outside.1).trans still
  simp only [nbtFreeList,Memory.entryData_eq there,loop,Memory.entryData_eq still,sentinel'.freeName,
    Memory.free_eq last,Option.bind_eq_bind,Option.bind_some]
  rw [Memory.without_without,Memory.without_without]
  exact congrArg some (Memory.without_congr fun address => by simp only [List.mem_append,List.mem_cons]; tauto)

mutual

theorem nbtFree_node : (tree : NbtNode) → {memory : Memory} → {address : Ptr} → {cells : List Ptr} →
    NodeAt memory typed address tree cells → cells.Nodup → {fuel : Nat} → cells.length < fuel →
    nbtFree fuel memory (some address) = some (memory.without cells)
  | .mk _ payload,memory,address,_,at',nodup,fuel + 1,enough => by
    obtain ⟨nameAddress,member,named,owned,there,name,inside,rfl⟩ := at'
    obtain ⟨outside,nodup⟩ := List.nodup_cons.mp nodup
    obtain ⟨_,nodup',apart⟩ := List.nodup_append.mp nodup
    rw [List.mem_append,not_or] at outside
    simp only [List.length_cons,List.length_append] at enough
    have freed := nbtFree_payload payload inside nodup' (show owned.length < fuel by omega)
    have name' := name.frame (Same.without fun one here gone => apart one here one gone rfl)
    have last : ((memory.without owned).without named).cell address = some (.node nameAddress member) :=
      (Memory.without_cell outside.1).trans ((Memory.without_cell outside.2).trans there)
    simp only [nbtFree,there,freed,name'.freeName,Memory.free_eq last,Option.bind_eq_bind,Option.bind_some]
    rw [Memory.without_without,Memory.without_without]
    exact congrArg some (Memory.without_congr fun one => by simp only [List.mem_append,List.mem_cons]; tauto)

theorem nbtFree_payload : (payload : NbtPayload) → {memory : Memory} → {member : Payload} → {cells : List Ptr} →
    PayloadAt memory typed member payload cells → cells.Nodup → {fuel : Nat} → cells.length < fuel →
    memory.freePayload (fun memory list => nbtFreeList fuel memory (some list)) member = some (memory.without cells)
  | .tagByte _,_,_,_,at',_,_,_ => by
    obtain ⟨value,rfl,_,rfl⟩ := at'
    rw [Memory.without_nil]
    rfl
  | .tagShort _,_,_,_,at',_,_,_ => by
    obtain ⟨value,rfl,_,rfl⟩ := at'
    rw [Memory.without_nil]
    rfl
  | .tagInt _,_,_,_,at',_,_,_ => by
    obtain ⟨value,rfl,_,rfl⟩ := at'
    rw [Memory.without_nil]
    rfl
  | .tagLong _,_,_,_,at',_,_,_ => by
    obtain ⟨value,rfl,_,rfl⟩ := at'
    rw [Memory.without_nil]
    rfl
  | .tagFloat _,_,_,_,at',_,_,_ => by
    obtain ⟨value,rfl,_,rfl⟩ := at'
    rw [Memory.without_nil]
    rfl
  | .tagDouble _,_,_,_,at',_,_,_ => by
    obtain ⟨value,rfl,_,rfl⟩ := at'
    rw [Memory.without_nil]
    rfl
  | .tagByteArray _,_,_,_,at',_,_,_ => by
    obtain ⟨address,rfl,there,rfl⟩ := at'
    exact Memory.free_eq there
  | .tagIntArray _,_,_,_,at',_,_,_ => by
    obtain ⟨address,rfl,there,rfl⟩ := at'
    exact Memory.free_eq there
  | .tagString _,_,_,_,at',_,_,_ => by
    obtain ⟨address,rfl,there,rfl⟩ := at'
    exact Memory.free_eq there
  | .tagList _ entries,_,_,_,at',nodup,fuel + 1,enough => by
    obtain ⟨list,items,front,owned,rfl,head,inside,rfl⟩ := at'
    have nodup' := (List.nodup_append.mp (List.nodup_cons.mp nodup).2).2.1
    have circle := head.choose_spec.2.2
    simp only [List.length_cons,List.length_append] at enough
    exact head.free nodup (nbtFree_entries entries inside circle.onward nodup' (by omega))
  | .tagCompound entries,_,_,_,at',nodup,fuel + 1,enough => by
    obtain ⟨list,items,front,owned,rfl,head,inside,rfl⟩ := at'
    have nodup' := (List.nodup_append.mp (List.nodup_cons.mp nodup).2).2.1
    have circle := head.choose_spec.2.2
    simp only [List.length_cons,List.length_append] at enough
    exact head.free nodup (nbtFree_entries entries inside circle.onward nodup' (by omega))

theorem nbtFree_entries : (nodes : List NbtNode) → {memory : Memory} → {list current : Ptr} → {items cells : List Ptr} →
    EntriesAt memory typed items nodes cells → Onward memory.links list current items → cells.Nodup →
    {fuel : Nat} → cells.length < fuel → freeEntries fuel memory list current = some (memory.without cells)
  | [],memory,list,current,items,_,at',onward,_,fuel + 1,enough => by
    obtain ⟨rfl,rfl⟩ := at'
    rw [freeEntries,if_pos onward.nil,Memory.without_nil]
  | node::nodes,memory,list,current,items,_,at',onward,nodup,fuel + 1,enough => by
    obtain ⟨item,rest,data,inner,owned,rfl,there,first,later,rfl⟩ := at'
    obtain ⟨rfl,away,onward⟩ := onward.cons
    obtain ⟨outside,nodup⟩ := List.nodup_cons.mp nodup
    obtain ⟨nodup,nodup',apart⟩ := List.nodup_append.mp nodup
    rw [List.mem_append,not_or] at outside
    simp only [List.length_cons,List.length_append] at enough
    have freed := nbtFree_node node first nodup (show inner.length < fuel by omega)
    have still : (memory.without inner).cell current = some (.entry (some data)) :=
      (Memory.without_cell outside.1).trans there
    have later' : EntriesAt (memory.without (inner ++ [current])) typed rest nodes owned := by
      refine EntriesAt.frame nodes later (.without fun one here gone => ?_)
      rcases List.mem_append.mp gone with gone | gone
      · exact apart one gone one here rfl
      · exact outside.2 (List.mem_singleton.mp gone ▸ here)
    have loop := nbtFree_entries nodes later' onward nodup' (show owned.length < fuel by omega)
    rw [freeEntries,if_neg away]
    simp only [Memory.entryData_eq there,freed,Memory.free_eq still,Option.bind_eq_bind,Option.bind_some]
    rw [Memory.without_without,loop,Memory.without_without]
    exact congrArg some (Memory.without_congr fun one => by simp only [List.mem_append,List.mem_cons]; tauto)

end

theorem nbtFreeList_list {list : Ptr} {type : Option UInt8} {nodes : List NbtNode} (at' : ListAt memory typed list type nodes cells)
    (nodup : cells.Nodup) {fuel : Nat} (enough : cells.length < fuel) :
    nbtFreeList fuel memory (some list) = some (memory.without cells) := by
  obtain ⟨items,front,owned,head,entries,rfl⟩ := at'
  obtain ⟨fuel,rfl⟩ := Nat.exists_eq_add_of_lt enough
  have circle := head.choose_spec.2.2
  have nodup' := (List.nodup_append.mp (List.nodup_cons.mp nodup).2).2.1
  refine head.free nodup (nbtFree_entries nodes entries circle.onward nodup' ?_)
  simp only [List.length_cons,List.length_append]
  omega

/-- What belongs to a tree is freed, each piece once, and every other tree stays. -/
theorem nbtFree_frees {tree : NbtNode} {address : Ptr} (at' : NodeAt memory typed address tree cells) (nodup : cells.Nodup)
    {fuel : Nat} (enough : cells.length < fuel) :
    ∃ memory', nbtFree fuel memory (some address) = some memory' ∧
      (∀ one, memory'.cell one = if one ∈ cells then none else memory.cell one) ∧
      ∀ (typed' : Bool) (other : Ptr) (tree' : NbtNode) (cells' : List Ptr), NodeAt memory typed' other tree' cells' →
        (∀ one ∈ cells', one ∉ cells) → NodeAt memory' typed' other tree' cells' :=
  ⟨memory.without cells,nbtFree_node tree at' nodup enough,fun _ => rfl,
    fun _ _ tree' _ there apart => NodeAt.frame tree' there (.without apart)⟩

end Results

theorem sampleMemory_freed : ∃ memory', nbtFree 8 sampleMemory (some 1) = some memory' ∧ ∀ one, memory'.cell one = none := by
  obtain ⟨memory',ran,gone,_⟩ := nbtFree_frees (show NodeAt sampleMemory true 1 sampleTree _ from sampleMemory_at)
    (by decide) (show _ < 8 by decide)
  refine ⟨memory',ran,fun one => (gone one).trans ?_⟩
  split
  · rfl
  · next away =>
    simp only [List.mem_cons,List.not_mem_nil,or_false,not_or] at away
    simp [sampleMemory,away]

end CSpock.Nbt
