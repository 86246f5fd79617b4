import CSpock.Nbt.Dump
import CSpock.Nbt.Lists

/-! The trees of cNBT as they lie in memory: structures, lists and arrays that are
allocated one by one. -/
namespace CSpock.Nbt
open CSpock.Library.Circular CSpock.Library.Endian

/-- The members of the payload that are numbers. -/
inductive Scalar where
  | byte (value : UInt8)
  | short (value : UInt16)
  | int (value : UInt32)
  | long (value : UInt64)
  | float (pattern : UInt32)
  | double (pattern : UInt64)
  deriving Repr, DecidableEq

def Scalar.payload : Scalar → NbtPayload
  | .byte value => .tagByte value
  | .short value => .tagShort value
  | .int value => .tagInt value
  | .long value => .tagLong value
  | .float pattern => .tagFloat pattern
  | .double pattern => .tagDouble pattern

/-- The member of the payload that the `type` field selects. -/
inductive Payload where
  | scalar (value : Scalar)
  | byteArray (data : Ptr) (length : Nat)
  | string (text : Ptr)
  | list (list : Ptr)
  | compound (list : Ptr)
  | intArray (data : Ptr) (length : Nat)
  deriving Repr, DecidableEq

inductive Cell where
  | node (name : Option Ptr) (payload : Payload)
  /-- An `nbt_node` of which only the type has been set. -/
  | sentinel (type : UInt8)
  /-- `nbt_list`; its `list_head` is in the links. -/
  | entry (data : Option Ptr)
  | block (bytes : List UInt8)
  deriving Repr, DecidableEq

structure Memory where
  cell : Ptr → Option Cell
  links : ListHeads

namespace Memory

def put (memory : Memory) (address : Ptr) (cell : Cell) : Memory :=
  { memory with cell := Function.update memory.cell address (some cell) }

def without (memory : Memory) (gone : List Ptr) : Memory :=
  { memory with cell := fun address => if address ∈ gone then none else memory.cell address }

/-- A second `free` of a pointer has no meaning. -/
def free (memory : Memory) (address : Ptr) : Option Memory :=
  if (memory.cell address).isSome then some (memory.without [address]) else none

def entryData (memory : Memory) (address : Ptr) : Option (Option Ptr) :=
  match memory.cell address with
  | some (.entry data) => some data
  | _ => none

/-- `free`, which leaves a null pointer alone. -/
def freeName (memory : Memory) : Option Ptr → Option Memory
  | some name => memory.free name
  | none => some memory

theorem put_cell (memory : Memory) (address : Ptr) (cell : Cell) : (memory.put address cell).cell address = some cell :=
  Function.update_self ..

theorem put_other (memory : Memory) {address other : Ptr} (cell : Cell) (different : other ≠ address) :
    (memory.put address cell).cell other = memory.cell other := Function.update_of_ne different ..

theorem put_self {memory : Memory} {address : Ptr} {cell : Cell} (there : memory.cell address = some cell) :
    memory.put address cell = memory := by
  rw [put,← there,Function.update_eq_self]

section Without
variable (memory : Memory) (gone more : List Ptr) (address : Ptr)

@[simp] theorem without_nil : memory.without [] = memory := by simp [without]

@[simp] theorem without_links : (memory.without gone).links = memory.links := rfl

theorem without_without : (memory.without gone).without more = memory.without (gone ++ more) := by
  simp only [without,Memory.mk.injEq,and_true]
  funext address
  simp only [List.mem_append]
  by_cases early : address ∈ gone <;> by_cases late : address ∈ more <;> simp [early,late]

variable {memory gone more address}

theorem without_cell (kept : address ∉ gone) : (memory.without gone).cell address = memory.cell address := if_neg kept

theorem without_congr (same : ∀ address, address ∈ gone ↔ address ∈ more) : memory.without gone = memory.without more := by
  simp only [without,same]

theorem entryData_eq {data : Option Ptr} (there : memory.cell address = some (.entry data)) :
    memory.entryData address = some data := by rw [entryData,there]

theorem free_eq {cell : Cell} (there : memory.cell address = some cell) :
    memory.free address = some (memory.without [address]) := by
  rw [free,if_pos (by rw [there]; rfl)]

end Without

end Memory

/-- The bytes of an array of `int32_t`, on a little endian machine. -/
def intBytes (data : List UInt32) : List UInt8 := data.flatMap fun entry => (bigEndian 4 entry.toNat).reverse

def NameAt (memory : Memory) : Option Ptr → Option (List UInt8) → List Ptr → Prop
  | none,none,cells => cells = []
  | some address,some name,cells => memory.cell address = some (.block (name ++ [0])) ∧ cells = [address]
  | _,_,_ => False

/-- The node that a list may have for the type of its elements. -/
def SentinelAt (memory : Memory) (data : Option Ptr) : Option UInt8 → List Ptr → Prop
  | some type,cells => ∃ address, data = some address ∧ memory.cell address = some (.sentinel type) ∧ cells = [address]
  | none,cells => data = none ∧ cells = []

/-- A list with its entries around it, as far as it is not in the entries. -/
def HeadAt (memory : Memory) (list : Ptr) (type : Option UInt8) (items front : List Ptr) : Prop :=
  ∃ data, memory.cell list = some (.entry data) ∧ SentinelAt memory data type front ∧ Circle memory.links list items

mutual

/-- A tree is at an address, and these are the addresses of all that belongs to it. Its lists have the types
of their elements if it is `typed`: filtering makes lists that have none. -/
def NodeAt (memory : Memory) (typed : Bool) (address : Ptr) : NbtNode → List Ptr → Prop
  | .mk name payload,cells => ∃ nameAddress member named owned,
    memory.cell address = some (.node nameAddress member) ∧ NameAt memory nameAddress name named ∧
      PayloadAt memory typed member payload owned ∧ cells = address :: (named ++ owned)

def PayloadAt (memory : Memory) (typed : Bool) (member : Payload) : NbtPayload → List Ptr → Prop
  | .tagByteArray data,cells => ∃ address, member = .byteArray address data.length ∧
      memory.cell address = some (.block data) ∧ cells = [address]
  | .tagIntArray data,cells => ∃ address, member = .intArray address data.length ∧
      memory.cell address = some (.block (intBytes data)) ∧ cells = [address]
  | .tagString text,cells => ∃ address, member = .string address ∧
      memory.cell address = some (.block (text ++ [0])) ∧ cells = [address]
  | .tagList type entries,cells => ∃ list items front owned, member = .list list ∧
      HeadAt memory list (if typed then some type else none) items front ∧
      EntriesAt memory typed items entries owned ∧ cells = list :: (front ++ owned)
  | .tagCompound entries,cells => ∃ list items front owned, member = .compound list ∧
      HeadAt memory list none items front ∧ EntriesAt memory typed items entries owned ∧ cells = list :: (front ++ owned)
  | payload,cells => ∃ value, member = .scalar value ∧ payload = value.payload ∧ cells = []

def EntriesAt (memory : Memory) (typed : Bool) : List Ptr → List NbtNode → List Ptr → Prop
  | items,[],cells => items = [] ∧ cells = []
  | items,node::nodes,cells => ∃ item rest data inner owned, items = item :: rest ∧
      memory.cell item = some (.entry (some data)) ∧ NodeAt memory typed data node inner ∧
      EntriesAt memory typed rest nodes owned ∧ cells = item :: (inner ++ owned)

end

/-- Two memories agree at some addresses. -/
structure Same (memory memory' : Memory) (cells : List Ptr) : Prop where
  cell : ∀ address ∈ cells, memory'.cell address = memory.cell address
  flink : ∀ address ∈ cells, memory'.links.flink address = memory.links.flink address
  blink : ∀ address ∈ cells, memory'.links.blink address = memory.links.blink address

section Frames
variable {memory memory' : Memory} {typed : Bool} {cells more : List Ptr}

theorem Same.mono (same : Same memory memory' cells) (part : ∀ address ∈ more, address ∈ cells) :
    Same memory memory' more :=
  ⟨fun address there => same.cell address (part address there),fun address there => same.flink address (part address there),
    fun address there => same.blink address (part address there)⟩

theorem NameAt.frame {address : Option Ptr} {name : Option (List UInt8)} (at' : NameAt memory address name cells)
    (same : Same memory memory' cells) : NameAt memory' address name cells := by
  cases address <;> cases name <;> simp only [NameAt] at at' ⊢
  · exact at'
  · obtain ⟨there,rfl⟩ := at'
    exact ⟨(same.cell _ (List.mem_singleton_self _)).trans there,rfl⟩

theorem SentinelAt.frame {data : Option Ptr} {type : Option UInt8} (at' : SentinelAt memory data type cells)
    (cell : ∀ address ∈ cells, memory'.cell address = memory.cell address) : SentinelAt memory' data type cells := by
  cases type <;> simp only [SentinelAt] at at' ⊢
  · exact at'
  · obtain ⟨address,rfl,there,rfl⟩ := at'
    exact ⟨address,rfl,(cell _ (List.mem_singleton_self _)).trans there,rfl⟩

theorem HeadAt.frame {list : Ptr} {type : Option UInt8} {items front : List Ptr} (at' : HeadAt memory list type items front)
    (same : Same memory memory' (list :: (front ++ more))) (inside : ∀ item ∈ items, item ∈ more) :
    HeadAt memory' list type items front := by
  obtain ⟨data,there,sentinel,circle⟩ := at'
  have part : ∀ one ∈ list :: items, one ∈ list :: (front ++ more) := fun one inner =>
    (List.mem_cons.mp inner).elim (fun same => same ▸ List.mem_cons_self ..)
      fun inner => List.mem_cons_of_mem _ (List.mem_append_right _ (inside one inner))
  refine ⟨data,(same.cell _ (List.mem_cons_self ..)).trans there,sentinel.frame (fun one part => same.cell one ?_),?_⟩
  · exact List.mem_cons_of_mem _ (List.mem_append_left _ part)
  · exact circle.congr (fun one inner => same.flink one (part one inner)) fun one inner => same.blink one (part one inner)

theorem EntriesAt.items_mem : {items : List Ptr} → {nodes : List NbtNode} → {cells : List Ptr} →
    EntriesAt memory typed items nodes cells → ∀ item ∈ items, item ∈ cells
  | _,[],_,at' => by
    obtain ⟨rfl,_⟩ := at'
    nofun
  | _,_::_,_,at' => by
    obtain ⟨item,rest,data,inner,owned,rfl,_,_,later,rfl⟩ := at'
    intro other there
    rcases List.mem_cons.mp there with rfl | there
    · exact List.mem_cons_self ..
    · exact List.mem_cons_of_mem _ (List.mem_append_right _ (EntriesAt.items_mem later other there))

mutual

theorem NodeAt.frame : (tree : NbtNode) → {address : Ptr} → {cells : List Ptr} →
    NodeAt memory typed address tree cells → Same memory memory' cells → NodeAt memory' typed address tree cells
  | .mk _ payload,_,_,at',same => by
    obtain ⟨nameAddress,member,named,owned,there,name,inside,rfl⟩ := at'
    refine ⟨nameAddress,member,named,owned,(same.cell _ (List.mem_cons_self ..)).trans there,?_,?_,rfl⟩
    · exact name.frame (same.mono fun _ part => List.mem_cons_of_mem _ (List.mem_append_left _ part))
    · exact PayloadAt.frame payload inside (same.mono fun _ part => List.mem_cons_of_mem _ (List.mem_append_right _ part))

theorem PayloadAt.frame : (payload : NbtPayload) → {member : Payload} → {cells : List Ptr} →
    PayloadAt memory typed member payload cells → Same memory memory' cells → PayloadAt memory' typed member payload cells
  | .tagByte _,_,_,at',_ => at'
  | .tagShort _,_,_,at',_ => at'
  | .tagInt _,_,_,at',_ => at'
  | .tagLong _,_,_,at',_ => at'
  | .tagFloat _,_,_,at',_ => at'
  | .tagDouble _,_,_,at',_ => at'
  | .tagByteArray _,_,_,at',same => by
    obtain ⟨address,member,there,rfl⟩ := at'
    exact ⟨address,member,(same.cell _ (List.mem_singleton_self _)).trans there,rfl⟩
  | .tagIntArray _,_,_,at',same => by
    obtain ⟨address,member,there,rfl⟩ := at'
    exact ⟨address,member,(same.cell _ (List.mem_singleton_self _)).trans there,rfl⟩
  | .tagString _,_,_,at',same => by
    obtain ⟨address,member,there,rfl⟩ := at'
    exact ⟨address,member,(same.cell _ (List.mem_singleton_self _)).trans there,rfl⟩
  | .tagList _ entries,_,_,at',same => by
    obtain ⟨list,items,front,owned,member,head,inside,rfl⟩ := at'
    refine ⟨list,items,front,owned,member,head.frame same inside.items_mem,?_,rfl⟩
    exact EntriesAt.frame entries inside (same.mono fun _ part => List.mem_cons_of_mem _ (List.mem_append_right _ part))
  | .tagCompound entries,_,_,at',same => by
    obtain ⟨list,items,front,owned,member,head,inside,rfl⟩ := at'
    refine ⟨list,items,front,owned,member,head.frame same inside.items_mem,?_,rfl⟩
    exact EntriesAt.frame entries inside (same.mono fun _ part => List.mem_cons_of_mem _ (List.mem_append_right _ part))

theorem EntriesAt.frame : (nodes : List NbtNode) → {items : List Ptr} → {cells : List Ptr} →
    EntriesAt memory typed items nodes cells → Same memory memory' cells → EntriesAt memory' typed items nodes cells
  | [],_,_,at',_ => at'
  | node::nodes,_,_,at',same => by
    obtain ⟨item,rest,data,inner,owned,items,there,first,later,rfl⟩ := at'
    refine ⟨item,rest,data,inner,owned,items,(same.cell _ (List.mem_cons_self ..)).trans there,?_,?_,rfl⟩
    · exact NodeAt.frame node first (same.mono fun _ part => List.mem_cons_of_mem _ (List.mem_append_left _ part))
    · exact EntriesAt.frame nodes later (same.mono fun _ part => List.mem_cons_of_mem _ (List.mem_append_right _ part))

end

theorem EntriesAt.relink : {nodes : List NbtNode} → {items cells : List Ptr} → EntriesAt memory typed items nodes cells →
    cells.Nodup → (∀ address ∈ cells, memory'.cell address = memory.cell address) →
    (∀ address ∈ cells, address ∉ items → memory'.links.flink address = memory.links.flink address ∧
      memory'.links.blink address = memory.links.blink address) → EntriesAt memory' typed items nodes cells
  | [],_,_,at',_,_,_ => at'
  | node::nodes,_,_,at',nodup,cell,links => by
    obtain ⟨item,rest,data,inner,owned,rfl,there,first,later,rfl⟩ := at'
    obtain ⟨outside,nodup⟩ := List.nodup_cons.mp nodup
    obtain ⟨_,nodup,apart⟩ := List.nodup_append.mp nodup
    have inside : ∀ address ∈ inner, address ∉ item :: rest := fun address here there => by
      rcases List.mem_cons.mp there with rfl | there
      · exact outside (List.mem_append_left _ here)
      · exact apart address here address (later.items_mem address there) rfl
    have both := fun address (here : address ∈ inner) =>
      links address (List.mem_cons_of_mem _ (List.mem_append_left _ here)) (inside address here)
    refine ⟨item,rest,data,inner,owned,rfl,(cell _ (List.mem_cons_self ..)).trans there,?_,?_,rfl⟩
    · exact NodeAt.frame node first ⟨fun address here => cell address (List.mem_cons_of_mem _ (List.mem_append_left _ here)),
        fun address here => (both address here).1,fun address here => (both address here).2⟩
    · refine EntriesAt.relink later nodup (fun address here => ?_) fun address here away => ?_
      · exact cell address (List.mem_cons_of_mem _ (List.mem_append_right _ here))
      · refine links address (List.mem_cons_of_mem _ (List.mem_append_right _ here)) fun there => ?_
        rcases List.mem_cons.mp there with rfl | there
        · exact outside (List.mem_append_right _ here)
        · exact away there

theorem EntriesAt.append : {nodes more : List NbtNode} → {items others cells cells' : List Ptr} →
    EntriesAt memory typed items nodes cells → EntriesAt memory typed others more cells' →
    EntriesAt memory typed (items ++ others) (nodes ++ more) (cells ++ cells')
  | [],_,_,_,_,_,at',at'' => by
    obtain ⟨rfl,rfl⟩ := at'
    exact at''
  | _::_,_,_,_,_,_,at',at'' => by
    obtain ⟨item,rest,data,inner,owned,rfl,there,first,later,rfl⟩ := at'
    exact ⟨item,rest ++ _,data,inner,owned ++ _,rfl,there,first,later.append at'',by simp⟩

def Live (memory : Memory) (cells : List Ptr) : Prop := ∀ address ∈ cells, memory.cell address ≠ none

theorem live_singleton {address : Ptr} {cell : Cell} (there : memory.cell address = some cell) : Live memory [address] :=
  fun _ here => List.mem_singleton.mp here ▸ there ▸ Option.some_ne_none _

theorem live_cons {address : Ptr} {cell : Cell} (there : memory.cell address = some cell) (live : Live memory cells) :
    Live memory (address :: cells) := by
  intro one here
  rcases List.mem_cons.mp here with rfl | here
  · exact there ▸ Option.some_ne_none _
  · exact live one here

theorem Live.append (live : Live memory cells) (live' : Live memory more) : Live memory (cells ++ more) :=
  fun one here => (List.mem_append.mp here).elim (live one) (live' one)

theorem NameAt.live {address : Option Ptr} {name : Option (List UInt8)} (at' : NameAt memory address name cells) :
    Live memory cells := by
  cases address <;> cases name <;> simp only [NameAt] at at'
  · exact at' ▸ nofun
  · exact at'.2 ▸ live_singleton at'.1

theorem HeadAt.live {list : Ptr} {type : Option UInt8} {items front : List Ptr} (at' : HeadAt memory list type items front) :
    Live memory (list :: front) := by
  obtain ⟨data,there,sentinel,_⟩ := at'
  refine live_cons there ?_
  cases type <;> simp only [SentinelAt] at sentinel
  · exact sentinel.2 ▸ nofun
  · obtain ⟨address,_,there,rfl⟩ := sentinel
    exact live_singleton there

mutual

theorem NodeAt.live : (tree : NbtNode) → {address : Ptr} → {cells : List Ptr} → NodeAt memory typed address tree cells →
    Live memory cells
  | .mk _ payload,_,_,at' => by
    obtain ⟨nameAddress,member,named,owned,there,name,inside,rfl⟩ := at'
    exact live_cons there (name.live.append (PayloadAt.live payload inside))

theorem PayloadAt.live : (payload : NbtPayload) → {member : Payload} → {cells : List Ptr} →
    PayloadAt memory typed member payload cells → Live memory cells
  | .tagByte _,_,_,⟨_,_,_,empty⟩ => empty ▸ nofun
  | .tagShort _,_,_,⟨_,_,_,empty⟩ => empty ▸ nofun
  | .tagInt _,_,_,⟨_,_,_,empty⟩ => empty ▸ nofun
  | .tagLong _,_,_,⟨_,_,_,empty⟩ => empty ▸ nofun
  | .tagFloat _,_,_,⟨_,_,_,empty⟩ => empty ▸ nofun
  | .tagDouble _,_,_,⟨_,_,_,empty⟩ => empty ▸ nofun
  | .tagByteArray _,_,_,⟨_,_,there,one⟩ => one ▸ live_singleton there
  | .tagIntArray _,_,_,⟨_,_,there,one⟩ => one ▸ live_singleton there
  | .tagString _,_,_,⟨_,_,there,one⟩ => one ▸ live_singleton there
  | .tagList _ entries,_,_,⟨_,_,_,_,_,head,inside,all⟩ => all ▸ head.live.append (EntriesAt.live entries inside)
  | .tagCompound entries,_,_,⟨_,_,_,_,_,head,inside,all⟩ => all ▸ head.live.append (EntriesAt.live entries inside)

theorem EntriesAt.live : (nodes : List NbtNode) → {items : List Ptr} → {cells : List Ptr} →
    EntriesAt memory typed items nodes cells → Live memory cells
  | [],_,_,⟨_,empty⟩ => empty ▸ nofun
  | node::nodes,_,_,at' => by
    obtain ⟨item,rest,data,inner,owned,_,there,first,later,rfl⟩ := at'
    exact live_cons there ((NodeAt.live node first).append (EntriesAt.live nodes later))

end

theorem Same.put {address : Ptr} {cell : Cell} (away : address ∉ cells) : Same memory (memory.put address cell) cells :=
  ⟨fun _ here => memory.put_other cell fun same => away (same ▸ here),fun _ _ => rfl,fun _ _ => rfl⟩

end Frames

def ListAt (memory : Memory) (typed : Bool) (list : Ptr) (type : Option UInt8) (nodes : List NbtNode) (cells : List Ptr) :
    Prop :=
  ∃ items front owned, HeadAt memory list type items front ∧ EntriesAt memory typed items nodes owned ∧
    cells = list :: (front ++ owned)

def sampleTree : NbtNode :=
  .mk none (.tagCompound [.mk none (.tagByte 1),.mk (some [65]) (.tagByte 2)])

def sampleMemory : Memory where
  cell
    | 1 => some (.node none (.compound 2))
    | 2 => some (.entry none)
    | 3 => some (.entry (some 4))
    | 4 => some (.node none (.scalar (.byte 1)))
    | 5 => some (.entry (some 6))
    | 6 => some (.node (some 7) (.scalar (.byte 2)))
    | 7 => some (.block [65,0])
    | _ => none
  links := {
    flink := fun address => if address = 2 then 3 else if address = 3 then 5 else 2
    blink := fun address => if address = 2 then 5 else if address = 5 then 3 else 2 }

theorem sampleMemory_at : NodeAt sampleMemory true 1 sampleTree [1,2,3,4,5,6,7] := by
  have circle : Circle sampleMemory.links 2 [3,5] := ⟨by simp [Library.Circular.Joined,sampleMemory],by decide⟩
  refine ⟨none,.compound 2,[],[2,3,4,5,6,7],rfl,rfl,?_,rfl⟩
  refine ⟨2,[3,5],[],[3,4,5,6,7],rfl,⟨none,rfl,⟨rfl,rfl⟩,circle⟩,?_,rfl⟩
  refine ⟨3,[5],4,[4],[5,6,7],rfl,rfl,⟨none,_,[],[],rfl,rfl,⟨.byte 1,rfl,rfl,rfl⟩,rfl⟩,?_,rfl⟩
  exact ⟨5,[],6,[6,7],[],rfl,rfl,⟨some 7,_,[7],[],rfl,⟨rfl,rfl⟩,⟨.byte 2,rfl,rfl,rfl⟩,rfl⟩,⟨rfl,rfl⟩,rfl⟩

end CSpock.Nbt
