import CSpock.Nbt.Buffer
import CSpock.Nbt.Clone

/-! The binary dump of cNBT as it goes through a tree in memory and appends to a buffer that grows. -/
namespace CSpock.Nbt
open CSpock.Library.Circular CSpock.Library.Endian

/-- How a dump ends: also for want of memory. -/
inductive DumpCode where
  | ok
  | err
  | emem
  | aborted
  deriving Repr, DecidableEq

def DumpStatus.code : DumpStatus → DumpCode
  | .ok => .ok
  | .err => .err
  | .aborted => .aborted

/-- A function that appends to the buffer that it is given. A result of `none` is an access to what is not allocated. -/
abbrev Dumper := Buffer → Option (DumpCode × Buffer)

namespace Dumper

def ended (code : DumpCode) : Dumper := fun b => some (code,b)

/-- Goes on unless there was an error. -/
def andThen (first next : Dumper) : Dumper := fun b => do
  let (code,b) ← first b
  if code = .ok then next b else some (code,b)

/-- Goes on with what is read from the memory. -/
def reading {α : Type} (read : Option α) (next : α → Dumper) : Dumper := fun b => do
  let value ← read
  next value b

end Dumper

def checkedAppend (growth : Growth) (bytes : List UInt8) : Dumper := fun b => do
  let (appended,b) ← bufferAppend growth b bytes
  some (if appended then .ok else .emem,b)

/-- A string that ends in the block that it is in. -/
def Memory.string (memory : Memory) (address : Ptr) : Option (List UInt8) := do
  let bytes ← memory.block address
  let text := cString bytes
  if bytes.length ≤ text.length then none else some text

def Memory.array (memory : Memory) (address : Ptr) (length : Nat) : Option (List UInt8) := do
  let bytes ← memory.block address
  if bytes.length < length then none else some (bytes.take length)

def Payload.type : Payload → UInt8
  | .scalar (.byte _) => tagByte
  | .scalar (.short _) => tagShort
  | .scalar (.int _) => tagInt
  | .scalar (.long _) => tagLong
  | .scalar (.float _) => tagFloat
  | .scalar (.double _) => tagDouble
  | .byteArray _ _ => tagByteArray
  | .string _ => tagString
  | .list _ => tagList
  | .compound _ => tagCompound
  | .intArray _ _ => tagIntArray

def Memory.nodeType (memory : Memory) (address : Ptr) : Option UInt8 :=
  match memory.cell address with
  | some (.node _ payload) => some payload.type
  | some (.sentinel type) => some type
  | _ => none

/-- The type of the sentinel, if there is one. -/
def Memory.sentinelType (memory : Memory) (list : Ptr) : Option UInt8 := do
  match ← memory.entryData list with
  | some data => memory.nodeType data
  | none => some tagInvalid

/-- The loop of `list_is_homogenous` and what comes after it. An inner `none` is a failed assertion. -/
def homogenousFrom (memory : Memory) (list : Ptr) : Nat → Ptr → UInt8 → Option (Option UInt8)
  | 0,_,_ => none
  | fuel+1,pos,type =>
    if pos = list then if type = tagInvalid then (memory.sentinelType list).map some else some (some type)
    else do
      match ← memory.entryData pos with
      | none => some none
      | some data =>
        let current ← memory.nodeType data
        if current = tagInvalid then some none
        else
          let type := if type = tagInvalid then current else type
          if type ≠ current then some (some tagInvalid)
          else homogenousFrom memory list fuel (memory.links.flink pos) type

def writeString (growth : Growth) (memory : Memory) (name : Ptr) : Dumper :=
  .reading (memory.string name) fun text =>
    if text.length > 32767 then .ended .err
    else (checkedAppend growth (bigEndian 2 text.length)).andThen (checkedAppend growth text)

def writeByteArray (growth : Growth) (memory : Memory) (data : Ptr) (length : Nat) : Dumper :=
  (checkedAppend growth (bigEndian 4 length)).andThen (.reading (memory.array data length) (checkedAppend growth))

def writeInts (growth : Growth) : Nat → List UInt8 → Dumper
  | 0,_ => .ended .ok
  | count+1,bytes => (checkedAppend growth (bytes.take 4).reverse).andThen (writeInts growth count (bytes.drop 4))

def writeIntArray (growth : Growth) (memory : Memory) (data : Ptr) (length : Nat) : Dumper :=
  (checkedAppend growth (bigEndian 4 length)).andThen
    (.reading (memory.array data (length * 4)) (writeInts growth length))

def writeScalar (growth : Growth) : Scalar → Dumper
  | .byte value => checkedAppend growth [value]
  | .short value => checkedAppend growth (bigEndian 2 value.toNat)
  | .int value => checkedAppend growth (bigEndian 4 value.toNat)
  | .long value => checkedAppend growth (bigEndian 8 value.toNat)
  | .float pattern => checkedAppend growth (bigEndian 4 pattern.toNat)
  | .double pattern => checkedAppend growth (bigEndian 8 pattern.toNat)

def writeName (growth : Growth) (memory : Memory) : Option Ptr → Dumper
  | some name => writeString growth memory name
  | none => .ended .ok

def writeList (growth : Growth) (memory : Memory) (steps : Nat) (entries : Ptr → Dumper) (list : Ptr) : Dumper :=
  .reading (homogenousFrom memory list steps (memory.links.flink list) tagInvalid) fun
    | none => .ended .aborted
    | some type => .reading (listLength memory.links list steps (memory.links.flink list) 0) fun len =>
      if len > 2147483647 then .ended .err
      else if type = tagInvalid then .ended .aborted
      else (checkedAppend growth [type]).andThen ((checkedAppend growth (bigEndian 4 len)).andThen
        (entries (memory.links.flink list)))

def writeCompound (growth : Growth) (memory : Memory) (entries : Ptr → Dumper) (list : Ptr) : Dumper :=
  (entries (memory.links.flink list)).andThen (checkedAppend growth [0])

/-- By the type of the node; `writeEntries` is called for the entries of a list. -/
def writePayload (growth : Growth) (memory : Memory) (steps : Nat) (writeEntries : Bool → Ptr → Ptr → Dumper) : Payload → Dumper
  | .scalar value => writeScalar growth value
  | .byteArray data length => writeByteArray growth memory data length
  | .intArray data length => writeIntArray growth memory data length
  | .string text => writeString growth memory text
  | .list list => writeList growth memory steps (writeEntries false list) list
  | .compound list => writeCompound growth memory (writeEntries true list) list

mutual

def writeBinary (growth : Growth) (memory : Memory) : Nat → Bool → Ptr → Dumper
  | 0,_,_ => fun _ => none
  | fuel+1,dumpType,tree =>
    match memory.cell tree with
    | some (.node name payload) =>
      (if dumpType then checkedAppend growth [payload.type] else .ended .ok).andThen
        ((writeName growth memory name).andThen (writePayload growth memory fuel (writeEntries growth memory fuel) payload))
    | _ => fun _ => none

/-- The loops of `dump_list_binary` and `dump_compound_binary`. -/
def writeEntries (growth : Growth) (memory : Memory) : Nat → Bool → Ptr → Ptr → Dumper
  | 0,_,_,_ => fun _ => none
  | fuel+1,dumpType,list,pos =>
    if pos = list then .ended .ok
    else .reading (memory.entryData pos) fun
      | none => fun _ => none
      | some data => (writeBinary growth memory fuel dumpType data).andThen
        (writeEntries growth memory fuel dumpType list (memory.links.flink pos))

end

/-- What is in the buffer at the end, with `errno`. -/
def nbtDumpBinaryAt (growth : Growth) (memory : Memory) (fuel : Nat) : Option Ptr → Option (DumpCode × Buffer)
  | none => some (.ok,.init)
  | some tree => writeBinary growth memory fuel true tree .init

/-- `enc_nbt` of a tree in memory. An inner `none` is a stop at an assertion. -/
def encNbtAt (growth : Growth) (memory : Memory) (fuel : Nat) (source : Option Ptr) : Option (Option (List UInt8)) := do
  let (code,b) ← nbtDumpBinaryAt growth memory fuel source
  some (if code = .aborted then none else some b.bytes)

/-- It appends what the dump of a tree is, or has no memory left. -/
def Writes (growth : Growth) (dumper : Dumper) (dump : Dump) : Prop :=
  ∀ b : Buffer, b.Kept → b.len + dump.bytes.length ≤ 2^63 →
    (∃ after, dumper b = some (dump.status.code,after) ∧ after.Kept ∧ after.len = b.len + dump.bytes.length ∧
      after.bytes = b.bytes ++ dump.bytes) ∨
    ∃ cap, dumper b = some (.emem,⟨none,0,cap⟩) ∧ ∃ size, growth.grants size = false

section Writing
variable {growth : Growth} {memory : Memory}

theorem checkedAppend_writes (growth : Growth) (bytes : List UInt8) : Writes growth (checkedAppend growth bytes) (.append bytes) := by
  intro b kept small
  rcases @bufferAppend_eq growth b kept bytes small with ⟨after,appended,same⟩ | ⟨cap,refused,grantless⟩
  · exact .inl ⟨after,by simp only [checkedAppend,appended]; rfl,same⟩
  · exact .inr ⟨cap,by simp only [checkedAppend,refused]; rfl,grantless⟩

theorem ended_writes (growth : Growth) (status : DumpStatus) : Writes growth (.ended status.code) ⟨[],status⟩ :=
  fun b kept _ => .inl ⟨b,rfl,kept,rfl,(List.append_nil _).symm⟩

theorem Writes.andThen {first next : Dumper} {dump dump' : Dump} (writes : Writes growth first dump)
    (writes' : Writes growth next dump') : Writes growth (first.andThen next) (dump.andThen dump') := by
  intro b kept small
  have code_ok : ∀ status : DumpStatus, status.code = .ok ↔ status = .ok := by
    intro status
    cases status <;> simp [DumpStatus.code]
  unfold Dump.andThen at small ⊢
  split at small
  · next ok =>
    simp only [if_pos ok]
    rw [List.length_append] at small ⊢
    rcases writes b kept (by omega) with ⟨middle,ran,kept',len,bytes⟩ | ⟨cap,ran,grantless⟩
    · rcases writes' middle kept' (by omega) with ⟨after,ran',kept'',len',bytes'⟩ | ⟨cap,ran',grantless⟩
      · refine .inl ⟨after,?_,kept'',by omega,by rw [bytes',bytes,List.append_assoc]⟩
        simp only [Dumper.andThen,ran,Option.bind_eq_bind,Option.bind_some,(code_ok _).mpr ok,if_true,ran']
      · refine .inr ⟨cap,?_,grantless⟩
        simp only [Dumper.andThen,ran,Option.bind_eq_bind,Option.bind_some,(code_ok _).mpr ok,if_true,ran']
    · exact .inr ⟨cap,by simp [Dumper.andThen,ran],grantless⟩
  · next failed =>
    simp only [if_neg failed]
    rcases writes b kept small with ⟨after,ran,rest⟩ | ⟨cap,ran,grantless⟩
    · refine .inl ⟨after,?_,rest⟩
      simp only [Dumper.andThen,ran,Option.bind_eq_bind,Option.bind_some,if_neg (mt (code_ok _).mp failed)]
    · exact .inr ⟨cap,by simp [Dumper.andThen,ran],grantless⟩

theorem Writes.reading {α : Type} {read : Option α} {value : α} {next : α → Dumper} {dump : Dump} (found : read = some value)
    (writes : Writes growth (next value) dump) : Writes growth (.reading read next) dump := by
  subst found
  exact writes

theorem append_split (front back : List UInt8) : Dump.append (front ++ back) = (Dump.append front).andThen (.append back) := rfl

theorem Memory.block_eq {address : Ptr} {bytes : List UInt8} (there : memory.cell address = some (.block bytes)) :
    memory.block address = some bytes := by rw [Memory.block,there]

theorem string_eq {address : Ptr} {text : List UInt8} (there : memory.cell address = some (.block (text ++ [0]))) :
    memory.string address = some (cString text) := by
  have short := cString_length text
  have ends : ¬(text ++ [0]).length ≤ (cString text).length := by
    rw [List.length_append,List.length_singleton]
    omega
  simp only [Memory.string,Memory.block_eq there,Option.bind_eq_bind,Option.bind_some,cString_terminated,if_neg ends]

theorem array_eq {address : Ptr} {bytes : List UInt8} (there : memory.cell address = some (.block bytes)) :
    memory.array address bytes.length = some bytes := by
  simp [Memory.array,Memory.block_eq there]

theorem writeString_writes {name : Ptr} {text : List UInt8} (there : memory.cell name = some (.block (text ++ [0]))) :
    Writes growth (writeString growth memory name) (dumpStringBinary text) := by
  refine .reading (string_eq there) ?_
  dsimp only [dumpStringBinary]
  split
  · exact ended_writes growth .err
  · rw [append_split]
    exact (checkedAppend_writes _ _).andThen (checkedAppend_writes _ _)

theorem writeByteArray_writes {address : Ptr} {data : List UInt8} (there : memory.cell address = some (.block data)) :
    Writes growth (writeByteArray growth memory address data.length) (dumpByteArrayBinary data) := by
  rw [dumpByteArrayBinary,append_split]
  exact (checkedAppend_writes _ _).andThen (.reading (array_eq there) (checkedAppend_writes _ _))

theorem writeInts_writes (growth : Growth) (data : List UInt32) :
    Writes growth (writeInts growth data.length (intBytes data)) (.append (data.flatMap fun entry => bigEndian 4 entry.toNat)) := by
  induction data with
  | nil => exact ended_writes growth .ok
  | cons entry data ih =>
    have four : ((bigEndian 4 entry.toNat).reverse).length = 4 := by rw [List.length_reverse,length_bigEndian]
    rw [List.flatMap_cons,append_split,List.length_cons,writeInts,intBytes,List.flatMap_cons,List.take_left' four,
      List.drop_left' four,List.reverse_reverse]
    exact (checkedAppend_writes _ _).andThen ih

theorem writeIntArray_writes {address : Ptr} {data : List UInt32} (there : memory.cell address = some (.block (intBytes data))) :
    Writes growth (writeIntArray growth memory address data.length) (dumpIntArrayBinary data) := by
  have size : data.length * 4 = (intBytes data).length := by rw [length_intBytes,Nat.mul_comm]
  rw [dumpIntArrayBinary,append_split,writeIntArray,size]
  exact (checkedAppend_writes _ _).andThen (.reading (array_eq there) (writeInts_writes growth data))

theorem writeScalar_writes (growth : Growth) (value : Scalar) : Writes growth (writeScalar growth value) (dumpPayload value.payload) := by
  cases value <;> rw [Scalar.payload,dumpPayload] <;> exact checkedAppend_writes _ _

theorem writeName_writes {address : Option Ptr} {name : Option (List UInt8)} {cells : List Ptr}
    (at' : NameAt memory address name cells) :
    Writes growth (writeName growth memory address) (name.elim (.append []) dumpStringBinary) := by
  cases address <;> cases name <;> simp only [NameAt] at at'
  · exact ended_writes growth .ok
  · exact writeString_writes at'.1

theorem scalar_type {value : Scalar} {payload : NbtPayload} (same : payload = value.payload) :
    (Payload.scalar value).type = payload.type := by
  subst same
  cases value <;> rfl

theorem payloadAt_type {typed : Bool} {member : Payload} {payload : NbtPayload} {cells : List Ptr}
    (at' : PayloadAt memory typed member payload cells) : member.type = payload.type := by
  cases payload with
  | tagByteArray => obtain ⟨_,rfl,_⟩ := at'; rfl
  | tagIntArray => obtain ⟨_,rfl,_⟩ := at'; rfl
  | tagString => obtain ⟨_,rfl,_⟩ := at'; rfl
  | tagList => obtain ⟨_,_,_,_,rfl,_⟩ := at'; rfl
  | tagCompound => obtain ⟨_,_,_,_,rfl,_⟩ := at'; rfl
  | _ => obtain ⟨_,rfl,same,_⟩ := at'; exact scalar_type same

theorem nodeType_eq {typed : Bool} {address : Ptr} {tree : NbtNode} {cells : List Ptr} (at' : NodeAt memory typed address tree cells) :
    memory.nodeType address = some tree.type := by
  obtain ⟨name,payload⟩ := tree
  obtain ⟨_,member,_,_,there,_,inside,_⟩ := at'
  rw [Memory.nodeType,there]
  exact congrArg some (payloadAt_type inside)

theorem type_valid (tree : NbtNode) : tree.type ≠ tagInvalid := by
  obtain ⟨name,payload⟩ := tree
  cases payload <;> simp only [NbtNode.type,NbtNode.payload,NbtPayload.type] <;> decide

theorem EntriesAt.length_items {typed : Bool} : {nodes : List NbtNode} → {items cells : List Ptr} →
    EntriesAt memory typed items nodes cells → items.length = nodes.length ∧ items.length ≤ cells.length
  | [],_,_,at' => by
    obtain ⟨rfl,_⟩ := at'
    exact ⟨rfl,Nat.zero_le _⟩
  | _::_,_,_,at' => by
    obtain ⟨item,rest,data,inner,owned,rfl,_,_,later,rfl⟩ := at'
    have ih := later.length_items
    simp only [List.length_cons,List.length_append]
    omega

theorem homogenousFrom_later {typed : Bool} {list : Ptr} {type : UInt8} (valid : type ≠ tagInvalid) : {nodes : List NbtNode} →
    {items cells : List Ptr} → {fuel : Nat} → {pos : Ptr} → EntriesAt memory typed items nodes cells →
    Onward memory.links list pos items → items.length < fuel →
    homogenousFrom memory list fuel pos type = some (some (if nodes.all (·.type == type) then type else tagInvalid))
  | [],_,_,fuel+1,pos,at',onward,_ => by
    obtain ⟨rfl,_⟩ := at'
    rw [homogenousFrom,if_pos onward.nil,if_neg valid]
    rfl
  | node::nodes,_,_,fuel+1,pos,at',onward,enough => by
    obtain ⟨item,rest,data,inner,owned,rfl,there,first,later,rfl⟩ := at'
    obtain ⟨rfl,away,onward⟩ := onward.cons
    simp only [homogenousFrom,if_neg away,Memory.entryData_eq there,nodeType_eq first,Option.bind_eq_bind,Option.bind_some,
      if_neg (type_valid node),if_neg valid]
    by_cases same : type = node.type
    · rw [if_neg (not_not.mpr same),homogenousFrom_later valid later onward (by simpa using enough)]
      simp [same]
    · rw [if_pos same]
      simp [Ne.symm same]

theorem homogenousFrom_eq {typed : Bool} {list data : Ptr} {sentinel : UInt8} {nodes : List NbtNode} {items cells : List Ptr} {fuel : Nat}
    (there : memory.cell list = some (.entry (some data))) (front : memory.cell data = some (.sentinel sentinel))
    (at' : EntriesAt memory typed items nodes cells) (onward : Onward memory.links list (memory.links.flink list) items)
    (enough : items.length < fuel) :
    homogenousFrom memory list fuel (memory.links.flink list) tagInvalid = some (some (listIsHomogenous sentinel nodes)) := by
  obtain ⟨fuel,rfl⟩ := Nat.exists_eq_add_of_lt enough
  cases nodes with
  | nil =>
    obtain ⟨rfl,_⟩ := at'
    have type : memory.sentinelType list = some sentinel := by
      simp [Memory.sentinelType,Memory.entryData_eq there,Memory.nodeType,front]
    rw [homogenousFrom,if_pos onward.nil,if_pos rfl,type]
    rfl
  | cons node nodes =>
    obtain ⟨item,rest,data',inner,owned,rfl,there',first,later,rfl⟩ := at'
    obtain ⟨same,away,onward⟩ := onward.cons
    simp only [homogenousFrom,same,if_neg away,Memory.entryData_eq there',nodeType_eq first,Option.bind_eq_bind,Option.bind_some,
      if_neg (type_valid node),if_true,ne_eq,not_true_eq_false,if_false]
    rw [homogenousFrom_later (type_valid node) later onward (by simp only [List.length_cons]; omega)]
    rfl

theorem append_andThen (front back : List UInt8) (next : Dump) :
    (Dump.append (front ++ back)).andThen next = (Dump.append front).andThen ((Dump.append back).andThen next) := by
  simp [Dump.andThen,Dump.append]

theorem writeList_writes {list : Ptr} {sentinel : UInt8} {nodes : List NbtNode} {items front owned : List Ptr} {fuel : Nat}
    {entries : Ptr → Dumper} (head : HeadAt memory list (some sentinel) items front) (inside : EntriesAt memory true items nodes owned)
    (enough : owned.length < fuel) (writes : Writes growth (entries (memory.links.flink list)) (dumpEntries false nodes)) :
    Writes growth (writeList growth memory fuel entries list) (dumpPayload (.tagList sentinel nodes)) := by
  obtain ⟨_,there,⟨data,rfl,found,_⟩,circle⟩ := head
  obtain ⟨length,few⟩ := inside.length_items
  refine .reading (homogenousFrom_eq there found inside circle.onward (by omega)) ?_
  refine .reading (listLength_circle circle (by omega)) ?_
  rw [dumpPayload,length]
  split
  · exact ended_writes growth .err
  split
  · exact ended_writes growth .aborted
  rw [← @List.singleton_append _ _ (bigEndian 4 nodes.length),append_andThen]
  exact (checkedAppend_writes _ _).andThen ((checkedAppend_writes _ _).andThen writes)

mutual

theorem writeBinary_writes (dumpType : Bool) : (tree : NbtNode) → {address : Ptr} → {cells : List Ptr} →
    NodeAt memory true address tree cells → {fuel : Nat} → cells.length < fuel →
    Writes growth (writeBinary growth memory fuel dumpType address) (dumpBinary dumpType tree)
  | .mk name payload,address,_,at',fuel + 1,enough => by
    obtain ⟨nameAddress,member,named,owned,there,name',inside,rfl⟩ := at'
    simp only [List.length_cons,List.length_append] at enough
    have rest := (writeName_writes name').andThen (writePayload_writes payload inside (show owned.length < fuel by omega))
    have first : Writes growth (if dumpType then checkedAppend growth [member.type] else .ended .ok)
        (.append (if dumpType then [payload.type] else [])) := by
      cases dumpType with
      | false => exact ended_writes growth .ok
      | true =>
        rw [if_pos rfl,if_pos rfl,payloadAt_type inside]
        exact checkedAppend_writes _ _
    simp only [writeBinary,there,dumpBinary]
    cases name with
    | none => exact first.andThen rest
    | some name => exact first.andThen rest

theorem writePayload_writes : (payload : NbtPayload) → {member : Payload} → {cells : List Ptr} →
    PayloadAt memory true member payload cells → {fuel : Nat} → cells.length < fuel →
    Writes growth (writePayload growth memory fuel (writeEntries growth memory fuel) member) (dumpPayload payload)
  | .tagByte _,_,_,⟨value,member,same,_⟩,_,_ => member ▸ same ▸ writeScalar_writes growth value
  | .tagShort _,_,_,⟨value,member,same,_⟩,_,_ => member ▸ same ▸ writeScalar_writes growth value
  | .tagInt _,_,_,⟨value,member,same,_⟩,_,_ => member ▸ same ▸ writeScalar_writes growth value
  | .tagLong _,_,_,⟨value,member,same,_⟩,_,_ => member ▸ same ▸ writeScalar_writes growth value
  | .tagFloat _,_,_,⟨value,member,same,_⟩,_,_ => member ▸ same ▸ writeScalar_writes growth value
  | .tagDouble _,_,_,⟨value,member,same,_⟩,_,_ => member ▸ same ▸ writeScalar_writes growth value
  | .tagByteArray _,_,_,⟨_,member,there,_⟩,_,_ => member ▸ writeByteArray_writes there
  | .tagIntArray _,_,_,⟨_,member,there,_⟩,_,_ => member ▸ writeIntArray_writes there
  | .tagString _,_,_,⟨_,member,there,_⟩,_,_ => member ▸ writeString_writes there
  | .tagList _ entries,_,_,at',fuel,enough => by
    obtain ⟨list,items,front,owned,rfl,head,inside,rfl⟩ := at'
    simp only [List.length_cons,List.length_append] at enough
    have circle := head.choose_spec.2.2
    exact writeList_writes head inside (by omega) (writeEntries_writes false entries inside circle.onward (by omega))
  | .tagCompound entries,_,_,at',fuel,enough => by
    obtain ⟨list,items,front,owned,rfl,head,inside,rfl⟩ := at'
    simp only [List.length_cons,List.length_append] at enough
    have circle := head.choose_spec.2.2
    rw [dumpPayload]
    exact (writeEntries_writes true entries inside circle.onward (by omega)).andThen (checkedAppend_writes _ _)

theorem writeEntries_writes (dumpType : Bool) : (nodes : List NbtNode) → {list pos : Ptr} → {items cells : List Ptr} →
    EntriesAt memory true items nodes cells → Onward memory.links list pos items → {fuel : Nat} → cells.length < fuel →
    Writes growth (writeEntries growth memory fuel dumpType list pos) (dumpEntries dumpType nodes)
  | [],list,pos,_,_,at',onward,fuel + 1,_ => by
    obtain ⟨rfl,_⟩ := at'
    rw [writeEntries,if_pos onward.nil,dumpEntries]
    exact ended_writes growth .ok
  | node::nodes,list,pos,_,_,at',onward,fuel + 1,enough => by
    obtain ⟨item,rest,data,inner,owned,rfl,there,first,later,rfl⟩ := at'
    obtain ⟨rfl,away,onward⟩ := onward.cons
    simp only [List.length_cons,List.length_append] at enough
    rw [writeEntries,if_neg away,dumpEntries]
    refine .reading (Memory.entryData_eq there) ?_
    exact (writeBinary_writes dumpType node first (by omega)).andThen (writeEntries_writes dumpType nodes later onward (by omega))

end

/-- The dump of a tree in memory is the dump of the tree, or there is no memory and the buffer is empty. Then nothing is
encoded, and nobody is told. -/
theorem encNbtAt_dumps {tree : NbtNode} {address : Ptr} {cells : List Ptr} (at' : NodeAt memory true address tree cells)
    {fuel : Nat} (enough : cells.length < fuel) (small : (nbtDumpBinary (some tree)).bytes.length ≤ 2^63) :
    (encNbtAt growth memory fuel (some address) = some (encNbt (some tree)) ∧
      ∃ b, nbtDumpBinaryAt growth memory fuel (some address) = some ((nbtDumpBinary (some tree)).status.code,b) ∧
        b.bytes = (nbtDumpBinary (some tree)).bytes) ∨
    encNbtAt growth memory fuel (some address) = some (some []) ∧ (∃ size, growth.grants size = false) ∧
      ∃ cap, nbtDumpBinaryAt growth memory fuel (some address) = some (.emem,⟨none,0,cap⟩) := by
  have aborted : ∀ status : DumpStatus, status.code = .aborted ↔ status = .aborted := by
    intro status
    cases status <;> simp [DumpStatus.code]
  rcases writeBinary_writes true tree at' enough .init (.unused 0) ((Nat.zero_add _).symm ▸ small) with
    ⟨b,ran,_,_,bytes⟩ | ⟨cap,ran,none⟩
  · refine .inl ⟨?_,b,ran,bytes⟩
    simp only [encNbtAt,nbtDumpBinaryAt,ran,Option.bind_eq_bind,Option.bind_some,encNbt,nbtDumpBinary,aborted,bytes]
    rfl
  · refine .inr ⟨?_,none,cap,ran⟩
    simp [encNbtAt,nbtDumpBinaryAt,ran,Buffer.bytes]

end Writing

def sampleGrowth : Growth where
  grants _ := true
  contents size := List.replicate size 0
  size _ := List.length_replicate

theorem sampleMemory_dumped : encNbtAt sampleGrowth sampleMemory 8 (some 1) = some (some [10,1,1,1,0,1,65,2,0]) := by
  have short : (nbtDumpBinary (some sampleTree)).bytes.length ≤ 2^63 := by decide
  rcases @encNbtAt_dumps sampleGrowth sampleMemory sampleTree 1 _ sampleMemory_at 8 (by decide) short with
    ⟨same,_⟩ | ⟨_,⟨size,refused⟩,_⟩
  · rw [same]
    rfl
  · cases refused

end CSpock.Nbt
