import CSpock.Nbt.Allocate
import CSpock.Nbt.Parse

/-! The parser of cNBT, with the structures that it allocates and frees. -/
namespace CSpock.Nbt
open CSpock.Library.Circular CSpock.Library.Endian CSpock.Numeric

/-- There is always room somewhere. -/
def Memory.Roomy (memory : Memory) : Prop := { address | memory.cell address = none }.Infinite

/-- Which requests are granted, and where. Nobody knows what is in the room. -/
structure Arena where
  heap : Heap
  place : Memory → Nat → Ptr
  contents : Memory → Nat → List UInt8
  free : ∀ (memory : Memory) size, memory.Roomy → memory.cell (place memory size) = none

/-- A `fault` is a memory error. -/
inductive Built (α : Type) where
  | fault
  | null (stream : Stream) (memory : Memory)
  | done (value : α) (stream : Stream) (memory : Memory)

namespace Built
variable {α β : Type}

def orElse : Built α → (Stream → Memory → Built β) → (α → Stream → Memory → Built β) → Built β
  | .fault,_,_ => .fault
  | .null stream memory,onError,_ => onError stream memory
  | .done value stream memory,_,next => next value stream memory

/-- Goes on when what was read or freed was there. -/
def freed : Option Memory → (Memory → Built α) → Built α
  | none,_ => .fault
  | some memory,next => next memory

end Built

def Parsed.into {α β : Type} : Parsed α → (Stream → Built β) → (α → Stream → Built β) → Built β
  | .fault,_,_ => .fault
  | .null stream,onError,_ => onError stream
  | .done value stream,_,next => next value stream

def buildMalloc {α : Type} (arena : Arena) (site : Site) (size : Nat) (stream : Stream) (memory : Memory)
    (onError : Stream → Memory → Built α) (next : Ptr → Memory → Built α) : Built α :=
  if arena.heap.malloc site stream.memory size then
    next (arena.place memory size) (memory.put (arena.place memory size) (.block (arena.contents memory size)))
  else onError { stream with errno := .emem } memory

/-- The label `parse_error` with nothing to free. -/
def buildError {α : Type} (stream : Stream) (memory : Memory) : Built α := .null stream.parseError memory

/-- The label `parse_error` of the functions that free what they have. -/
def freeError {α : Type} (address : Ptr) (stream : Stream) (memory : Memory) : Built α :=
  .freed (memory.free address) fun memory => .null stream.parseError memory

def buildString (arena : Arena) (stream : Stream) (memory : Memory) : Built Ptr :=
  (readSwapped 2 stream).into (buildError · memory) fun size stream =>
    let stringLength := (UInt16.ofNat size).toInt16.toInt
    if stringLength < 0 then buildError stream memory
    else if stream.length < stringLength.toNat then buildError stream memory
    else buildMalloc arena .nbtString (stringLength.toNat+1) stream memory buildError fun ret memory =>
      (readGeneric stringLength.toNat stream).into (freeError ret · memory) fun bytes stream =>
        .done ret stream (memory.put ret (.block (bytes ++ [0])))

def buildByteArray (arena : Arena) (stream : Stream) (memory : Memory) : Built (Ptr × Nat) :=
  (readSwapped 4 stream).into (buildError · memory) fun size stream =>
    let length := (UInt32.ofNat size).toInt32.toInt
    if length < 0 then buildError stream memory
    else buildMalloc arena .nbtArray length.toNat stream memory buildError fun data memory =>
      (readGeneric length.toNat stream).into (freeError data · memory) fun bytes stream =>
        .done (data,length.toNat) stream (memory.put data (.block bytes))

def swapBlock : Nat → List UInt8 → List UInt8
  | 0,bytes => bytes
  | count+1,bytes => (bytes.take 4).reverse ++ swapBlock count (bytes.drop 4)

def buildIntArray (arena : Arena) (stream : Stream) (memory : Memory) : Built (Ptr × Nat) :=
  (readSwapped 4 stream).into (buildError · memory) fun size stream =>
    let length := (UInt32.ofNat size).toInt32.toInt
    if length < 0 then buildError stream memory
    else buildMalloc arena .nbtArray (length.toNat * 4) stream memory buildError fun data memory =>
      (readGeneric (length.toNat * 4) stream).into (freeError data · memory) fun bytes stream =>
        .done (data,length.toNat) stream (memory.put data (.block (swapBlock length.toNat bytes)))

/-- `parse_unnamed_tag`. The name stays with the caller when there is an error. -/
abbrev TagBuilder := UInt8 → Option Ptr → Stream → Memory → Built Ptr

/-- `new->data` is set, and `new` comes to the end of the list. -/
def Memory.addEntry (memory : Memory) (new data list : Ptr) : Memory :=
  { memory.put new (.entry (some data)) with links := listAddTail memory.links new list }

/-- The loop of `read_list`, up to `parse_error`. -/
def buildListLoop (arena : Arena) (build : TagBuilder) (type : UInt8) (ret : Ptr) : Nat → Stream → Memory → Built Unit
  | 0,stream,memory => .done () stream memory
  | elems+1,stream,memory => buildMalloc arena .nbtEntry 24 stream memory .null fun new memory =>
    (build type none stream memory).orElse (freeError new) fun data stream memory =>
      buildListLoop arena build type ret elems stream (memory.addEntry new data ret)

/-- The label `parse_error` of the two list readers. -/
def freeListError {α : Type} (steps : Nat) (ret : Ptr) (stream : Stream) (memory : Memory) : Built α :=
  .freed (nbtFreeList steps memory (some ret)) fun memory => .null stream.parseError memory

/-- Room for a list, without entries. -/
def Memory.beginList (memory : Memory) (ret : Ptr) (data : Option Ptr) : Memory :=
  { memory.put ret (.entry data) with links := initListHead memory.links ret }

def buildList (arena : Arena) (steps : Nat) (build : TagBuilder) (stream : Stream) (memory : Memory) : Built Ptr :=
  buildMalloc arena .nbtList 24 stream memory buildError fun ret memory =>
    -- `nbt_free_list` would go by the entry of `ret`, which is not set up
    buildMalloc arena .nbtSentinel 32 stream memory (fun _ _ => .fault) fun data memory =>
      let memory := memory.beginList ret (some data)
      (readSwapped 1 stream).into (freeListError steps ret · memory) fun type stream =>
        (readSwapped 4 stream).into (freeListError steps ret · memory) fun elems stream =>
          let type := UInt8.ofNat type
          let memory := memory.put data (.sentinel (if type = tagInvalid then tagCompound else type))
          (buildListLoop arena build type ret (UInt32.ofNat elems).toInt32.toInt.toNat stream memory).orElse
            (freeListError steps ret) fun _ stream memory => .done ret stream memory

/-- The loop of `read_compound`, up to `parse_error`. -/
def buildCompoundLoop (arena : Arena) (build : TagBuilder) (ret : Ptr) : Nat → Stream → Memory → Built Unit
  | 0,_,_ => .fault
  | rounds+1,stream,memory => (readSwapped 1 stream).into (buildError · memory) fun type stream =>
    let type := UInt8.ofNat type
    if type = 0 then .done () stream memory else
      (buildString arena stream memory).orElse buildError fun name stream memory =>
        buildMalloc arena .nbtEntry 24 stream memory (freeError name) fun new memory =>
          (build type (some name) stream memory).orElse
            (fun stream memory => .freed (memory.free new) fun memory => freeError name stream memory)
            fun data stream memory => buildCompoundLoop arena build ret rounds stream (memory.addEntry new data ret)

def buildCompound (arena : Arena) (steps : Nat) (build : TagBuilder) (stream : Stream) (memory : Memory) : Built Ptr :=
  buildMalloc arena .nbtList 24 stream memory buildError fun ret memory =>
    (buildCompoundLoop arena build ret (stream.memory.length+1) stream (memory.beginList ret none)).orElse
      (freeListError steps ret) fun _ stream memory => .done ret stream memory

def buildScalar (width : Nat) (scalar : Nat → Scalar) (stream : Stream) (memory : Memory) : Built Payload :=
  (readSwapped width stream).into (buildError · memory) fun number stream => .done (.scalar (scalar number)) stream memory

def buildPayload (arena : Arena) (steps : Nat) (build : TagBuilder) (type : UInt8) (stream : Stream) (memory : Memory) :
    Built Payload :=
  match type with
  | tagByte => buildScalar 1 (fun number => .byte (UInt8.ofNat number)) stream memory
  | tagShort => buildScalar 2 (fun number => .short (UInt16.ofNat number)) stream memory
  | tagInt => buildScalar 4 (fun number => .int (UInt32.ofNat number)) stream memory
  | tagLong => buildScalar 8 (fun number => .long (UInt64.ofNat number)) stream memory
  | tagFloat => buildScalar 4 (fun number => .float (UInt32.ofNat number)) stream memory
  | tagDouble => buildScalar 8 (fun number => .double (UInt64.ofNat number)) stream memory
  | tagByteArray => (buildByteArray arena stream memory).orElse buildError fun array stream memory =>
    .done (.byteArray array.1 array.2) stream memory
  | tagIntArray => (buildIntArray arena stream memory).orElse buildError fun array stream memory =>
    .done (.intArray array.1 array.2) stream memory
  | tagString => (buildString arena stream memory).orElse buildError fun text stream memory => .done (.string text) stream memory
  | tagList => (buildList arena steps build stream memory).orElse buildError fun list stream memory =>
    .done (.list list) stream memory
  | tagCompound => (buildCompound arena steps build stream memory).orElse buildError fun list stream memory =>
    .done (.compound list) stream memory
  | _ => buildError stream memory

/-- An error that was there before only shows when the payload has been read. Then `node` goes, and nothing else. -/
def buildUnnamedTag (arena : Arena) (steps : Nat) : Nat → TagBuilder
  | 0,_,_,_,_ => .fault
  | fuel+1,type,name,stream,memory => buildMalloc arena .nbtNode 32 stream memory buildError fun node memory =>
    (buildPayload arena steps (buildUnnamedTag arena steps fuel) type stream memory).orElse (freeError node)
      fun payload stream memory =>
        if stream.errno ≠ .ok then freeError node stream memory
        else .done node stream (memory.put node (.node name payload))

def buildNamedTag (arena : Arena) (steps : Nat) (stream : Stream) (memory : Memory) : Built Ptr :=
  (readSwapped 1 stream).into (buildError · memory) fun type stream =>
    let build := buildUnnamedTag arena steps (stream.memory.length+1) (UInt8.ofNat type)
    (buildString arena stream memory).orElse (fun stream memory => (build none stream memory).orElse buildError .done)
      fun name stream memory => (build (some name) stream memory).orElse (freeError name) .done

/-- `nbt_parse2` of `length` bytes at the start of `source`. -/
def nbtBuild2 (arena : Arena) (source : List UInt8) (length : Nat) (memory : Memory) : Built Ptr :=
  buildNamedTag arena (3 * source.length + 3) ⟨source,length,.ok⟩ memory

end CSpock.Nbt
