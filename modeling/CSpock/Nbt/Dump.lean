import CSpock.Nbt.Grammar
import CSpock.Nbt.Tree

/-! The binary dump of cNBT. The appends to its buffer are taken to find memory. -/
namespace CSpock.Nbt
open CSpock.Library.Endian

/-- `aborted` is a failed assertion. -/
inductive DumpStatus where
  | ok
  | err
  | aborted
  deriving Repr, DecidableEq

/-- What is in the buffer when a dump ends: also after an error. -/
structure Dump where
  bytes : List UInt8
  status : DumpStatus
  deriving Repr, DecidableEq

namespace Dump

def append (bytes : List UInt8) : Dump := ⟨bytes,.ok⟩

/-- Goes on with the same buffer unless there was an error. -/
def andThen (first next : Dump) : Dump :=
  if first.status = .ok then ⟨first.bytes ++ next.bytes,next.status⟩ else first

end Dump

/-- The bytes in front of the first zero. -/
def cString (text : List UInt8) : List UInt8 := text.takeWhile (· != 0)

def dumpStringBinary (name : List UInt8) : Dump :=
  let text := cString name
  if text.length > 32767 then ⟨[],.err⟩ else .append (bigEndian 2 text.length ++ text)

def dumpByteArrayBinary (data : List UInt8) : Dump := .append (bigEndian 4 data.length ++ data)

def dumpIntArrayBinary (data : List UInt32) : Dump :=
  .append (bigEndian 4 data.length ++ data.flatMap fun entry => bigEndian 4 entry.toNat)

def NbtPayload.type : NbtPayload → UInt8
  | .tagByte _ => CSpock.Nbt.tagByte
  | .tagShort _ => CSpock.Nbt.tagShort
  | .tagInt _ => CSpock.Nbt.tagInt
  | .tagLong _ => CSpock.Nbt.tagLong
  | .tagFloat _ => CSpock.Nbt.tagFloat
  | .tagDouble _ => CSpock.Nbt.tagDouble
  | .tagByteArray _ => CSpock.Nbt.tagByteArray
  | .tagString _ => CSpock.Nbt.tagString
  | .tagList _ _ => CSpock.Nbt.tagList
  | .tagCompound _ => CSpock.Nbt.tagCompound
  | .tagIntArray _ => CSpock.Nbt.tagIntArray
  | .tagNegativeIntArray _ _ => CSpock.Nbt.tagIntArray

def NbtNode.type (node : NbtNode) : UInt8 := node.payload.type

/-- `TAG_INVALID` when two entries differ, the sentinel's type when there is none. -/
def listIsHomogenous (sentinel : UInt8) : List NbtNode → UInt8
  | [] => sentinel
  | first::rest => if rest.all (·.type == first.type) then first.type else tagInvalid

mutual

/-- `__dump_binary`; the elements of a list go out without their type. -/
def dumpBinary (dumpType : Bool) : NbtNode → Dump
  | .mk name payload =>
    let type := if dumpType then [payload.type] else []
    let named := match name with
      | some name => dumpStringBinary name
      | none => .append []
    (Dump.append type).andThen (named.andThen (dumpPayload payload))

def dumpPayload : NbtPayload → Dump
  | .tagByte value => .append [value]
  | .tagShort value => .append (bigEndian 2 value.toNat)
  | .tagInt value => .append (bigEndian 4 value.toNat)
  | .tagLong value => .append (bigEndian 8 value.toNat)
  | .tagFloat pattern => .append (bigEndian 4 pattern.toNat)
  | .tagDouble pattern => .append (bigEndian 8 pattern.toNat)
  | .tagByteArray data => dumpByteArrayBinary data
  | .tagIntArray data => dumpIntArrayBinary data
  -- the loop of `dump_int_array_binary` makes no round
  | .tagNegativeIntArray length _ => .append (bigEndian 4 length.toUInt32.toNat)
  | .tagString text => dumpStringBinary text
  | .tagList sentinel entries =>
    let type := listIsHomogenous sentinel entries
    if entries.length > 2147483647 then ⟨[],.err⟩
    else if type = tagInvalid then ⟨[],.aborted⟩
    else (Dump.append (type :: bigEndian 4 entries.length)).andThen (dumpEntries false entries)
  | .tagCompound entries => (dumpEntries true entries).andThen (.append [0])

def dumpEntries (dumpType : Bool) : List NbtNode → Dump
  | [] => .append []
  | entry::entries => (dumpBinary dumpType entry).andThen (dumpEntries dumpType entries)

end

/-- `errno` is not looked at by `enc_nbt`; a null tree gives an empty buffer. -/
def nbtDumpBinary : Option NbtNode → Dump
  | none => .append []
  | some tree => dumpBinary true tree

/-- A result of `none` is a stop at an assertion. -/
def encNbt (source : Option NbtNode) : Option (List UInt8) :=
  let dump := nbtDumpBinary source
  if dump.status = .aborted then none else some dump.bytes

end CSpock.Nbt
