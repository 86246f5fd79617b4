import CSpock.Numeric

/-! The trees of cNBT. Numbers are the bit patterns that are copied, C strings are
the bytes in front of the terminator that the parser appends. -/
namespace CSpock.Nbt

mutual

/-- `nbt_node`; the constructor of the payload is the `type` field. -/
inductive NbtNode where
  | mk (name : Option (List UInt8)) (payload : NbtPayload)

inductive NbtPayload where
  | tagByte (value : UInt8)
  | tagShort (value : UInt16)
  | tagInt (value : UInt32)
  | tagLong (value : UInt64)
  | tagFloat (pattern : UInt32)
  | tagDouble (pattern : UInt64)
  | tagByteArray (data : List UInt8)
  | tagString (text : List UInt8)
  /-- The type is the one in the sentinel's data. -/
  | tagList (type : UInt8) (entries : List NbtNode)
  | tagCompound (entries : List NbtNode)
  | tagIntArray (data : List UInt32)
  /-- An int array whose `length` is negative, behind which nothing is read. -/
  | tagNegativeIntArray (length : Int32) (negative : length.toInt < 0)

end

namespace NbtNode

def name : NbtNode → Option (List UInt8)
  | .mk name _ => name

def payload : NbtNode → NbtPayload
  | .mk _ payload => payload

end NbtNode

end CSpock.Nbt
