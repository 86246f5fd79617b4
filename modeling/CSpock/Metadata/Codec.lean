import CSpock.Particle
import CSpock.Position

/-! Entity metadata: a run of tags up to a byte of 0xFF. The walker, the counter,
the encoder and the decoder are four switches over the same cases. -/
namespace CSpock.Metadata
open CSpock.Library.Cursor CSpock.Numeric CSpock.Varnum CSpock.Strings CSpock.Nbt CSpock.Slot CSpock.Particle

/-- The cases of the switches on a tag's type, named for the members of the union. -/
inductive MetaShape where
  | b
  | varint
  | f
  | string
  | optString
  | slot
  | rot
  | pos
  | optPos
  | optUuid
  | nbt
  | particle
  | villagerdata
  | optVarint
  | unknown
  deriving Repr, DecidableEq

def metaShape (type : Int32) : MetaShape :=
  match type.toInt with
  | 0 => .b -- meta_byte
  | 1 => .varint -- meta_varint
  | 2 => .f -- meta_float
  | 3 => .string -- meta_string
  | 4 => .string -- meta_chat
  | 5 => .optString -- meta_optchat
  | 6 => .slot -- meta_slot
  | 7 => .b -- meta_boolean
  | 8 => .rot -- meta_rotation
  | 9 => .pos -- meta_position
  | 10 => .optPos -- meta_optposition
  | 11 => .b -- meta_direction
  | 12 => .optUuid -- meta_optuuid
  | 13 => .varint -- meta_optblockid
  | 14 => .nbt -- meta_nbt
  | 15 => .particle -- meta_particle
  | 16 => .villagerdata -- meta_villagerdata
  | 17 => .optVarint -- meta_optvarint
  | 18 => .varint -- meta_pose
  | _ => .unknown

/-- The member of the union that the type selects, with `opt` where the type has it. -/
inductive MetaValue : MetaShape → Type where
  | b (value : UInt8) : MetaValue .b
  | varint (value : Int32) : MetaValue .varint
  | f (pattern : UInt32) : MetaValue .f
  | string (value : Option (List UInt8)) : MetaValue .string
  | optString (value : Flagged (Option (List UInt8))) : MetaValue .optString
  | slot (value : McSlot) : MetaValue .slot
  | rot (x y z : UInt32) : MetaValue .rot
  | pos (value : Position) : MetaValue .pos
  | optPos (value : Flagged Position) : MetaValue .optPos
  | optUuid (value : Flagged Uuid) : MetaValue .optUuid
  | nbt (tree : Option NbtNode) : MetaValue .nbt
  | particle (value : McParticle) : MetaValue .particle
  | villagerdata (first second third : Int32) : MetaValue .villagerdata
  | optVarint (value : Flagged Int32) : MetaValue .optVarint
  | unknown : MetaValue .unknown

structure McMetatag where
  index : UInt8
  type : Int32
  value : MetaValue (metaShape type)

/-- What the switch of the walker comes to: a returned answer, or the bytes already
taken off with the `size` still to be taken off. -/
inductive WalkStep where
  | refused (ret : Int)
  | passed (taken size : Int)

def sized (answer : Option Int) : Option WalkStep := do
  let size ← answer
  some (if size < 0 then .refused size else .passed 0 size)

/-- An optional value: the byte under the cursor and, if it is not zero, a walk behind it. -/
def flagged (walk : List UInt8 → Nat → Option Int) (source : List UInt8) (maxLen : Nat) : Option WalkStep :=
  match decByte source with
  | .ok flag rest =>
    if flag ≠ 0 then do
      let ret ← walk rest (sizeSub maxLen 1)
      some (if ret < 0 then .refused ret else .passed 0 (cInt (1 + ret)))
    else some (.passed 0 1)
  | _ => none

/-- The walkers that `walk_metadata` calls. -/
inductive Nested where
  | varint
  | string
  | slot
  | nbt
  | particle
  deriving Repr, DecidableEq

abbrev Walkers := Nested → List UInt8 → Nat → Option Int

namespace Walkers
variable (walk : Walkers)

/-- The loop over `villagerdata`, which takes its numbers off one by one. -/
def villagerdata : Nat → List UInt8 → Nat → Int → Option WalkStep
  | 0,_,_,taken => some (.passed taken 0)
  | left+1,source,maxLen,taken => do
    let ret ← walk .varint source maxLen
    if ret < 0 then some (.refused ret) else
      villagerdata left (source.drop ret.toNat) (sizeSub maxLen ret) (cInt (taken + ret))

/-- The switch of `walk_metadata`. -/
def value (shape : MetaShape) (source : List UInt8) (maxLen : Nat) : Option WalkStep :=
  match shape with
  | .b => some (.passed 0 1)
  | .varint => sized (walk .varint source maxLen)
  | .f => some (.passed 0 4)
  | .string => sized (walk .string source maxLen)
  | .optString => flagged (walk .string) source maxLen
  | .slot => sized (walk .slot source maxLen)
  | .rot => some (.passed 0 12)
  | .pos => some (.passed 0 8)
  | .optPos => flagged (fun _ _ => some 8) source maxLen
  | .optUuid => flagged (fun _ _ => some 16) source maxLen
  | .nbt => sized (walk .nbt source maxLen)
  | .particle => sized (walk .particle source maxLen)
  | .villagerdata => villagerdata walk 3 source maxLen 0
  | .optVarint => flagged (walk .varint) source maxLen
  | .unknown => some (.refused (-1))

/-- The loop of `walk_metadata`; each round takes a byte of the buffer. -/
def metadataLoop : Nat → List UInt8 → Nat → Int → Option Int
  | 0,_,_,_ => none
  | rounds+1,source,maxLen,total =>
    match decByte source with
    | .ok index source =>
      if index = 0xFF then some (cInt (total + 1)) else do
        let total := cInt (total + 1)
        let maxLen := sizeSub maxLen 1
        let ret ← walk .varint source maxLen
        if ret < 0 then some ret else
          let maxLen := sizeSub maxLen ret
          let total := cInt (total + ret)
          match decVarint source with
          | .ok type source => do
            let step ← value walk (metaShape type) source maxLen
            match step with
            | .refused ret => some ret
            | .passed taken size =>
              let source := source.drop taken.toNat
              let maxLen := sizeSub maxLen taken
              let total := cInt (total + taken)
              -- one more byte has to be there for the closing 0xFF
              if maxLen ≤ sizeT size then some (-1) else
                metadataLoop rounds (source.drop size.toNat) (sizeSub maxLen size) (cInt (total + size))
          | _ => none
    | _ => none

def metadata (source : List UInt8) (maxLen : Nat) : Option Int :=
  if maxLen = 0 then some (-1) else metadataLoop walk (source.length+1) source maxLen 0

end Walkers

def walkers : Walkers
  | .varint => walkVarint
  | .string => walkString
  | .slot => walkSlot
  | .nbt => walkNbt
  | .particle => walkParticle

def walkMetadata (source : List UInt8) (maxLen : Nat) : Option Int := walkers.metadata source maxLen

/-- A walk of the counter, which adds whatever the walker answers to the cursor. -/
def advance (walk : List UInt8 → Nat → Option Int) (buffer : List UInt8) (pos : Nat) : Option Nat := do
  let step ← walk (buffer.drop pos) noOverflow
  some (pos + step).toNat

/-- `if(*source++)`: the step is made only behind a flag that is not zero. -/
def behindFlag (step : List UInt8 → Nat → Option Nat) (buffer : List UInt8) (pos : Nat) : Option Nat := do
  let flag ← buffer[pos]?
  if flag ≠ 0 then step buffer (pos+1) else some (pos+1)

def fixed (width : Nat) (_ : List UInt8) (pos : Nat) : Option Nat := some (pos + width)

/-- The switch of `count_metatags`. As a walker that refuses moves the cursor back, the
counter works on positions in the buffer. -/
def countValue : MetaShape → List UInt8 → Nat → Option Nat
  | .b => fixed 1
  | .varint => advance walkVarint
  | .f => fixed 4
  | .string => advance walkString
  | .optString => behindFlag (advance walkString)
  | .slot => advance walkSlot
  | .rot => fixed 12
  | .pos => fixed 8
  | .optPos => behindFlag (fixed 8)
  | .optUuid => behindFlag (fixed 16)
  | .nbt => advance walkNbt
  | .particle => advance walkParticle
  | .villagerdata => fun buffer pos => do
    let pos ← advance walkVarint buffer pos
    let pos ← advance walkVarint buffer pos
    advance walkVarint buffer pos
  | .optVarint => behindFlag (advance walkVarint)
  | .unknown => fixed 0

/-- The loop of `count_metatags`; no round brings the cursor back to where it started. -/
def countMetatagsLoop : Nat → List UInt8 → Nat → Nat → Option Nat
  | 0,_,_,_ => none
  | rounds+1,buffer,pos,count => do
    let index ← buffer[pos]?
    if index = 0xFF then some count else
      match decVarint (buffer.drop (pos+1)) with
      | .ok type source =>
        if metaShape type = .unknown then some 0 else do
          let pos ← countValue (metaShape type) buffer (buffer.length - source.length)
          countMetatagsLoop rounds buffer pos (count+1)
      | _ => none

def countMetatags (source : List UInt8) : Option Nat := countMetatagsLoop (source.length+1) source 0 0

def encValue {shape : MetaShape} : MetaValue shape → Option (List UInt8)
  | .b value => some (encByte value)
  | .varint value => some (encVarint value.toUInt32)
  | .f pattern => some (encBef32 pattern)
  | .string value => encString value
  | .optString value => encFlagged encString value
  | .slot value => encSlot value
  | .rot x y z => some (encBef32 x ++ (encBef32 y ++ encBef32 z))
  | .pos value => some (encPosition value)
  | .optPos value => encFlagged (fun pos => some (encPosition pos)) value
  | .optUuid value => encFlagged (fun uuid => some (encUuid uuid)) value
  | .nbt tree => encNbt tree
  | .particle value => encParticle value
  | .villagerdata first second third =>
    some (encVarint first.toUInt32 ++ (encVarint second.toUInt32 ++ encVarint third.toUInt32))
  | .optVarint value => encFlagged (fun number => some (encVarint number.toUInt32)) value
  | .unknown => some []

def encMetatag (tag : McMetatag) : Option (List UInt8) :=
  (encValue tag.value).map (encByte tag.index ++ encVarint tag.type.toUInt32 ++ ·)

def encMetatags : List McMetatag → Option (List UInt8)
  | [] => some []
  | tag::tags => do
    let first ← encMetatag tag
    let rest ← encMetatags tags
    some (first ++ rest)

def encMetadata (source : List McMetatag) : Option (List UInt8) :=
  (encMetatags source).map (· ++ encByte 0)

def decValue (heap : Heap) (shape : MetaShape) (source : List UInt8) : Decoded (MetaValue shape) :=
  match shape with
  | .b => (decByte source).map .b
  | .varint => (decVarint source).map .varint
  | .f => (decBef32 source).map .f
  | .string => (decString heap source).map .string
  | .optString => (decFlagged (decString heap) source).map .optString
  | .slot => (decSlot heap source).map .slot
  | .rot => (decBef32 source).andThen fun x source => (decBef32 source).andThen fun y source =>
    (decBef32 source).map fun z => .rot x y z
  | .pos => (decPosition source).map .pos
  | .optPos => (decFlagged decPosition source).map .optPos
  | .optUuid => (decFlagged decUuid source).map .optUuid
  | .nbt => (decNbt heap source).map fun tree => .nbt (some tree)
  | .particle => (decParticle heap source).map .particle
  | .villagerdata => (decVarint source).andThen fun first source => (decVarint source).andThen fun second source =>
    (decVarint source).map fun third => .villagerdata first second third
  | .optVarint => (decFlagged decVarint source).map .optVarint
  | .unknown => .ok .unknown source

def decMetatag (heap : Heap) (source : List UInt8) : Decoded McMetatag :=
  (decByte source).andThen fun index source => (decVarint source).andThen fun type source =>
    (decValue heap (metaShape type) source).map fun value => ⟨index,type,value⟩

/-- The loop of `dec_metadata`, which goes on from whatever cursor a tag's decoder returned. -/
def decMetatags (heap : Heap) : Nat → List UInt8 → Decoded (List McMetatag)
  | 0,source => .ok [] source
  | left+1,source => (decMetatag heap source).andThen fun tag source =>
    (decMetatags heap left source).map (tag :: ·)

/-- The size of a `mc_metatag`. -/
def metatagSize : Nat := 48

/-- The closing byte is skipped without a look at it. -/
def decMetadata (heap : Heap) (source : List UInt8) : Decoded (List McMetatag) :=
  match countMetatags source with
  | none => .fault
  | some len =>
    if heap.malloc .metatags source (len * metatagSize) then
      (decMetatags heap len source).andThen fun tags source => .ok tags (source.drop 1)
    else .null

end CSpock.Metadata
