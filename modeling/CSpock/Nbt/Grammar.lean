import CSpock.Numeric

/-! The binary NBT format as a grammar over byte lists, and the two dialects of it
that the code reads: the one the walker of `datautils.c` accepts and the one the
parser of cNBT accepts. The grammar only says which bytes belong together. -/
namespace CSpock.Nbt
open CSpock.Library.Cursor CSpock.Library.Endian CSpock.Numeric

@[match_pattern] abbrev tagInvalid : UInt8 := 0
@[match_pattern] abbrev tagByte : UInt8 := 1
@[match_pattern] abbrev tagShort : UInt8 := 2
@[match_pattern] abbrev tagInt : UInt8 := 3
@[match_pattern] abbrev tagLong : UInt8 := 4
@[match_pattern] abbrev tagFloat : UInt8 := 5
@[match_pattern] abbrev tagDouble : UInt8 := 6
@[match_pattern] abbrev tagByteArray : UInt8 := 7
@[match_pattern] abbrev tagString : UInt8 := 8
@[match_pattern] abbrev tagList : UInt8 := 9
@[match_pattern] abbrev tagCompound : UInt8 := 10
@[match_pattern] abbrev tagIntArray : UInt8 := 11
@[match_pattern] abbrev tagLongArray : UInt8 := 12

/-- What a reader of the format supports: long arrays, and the longest string. -/
structure Dialect where
  longArrays : Bool
  maxString : Nat

/-- `walk_nbt` knows long arrays and takes a string's length as a `uint16_t`. -/
def walkDialect : Dialect := ⟨true,65535⟩

/-- `nbt_parse2` has no long arrays and takes a string's length as an `int16_t`. -/
def cnbtDialect : Dialect := ⟨false,32767⟩

/-- A reader of the second dialect reads whatever is written in the first. -/
def Dialect.Within (small large : Dialect) : Prop :=
  (small.longArrays = true → large.longArrays = true) ∧ small.maxString ≤ large.maxString

theorem cnbt_within_walk : cnbtDialect.Within walkDialect := ⟨by decide,by decide⟩

/-- The width of a number's payload. -/
def scalarWidth : UInt8 → Option Nat
  | tagByte => some 1
  | tagShort => some 2
  | tagInt => some 4
  | tagLong => some 8
  | tagFloat => some 4
  | tagDouble => some 8
  | _ => none

/-- The width of an array's entries. -/
def arrayUnit (d : Dialect) : UInt8 → Option Nat
  | tagByteArray => some 1
  | tagIntArray => some 4
  | tagLongArray => if d.longArrays then some 8 else none
  | _ => none

/-- The `int32_t` count of a list; a negative one stands for no element. -/
def listCount (header : List UInt8) : Nat := (UInt32.ofNat (value header)).toInt32.toInt.toNat

/-- A string or a name: two bytes of length, then that many bytes. -/
inductive Text (d : Dialect) : List UInt8 → Prop where
  | mk {header body : List UInt8} (width : header.length = 2) (size : body.length = value header)
      (short : body.length ≤ d.maxString) : Text d (header ++ body)

inductive Part where
  | payload (type : UInt8)
  | elements (type : UInt8) (count : Nat)
  | members

/-- The bytes of a part of a document. -/
inductive Parses (d : Dialect) : Part → List UInt8 → Prop where
  | scalar {type : UInt8} {bytes : List UInt8} (width : scalarWidth type = some bytes.length) :
      Parses d (.payload type) bytes
  | array {type : UInt8} {unit : Nat} {header body : List UInt8} (kind : arrayUnit d type = some unit)
      (width : header.length = 4) (size : body.length = value header * unit) :
      Parses d (.payload type) (header ++ body)
  | string {bytes : List UInt8} (text : Text d bytes) : Parses d (.payload tagString) bytes
  | list {type : UInt8} {header body : List UInt8} (width : header.length = 4)
      (elements : Parses d (.elements type (listCount header)) body) :
      Parses d (.payload tagList) (type :: (header ++ body))
  | compound {bytes : List UInt8} (members : Parses d .members bytes) :
      Parses d (.payload tagCompound) bytes
  | none {type : UInt8} : Parses d (.elements type 0) []
  | element {type : UInt8} {count : Nat} {first rest : List UInt8} (head : Parses d (.payload type) first)
      (tail : Parses d (.elements type count) rest) : Parses d (.elements type (count+1)) (first ++ rest)
  | close : Parses d .members [0]
  | member {type : UInt8} {name first rest : List UInt8} (live : type ≠ 0) (text : Text d name)
      (head : Parses d (.payload type) first) (tail : Parses d .members rest) :
      Parses d .members (type :: (name ++ (first ++ rest)))

/-- A whole document: the root's type, its name and its payload. -/
inductive Document (d : Dialect) : List UInt8 → Prop where
  | mk {type : UInt8} {name body : List UInt8} (text : Text d name)
      (payload : Parses d (.payload type) body) : Document d (type :: (name ++ body))

theorem Text.mono {small large : Dialect} (within : small.Within large) {bytes : List UInt8}
    (text : Text small bytes) : Text large bytes := by
  obtain ⟨width,size,short⟩ := text
  exact ⟨width,size,Nat.le_trans short within.2⟩

theorem arrayUnit_mono {small large : Dialect} (within : small.Within large) {type : UInt8} {unit : Nat}
    (kind : arrayUnit small type = some unit) : arrayUnit large type = some unit := by
  unfold arrayUnit at kind ⊢
  split at kind
  · exact kind
  · exact kind
  · split at kind
    next supported => simpa [within.1 supported] using kind
    next => cases kind
  · cases kind

theorem Parses.mono {small large : Dialect} (within : small.Within large) {part : Part} {bytes : List UInt8}
    (parses : Parses small part bytes) : Parses large part bytes := by
  induction parses with
  | scalar width => exact .scalar width
  | array kind width size => exact .array (arrayUnit_mono within kind) width size
  | string text => exact .string (text.mono within)
  | list width _ ih => exact .list width ih
  | compound _ ih => exact .compound ih
  | none => exact .none
  | element _ _ head tail => exact .element head tail
  | close => exact .close
  | member live text _ _ head tail => exact .member live (text.mono within) head tail

theorem Document.mono {small large : Dialect} (within : small.Within large) {bytes : List UInt8}
    (document : Document small bytes) : Document large bytes := by
  obtain ⟨text,payload⟩ := document
  exact ⟨text.mono within,payload.mono within⟩

theorem Text.length_ge {d : Dialect} {bytes : List UInt8} (text : Text d bytes) : 2 ≤ bytes.length := by
  obtain ⟨width,_,_⟩ := text
  simp [width]

theorem scalarWidth_pos {type : UInt8} {width : Nat} (kind : scalarWidth type = some width) :
    0 < width ∧ width ≤ 8 := by
  unfold scalarWidth at kind
  split at kind <;> cases kind <;> decide

end CSpock.Nbt
