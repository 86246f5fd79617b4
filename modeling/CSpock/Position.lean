import CSpock.Numeric

/-! Block positions: three signed fields in the 64 bits of one number. -/
namespace CSpock.Numeric
open CSpock.Library.Cursor CSpock.Library.Endian

structure Position where
  x : Int32
  y : Int32
  z : Int32
  deriving Repr, DecidableEq

/-- From the top bit down x takes 26 bits, y takes 12 and z takes 26. -/
def encPosition (source : Position) : List UInt8 :=
  encBe64 ((source.x.toInt64.toUInt64 &&& 0x3FFFFFF) <<< 38 |||
    (source.y.toInt64.toUInt64 &&& 0xFFF) <<< 26 |||
    (source.z &&& 0x3FFFFFF).toInt64.toUInt64)

/-- The two's-complement reading of a field of `width` bits held in an `int32_t`. -/
def signed (field half full : Int32) : Int32 := if field ≥ half then field - full else field

def decPosition (source : List UInt8) : Decoded Position :=
  (decBe64 source).map fun (i : UInt64) =>
    ⟨signed (i >>> 38).toUInt32.toInt32 ((1 : Int32) <<< 25) ((1 : Int32) <<< 26),
      signed ((i >>> 26) &&& 0xFFF).toUInt32.toInt32 ((1 : Int32) <<< 11) ((1 : Int32) <<< 12),
      signed (i &&& 0x3FFFFFF).toUInt32.toInt32 ((1 : Int32) <<< 25) ((1 : Int32) <<< 26)⟩

structure Position.InRange (pos : Position) : Prop where
  x : -2^25 ≤ pos.x.toInt ∧ pos.x.toInt < 2^25
  y : -2^11 ≤ pos.y.toInt ∧ pos.y.toInt < 2^11
  z : -2^25 ≤ pos.z.toInt ∧ pos.z.toInt < 2^25

/-- Each coordinate as its field can say it. -/
def Position.reduced (pos : Position) : Position :=
  ⟨.ofInt (pos.x.toInt.bmod (2 * 2^25)),.ofInt (pos.y.toInt.bmod (2 * 2^11)),.ofInt (pos.z.toInt.bmod (2 * 2^25))⟩

theorem toNat_extend (number : Int32) : (number.toInt64.toUInt64.toNat : Int) = number.toInt % 2^64 := by
  have bits : number.toInt64.toUInt64.toNat = number.toInt64.toBitVec.toNat := rfl
  have same : number.toInt64.toBitVec.toInt = number.toInt := Int32.toInt_toInt64 number
  have bound := number.toInt64.toBitVec.isLt
  rw [BitVec.toInt_eq_toNat_bmod] at same
  have wrapped := @Int.bmod_emod (number.toInt64.toBitVec.toNat : Int) (2^64)
  rw [bits,← same]
  omega

theorem toNat_field_x (number : Int32) :
    ((number.toInt64.toUInt64 &&& 0x3FFFFFF).toNat : Int) = number.toInt % (2 * 2^25) := by
  have masked : (number.toInt64.toUInt64 &&& 0x3FFFFFF).toNat = number.toInt64.toUInt64.toNat % 2^26 := by
    rw [UInt64.toNat_and]
    exact Nat.and_two_pow_sub_one_eq_mod _ 26
  have whole := toNat_extend number
  omega

theorem toNat_field_y (number : Int32) :
    ((number.toInt64.toUInt64 &&& 0xFFF).toNat : Int) = number.toInt % (2 * 2^11) := by
  have masked : (number.toInt64.toUInt64 &&& 0xFFF).toNat = number.toInt64.toUInt64.toNat % 2^12 := by
    rw [UInt64.toNat_and]
    exact Nat.and_two_pow_sub_one_eq_mod _ 12
  have whole := toNat_extend number
  omega

theorem toNat_field_z (number : Int32) :
    ((number &&& 0x3FFFFFF).toInt64.toUInt64.toNat : Int) = number.toInt % (2 * 2^25) := by
  have bits : (number &&& 0x3FFFFFF).toInt = (number.toBitVec &&& 0x3FFFFFF#32).toInt := rfl
  have low : (number.toBitVec &&& 0x3FFFFFF#32).toNat = number.toBitVec.toNat % 2^26 := by
    rw [BitVec.toNat_and]
    exact Nat.and_two_pow_sub_one_eq_mod _ 26
  have masked : (number.toBitVec &&& 0x3FFFFFF#32).toInt = (number.toBitVec.toNat % 2^26 : Nat) := by
    rw [BitVec.toInt_eq_toNat_bmod,low,Int.bmod_eq_of_le] <;> omega
  have whole : number.toInt = (number.toBitVec.toNat : Int).bmod (2^32) := BitVec.toInt_eq_toNat_bmod _
  have wrapped := @Int.bmod_emod (number.toBitVec.toNat : Int) (2^32)
  have extended := toNat_extend (number &&& 0x3FFFFFF)
  rw [bits,masked] at extended
  omega

theorem toNat_joined (x y z : UInt64) (high : x.toNat < 2^26) (middle : y.toNat < 2^12) (low : z.toNat < 2^26) :
    (x <<< 38 ||| y <<< 26 ||| z).toNat = x.toNat * 2^38 + y.toNat * 2^26 + z.toNat := by
  have first : (x <<< 38).toNat = 2^38 * x.toNat := by
    rw [UInt64.toNat_shiftLeft]
    simp [Nat.shiftLeft_eq]
    omega
  have second : (y <<< 26).toNat = 2^26 * y.toNat := by
    rw [UInt64.toNat_shiftLeft]
    simp [Nat.shiftLeft_eq]
    omega
  have inner : 2^26 * y.toNat ||| z.toNat = 2^26 * y.toNat + z.toNat := (Nat.two_pow_add_eq_or_of_lt low _).symm
  have outer : 2^38 * x.toNat ||| (2^26 * y.toNat + z.toNat) = 2^38 * x.toNat + (2^26 * y.toNat + z.toNat) :=
    (Nat.two_pow_add_eq_or_of_lt (by omega) _).symm
  rw [UInt64.toNat_or,UInt64.toNat_or,first,second,Nat.or_assoc,inner,outer]
  omega

def Position.packed (source : Position) : UInt64 :=
  (source.x.toInt64.toUInt64 &&& 0x3FFFFFF) <<< 38 |||
    (source.y.toInt64.toUInt64 &&& 0xFFF) <<< 26 |||
    (source.z &&& 0x3FFFFFF).toInt64.toUInt64

def Position.unpacked (i : UInt64) : Position :=
  ⟨signed (i >>> 38).toUInt32.toInt32 ((1 : Int32) <<< 25) ((1 : Int32) <<< 26),
    signed ((i >>> 26) &&& 0xFFF).toUInt32.toInt32 ((1 : Int32) <<< 11) ((1 : Int32) <<< 12),
    signed (i &&& 0x3FFFFFF).toUInt32.toInt32 ((1 : Int32) <<< 25) ((1 : Int32) <<< 26)⟩

theorem encPosition_packed (pos : Position) : encPosition pos = encBe64 pos.packed := rfl

theorem decPosition_unpacked (source : List UInt8) : decPosition source = (decBe64 source).map Position.unpacked := rfl

theorem Position.toNat_packed (pos : Position) : (pos.packed.toNat : Int) =
    pos.x.toInt % 2^26 * 2^38 + pos.y.toInt % 2^12 * 2^26 + pos.z.toInt % 2^26 := by
  have fieldX := toNat_field_x pos.x
  have fieldY := toNat_field_y pos.y
  have fieldZ := toNat_field_z pos.z
  rw [packed,toNat_joined _ _ _ (by omega) (by omega) (by omega)]
  push_cast
  rw [fieldX,fieldY,fieldZ]
  rfl

theorem toInt_signed {field : UInt64} {half full : Int32} (scale : Nat) (positive : 0 < scale) (narrow : scale ≤ 2^25)
    (halved : half.toInt = scale) (doubled : full.toInt = 2 * scale) {value : Int}
    (stored : (field.toNat : Int) = value % (2 * scale : Nat)) :
    (signed field.toUInt32.toInt32 half full).toInt = value.bmod (2 * scale) := by
  have low := Int.emod_nonneg value (show ((2 * scale : Nat) : Int) ≠ 0 by omega)
  have high := Int.emod_lt_of_pos value (show 0 < ((2 * scale : Nat) : Int) by omega)
  have read : field.toUInt32.toInt32.toInt = value % (2 * scale : Nat) := by
    have cap : field.toNat < 2^31 := by omega
    rw [toInt_toInt32,UInt64.toNat_toUInt32,Nat.mod_eq_of_lt (by omega),cInt_natCast cap,stored]
  unfold signed
  split
  next upper =>
    rw [ge_iff_le,Int32.le_iff_toInt_le,halved,read] at upper
    rw [Int32.toInt_sub,read,doubled,Int.bmod_neg value (2 * scale) (by omega),Int.bmod_eq_of_le] <;> omega
  next lower =>
    rw [ge_iff_le,Int32.le_iff_toInt_le,halved,read] at lower
    rw [read,Int.bmod_eq_emod_of_lt (by omega)]

theorem Position.toInt_unpacked (i : UInt64) :
    (unpacked i).x.toInt = Int.bmod (i.toNat / 2^38 : Nat) (2 * 2^25) ∧
    (unpacked i).y.toInt = Int.bmod (i.toNat / 2^26 : Nat) (2 * 2^11) ∧
    (unpacked i).z.toInt = Int.bmod i.toNat (2 * 2^25) := by
  have word := i.toNat_lt
  have cutX : (i >>> 38).toNat = i.toNat / 2^38 := by
    rw [UInt64.toNat_shiftRight]
    exact Nat.shiftRight_eq_div_pow i.toNat 38
  have cutY : (i >>> 26 &&& 0xFFF).toNat = i.toNat / 2^26 % 2^12 := by
    have shifted : (i >>> 26).toNat = i.toNat / 2^26 := by
      rw [UInt64.toNat_shiftRight]
      exact Nat.shiftRight_eq_div_pow i.toNat 26
    rw [UInt64.toNat_and,shifted]
    exact Nat.and_two_pow_sub_one_eq_mod _ 12
  have cutZ : (i &&& 0x3FFFFFF).toNat = i.toNat % 2^26 := by
    rw [UInt64.toNat_and]
    exact Nat.and_two_pow_sub_one_eq_mod _ 26
  exact ⟨toInt_signed (2^25) (by decide) (by decide) rfl rfl (by omega),
    toInt_signed (2^11) (by decide) (by decide) rfl rfl (by omega),
    toInt_signed (2^25) (by decide) (by decide) rfl rfl (by omega)⟩

theorem toInt_ofInt_bmod (value : Int) {width : Nat} (positive : 0 < width) (narrow : width ≤ 2^26) :
    (Int32.ofInt (value.bmod width)).toInt = value.bmod width := by
  have low := Int.le_bmod (x := value) positive
  have high := Int.bmod_lt (x := value) positive
  have size : Int32.size = 2^32 := rfl
  rw [Int32.toInt_ofInt,size,Int.bmod_eq_of_le] <;> omega

theorem Position.unpacked_packed (pos : Position) : unpacked pos.packed = pos.reduced := by
  obtain ⟨x,y,z⟩ := toInt_unpacked pos.packed
  have fields := pos.toNat_packed
  have partX : ((pos.packed.toNat / 2^38 : Nat) : Int) = pos.x.toInt % (2 * 2^25 : Nat) := by omega
  have partY : ((pos.packed.toNat / 2^26 : Nat) : Int) = pos.y.toInt % (2 * 2^11 : Nat) + (2 * 2^11 : Nat) * (pos.x.toInt % 2^26) := by
    omega
  have partZ : (pos.packed.toNat : Int) = pos.z.toInt % (2 * 2^25 : Nat) +
      (2 * 2^25 : Nat) * (pos.y.toInt % 2^12 + 2^12 * (pos.x.toInt % 2^26)) := by omega
  rw [partX,Int.emod_bmod] at x
  rw [partY,Int.add_mul_bmod_self_left,Int.emod_bmod] at y
  rw [partZ,Int.add_mul_bmod_self_left,Int.emod_bmod] at z
  have same (left right : Position) (first : left.x.toInt = right.x.toInt) (second : left.y.toInt = right.y.toInt)
      (third : left.z.toInt = right.z.toInt) : left = right := by
    cases left
    cases right
    simp only [Position.mk.injEq]
    exact ⟨Int32.toInt_inj.mp first,Int32.toInt_inj.mp second,Int32.toInt_inj.mp third⟩
  exact same _ _ (x.trans (toInt_ofInt_bmod _ (by decide) (by decide)).symm)
    (y.trans (toInt_ofInt_bmod _ (by decide) (by decide)).symm) (z.trans (toInt_ofInt_bmod _ (by decide) (by decide)).symm)

theorem Position.unpacked_inRange (i : UInt64) : (unpacked i).InRange := by
  obtain ⟨x,y,z⟩ := toInt_unpacked i
  have bounds (value : Int) (scale : Nat) (positive : 0 < scale) :
      -(scale : Int) ≤ value.bmod (2 * scale) ∧ value.bmod (2 * scale) < scale := by
    have low := Int.le_bmod (x := value) (m := 2 * scale) (by omega)
    have high := Int.bmod_lt (x := value) (m := 2 * scale) (by omega)
    omega
  exact ⟨x ▸ bounds _ (2^25) (by decide),y ▸ bounds _ (2^11) (by decide),z ▸ bounds _ (2^25) (by decide)⟩

theorem Position.packed_unpacked (i : UInt64) : (unpacked i).packed = i := by
  obtain ⟨x,y,z⟩ := toInt_unpacked i
  have fields := (unpacked i).toNat_packed
  have word := i.toNat_lt
  have modX : (unpacked i).x.toInt % (2 * 2^25 : Nat) = (i.toNat / 2^38 : Nat) % (2 * 2^25 : Nat) := by rw [x,Int.bmod_emod]
  have modY : (unpacked i).y.toInt % (2 * 2^11 : Nat) = (i.toNat / 2^26 : Nat) % (2 * 2^11 : Nat) := by rw [y,Int.bmod_emod]
  have modZ : (unpacked i).z.toInt % (2 * 2^25 : Nat) = (i.toNat : Nat) % (2 * 2^25 : Nat) := by rw [z,Int.bmod_emod]
  apply UInt64.toNat_inj.mp
  omega

theorem Position.reduced_of_inRange {pos : Position} (range : pos.InRange) : pos.reduced = pos := by
  obtain ⟨x,y,z⟩ := pos
  have ⟨inX,inY,inZ⟩ := range
  dsimp only at inX inY inZ
  have small (number : Int32) (scale : Nat) (low : -(scale : Int) ≤ number.toInt) (high : number.toInt < scale) :
      Int32.ofInt (number.toInt.bmod (2 * scale)) = number := by
    rw [Int.bmod_eq_of_le (by omega) (by omega),Int32.ofInt_toInt]
  simp only [reduced,Position.mk.injEq]
  exact ⟨small x (2^25) inX.1 inX.2,small y (2^11) inY.1 inY.2,small z (2^25) inZ.1 inZ.2⟩

theorem decPosition_reduced (pos : Position) : Reads decPosition (encPosition pos) pos.reduced := by
  intro rest
  rw [decPosition_unpacked,encPosition_packed,decBe64_encBe64 _ rest,Decoded.map_ok,Position.unpacked_packed]

theorem decPosition_encPosition {pos : Position} (range : pos.InRange) :
    Reads decPosition (encPosition pos) pos := by
  have reads := decPosition_reduced pos
  rwa [Position.reduced_of_inRange range] at reads

theorem decPosition_bytes {bytes : List UInt8} (width : bytes.length = 8) :
    ∃ pos, Reads decPosition bytes pos ∧ encPosition pos = bytes ∧ pos.InRange := by
  have bound := value_lt bytes
  rw [width] at bound
  have whole : (UInt64.ofNat (value bytes)).toNat = value bytes := by
    rw [UInt64.toNat_ofNat']
    omega
  refine ⟨_,(decBe64_reads bytes width).map _,?_,Position.unpacked_inRange _⟩
  change encPosition (Position.unpacked (UInt64.ofNat (value bytes))) = bytes
  rw [encPosition_packed,Position.packed_unpacked,encBe64,whole,← width,bigEndian_value]

/-- Positions in range and words of eight bytes are each other's encodings, and any coordinates are encoded as what
their own fields can say of them. -/
theorem position_fields : (∀ pos : Position, pos.InRange → Reads decPosition (encPosition pos) pos) ∧
    (∀ bytes : List UInt8, bytes.length = 8 →
      ∃ pos, Reads decPosition bytes pos ∧ encPosition pos = bytes ∧ pos.InRange) ∧
    ∀ pos : Position, Reads decPosition (encPosition pos) pos.reduced :=
  ⟨fun _ => decPosition_encPosition,fun _ => decPosition_bytes,decPosition_reduced⟩

-- z is one above its range, and x and y are not touched
example : Position.reduced ⟨-1,2,2^25⟩ = ⟨-1,2,-2^25⟩ := by decide

end CSpock.Numeric
