import CSpock.Library.Endian

/-! The fixed-width numeric types of `datautils.c`. An encoder is given as the
bytes it writes at `dest`, a decoder as what it stores and the cursor it returns.
Floating-point numbers are the bit patterns that are copied. -/
namespace CSpock.Numeric
open CSpock.Library.Cursor CSpock.Library.Endian

/-- A signed value as `size_t`. -/
def sizeT (value : Int) : Nat := (value % 2^64).toNat

/-- A value stored in an `int`. -/
def cInt (value : Int) : Int := value.bmod (2^32)

theorem sizeT_of_nonneg {value : Int} (nonneg : 0 ≤ value) (small : value < 2^64) :
    (sizeT value : Int) = value := by
  unfold sizeT
  omega

@[simp] theorem sizeT_natCast {value : Nat} (small : value < 2^64) : sizeT (value : Int) = value := by
  unfold sizeT
  omega

theorem sizeT_of_neg {value : Int} (neg : value < 0) (small : -2^63 ≤ value) :
    2^63 ≤ sizeT value := by
  unfold sizeT
  omega

theorem cInt_of_small {value : Int} (low : -2^31 ≤ value) (high : value < 2^31) :
    cInt value = value := by
  unfold cInt
  rw [Int.bmod_eq_of_le] <;> omega

theorem cInt_natCast {value : Nat} (small : value < 2^31) : cInt (value : Int) = value :=
  cInt_of_small (by omega) (by omega)

theorem cInt_natCast_le (value : Nat) : cInt value ≤ value := by
  unfold cInt
  rw [Int.bmod_def]
  split <;> omega

@[simp] theorem cInt_add (value more : Int) : cInt (cInt value + more) = cInt (value + more) :=
  Int.bmod_add_bmod ..

@[simp] theorem cInt_idem (value : Int) : cInt (cInt value) = cInt value := Int.bmod_bmod ..

theorem cInt_of_large {value : Int} (low : 2^31 ≤ value) (high : value < 2^32) : cInt value < 0 := by
  unfold cInt
  rw [Int.bmod_def]
  omega

theorem cInt_lt (value : Int) : cInt value < 2^31 := by
  unfold cInt
  rw [Int.bmod_def]
  omega

theorem toInt_toInt32 (number : UInt32) : number.toInt32.toInt = cInt number.toNat := by
  have bits : number.toInt32.toInt = number.toInt32.toBitVec.toInt := rfl
  rw [bits,UInt32.toBitVec_toInt32,BitVec.toInt_eq_toNat_bmod]
  rfl

theorem toInt_toInt16 (number : UInt16) : number.toInt16.toInt = (number.toNat : Int).bmod (2^16) := by
  have bits : number.toInt16.toInt = number.toInt16.toBitVec.toInt := rfl
  rw [bits,UInt16.toBitVec_toInt16,BitVec.toInt_eq_toNat_bmod]
  rfl

/-- Subtraction from a `size_t`. -/
def sizeSub (size : Nat) (step : Int) : Nat := sizeT (size - step)

@[simp] theorem sizeSub_natCast {size step : Nat} (inside : step ≤ size) (small : size < 2^64) :
    sizeSub size (step : Int) = size - step := by
  unfold sizeSub sizeT
  omega

@[simp] theorem sizeSub_zero {size : Nat} (small : size < 2^64) : sizeSub size 0 = size := by
  unfold sizeSub sizeT
  omega

def encByte (source : UInt8) : List UInt8 := [source]

def decByte : List UInt8 → Decoded UInt8
  | [] => .fault
  | byte::rest => .ok byte rest

def encBe16 (source : UInt16) : List UInt8 := bigEndian 2 source.toNat
def decBe16 (source : List UInt8) : Decoded UInt16 := (scanValue 2 source).map UInt16.ofNat

def encBe32 (source : UInt32) : List UInt8 := bigEndian 4 source.toNat
def decBe32 (source : List UInt8) : Decoded UInt32 := (scanValue 4 source).map UInt32.ofNat

def encBe64 (source : UInt64) : List UInt8 := bigEndian 8 source.toNat
def decBe64 (source : List UInt8) : Decoded UInt64 := (scanValue 8 source).map UInt64.ofNat

/-- The bit pattern of a `float` goes out in the byte order of `enc_be32`. -/
def encBef32 (source : UInt32) : List UInt8 := encBe32 source
def decBef32 (source : List UInt8) : Decoded UInt32 := decBe32 source

structure Uuid where
  msb : UInt64
  lsb : UInt64
  deriving Repr, DecidableEq

def encUuid (source : Uuid) : List UInt8 := encBe64 source.msb ++ encBe64 source.lsb

def decUuid (source : List UInt8) : Decoded Uuid :=
  (decBe64 source).andThen fun msb source => (decBe64 source).map fun lsb => ⟨msb,lsb⟩

@[simp] theorem decByte_cons (byte : UInt8) (rest : List UInt8) : decByte (byte::rest) = .ok byte rest := rfl

theorem decByte_encByte (byte : UInt8) : Reads decByte (encByte byte) byte := fun _ => rfl

theorem decByte_eq_ok {source rest : List UInt8} {byte : UInt8} (ran : decByte source = .ok byte rest) :
    source = byte::rest := by
  cases source with
  | nil => cases ran
  | cons first tail => cases ran; rfl

theorem decBe16_reads (bytes : List UInt8) (width : bytes.length = 2) :
    Reads decBe16 bytes (UInt16.ofNat (value bytes)) := by
  have reads := (scanValue_reads bytes).map UInt16.ofNat
  rwa [width] at reads

theorem decBe32_reads (bytes : List UInt8) (width : bytes.length = 4) :
    Reads decBe32 bytes (UInt32.ofNat (value bytes)) := by
  have reads := (scanValue_reads bytes).map UInt32.ofNat
  rwa [width] at reads

theorem decBe64_reads (bytes : List UInt8) (width : bytes.length = 8) :
    Reads decBe64 bytes (UInt64.ofNat (value bytes)) := by
  have reads := (scanValue_reads bytes).map UInt64.ofNat
  rwa [width] at reads

theorem decBe16_encBe16 (number : UInt16) : Reads decBe16 (encBe16 number) number := by
  have reads := (scanValue_bigEndian 2 number.toNat number.toNat_lt).map UInt16.ofNat
  rwa [UInt16.ofNat_toNat] at reads

theorem decBe32_encBe32 (number : UInt32) : Reads decBe32 (encBe32 number) number := by
  have reads := (scanValue_bigEndian 4 number.toNat number.toNat_lt).map UInt32.ofNat
  rwa [UInt32.ofNat_toNat] at reads

theorem decBe64_encBe64 (number : UInt64) : Reads decBe64 (encBe64 number) number := by
  have reads := (scanValue_bigEndian 8 number.toNat number.toNat_lt).map UInt64.ofNat
  rwa [UInt64.ofNat_toNat] at reads

theorem decBe16_eq_ok {source rest : List UInt8} {number : UInt16} (read : decBe16 source = .ok number rest) :
    ∃ header, source = header ++ rest ∧ header.length = 2 ∧ number = UInt16.ofNat (value header) ∧
      number.toNat = value header := by
  obtain ⟨sum,scanned,rfl⟩ := Decoded.map_eq_ok read
  obtain ⟨header,copied,rfl⟩ := Decoded.map_eq_ok scanned
  obtain ⟨rfl,width⟩ := scan_eq_ok copied
  have bound := value_lt header
  rw [width] at bound
  refine ⟨header,rfl,width,rfl,?_⟩
  rw [UInt16.toNat_ofNat']
  omega

theorem decBe32_eq_ok {source rest : List UInt8} {number : UInt32} (read : decBe32 source = .ok number rest) :
    ∃ header, source = header ++ rest ∧ header.length = 4 ∧ number = UInt32.ofNat (value header) ∧
      number.toNat = value header := by
  obtain ⟨sum,scanned,rfl⟩ := Decoded.map_eq_ok read
  obtain ⟨header,copied,rfl⟩ := Decoded.map_eq_ok scanned
  obtain ⟨rfl,width⟩ := scan_eq_ok copied
  have bound := value_lt header
  rw [width] at bound
  refine ⟨header,rfl,width,rfl,?_⟩
  rw [UInt32.toNat_ofNat']
  omega

theorem decBe16_short {source : List UInt8} (short : source.length < 2) : decBe16 source = .fault := by
  simp [decBe16,scanValue,scan,short]

theorem decBe32_short {source : List UInt8} (short : source.length < 4) : decBe32 source = .fault := by
  simp [decBe32,scanValue,scan,short]

theorem decBef32_encBef32 (pattern : UInt32) : Reads decBef32 (encBef32 pattern) pattern :=
  decBe32_encBe32 pattern

theorem decUuid_encUuid (uuid : Uuid) : Reads decUuid (encUuid uuid) uuid :=
  (decBe64_encBe64 uuid.msb).andThen ((decBe64_encBe64 uuid.lsb).map _)

@[simp] theorem length_encBe64 (number : UInt64) : (encBe64 number).length = 8 := length_bigEndian 8 _
@[simp] theorem length_encBe32 (number : UInt32) : (encBe32 number).length = 4 := length_bigEndian 4 _
@[simp] theorem length_encBe16 (number : UInt16) : (encBe16 number).length = 2 := length_bigEndian 2 _

end CSpock.Numeric
