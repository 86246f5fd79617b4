import CSpock.Library.Cursor

/-! Fixed-width big-endian numbers as byte lists. -/
namespace CSpock.Library.Endian
open CSpock.Library.Cursor

/-- The `width` low-order bytes of a number, most significant first. -/
def bigEndian : Nat → Nat → List UInt8
  | 0,_ => []
  | width+1,value => bigEndian width (value / 256) ++ [UInt8.ofNat (value % 256)]

def value (bytes : List UInt8) : Nat := bytes.foldl (fun high byte => high * 256 + byte.toNat) 0

@[simp] theorem length_bigEndian (width number : Nat) : (bigEndian width number).length = width := by
  induction width generalizing number with
  | zero => rfl
  | succ width ih => simp [bigEndian,ih]

@[simp] theorem value_nil : value [] = 0 := rfl

theorem value_concat (bytes : List UInt8) (byte : UInt8) :
    value (bytes ++ [byte]) = value bytes * 256 + byte.toNat := by
  simp [value]

theorem value_bigEndian (width number : Nat) : value (bigEndian width number) = number % 256^width := by
  induction width generalizing number with
  | zero => simp [bigEndian,Nat.mod_one]
  | succ width ih =>
    have low : (UInt8.ofNat (number % 256)).toNat = number % 256 := by simp
    rw [bigEndian,value_concat,ih,low,Nat.pow_succ,Nat.mul_comm (256^width),Nat.mod_mul]
    omega

theorem value_lt (bytes : List UInt8) : value bytes < 256^bytes.length := by
  induction bytes using List.reverseRecOn with
  | nil => simp
  | append_singleton bytes byte ih =>
    have small := byte.toNat_lt
    rw [value_concat,List.length_append,List.length_singleton,Nat.pow_succ]
    omega

theorem bigEndian_value (bytes : List UInt8) : bigEndian bytes.length (value bytes) = bytes := by
  induction bytes using List.reverseRecOn with
  | nil => rfl
  | append_singleton bytes byte ih =>
    have small := byte.toNat_lt
    have high : (value bytes * 256 + byte.toNat) / 256 = value bytes := by omega
    have low : (value bytes * 256 + byte.toNat) % 256 = byte.toNat := by omega
    rw [value_concat,List.length_append,List.length_singleton,bigEndian,high,low,ih]
    simp

def scan (n : Nat) (source : List UInt8) : Decoded (List UInt8) :=
  if source.length < n then .fault else .ok (source.take n) (source.drop n)

theorem scan_reads (bytes : List UInt8) : Reads (scan bytes.length) bytes bytes := by
  intro rest
  simp [scan]

theorem scan_eq_ok {n : Nat} {source bytes rest : List UInt8} (ran : scan n source = .ok bytes rest) :
    source = bytes ++ rest ∧ bytes.length = n := by
  unfold scan at ran
  split at ran
  next => cases ran
  next enough =>
    cases ran
    exact ⟨(List.take_append_drop n source).symm,by simp; omega⟩

/-- The big-endian number in the next `width` bytes. -/
def scanValue (width : Nat) (source : List UInt8) : Decoded Nat := (scan width source).map value

theorem scanValue_reads (bytes : List UInt8) : Reads (scanValue bytes.length) bytes (value bytes) :=
  (scan_reads bytes).map value

theorem scanValue_bigEndian (width number : Nat) (small : number < 256^width) :
    Reads (scanValue width) (bigEndian width number) number := by
  have reads := scanValue_reads (bigEndian width number)
  rwa [length_bigEndian,value_bigEndian,Nat.mod_eq_of_lt small] at reads

end CSpock.Library.Endian
