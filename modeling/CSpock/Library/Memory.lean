import Mathlib

/-! A memory of bytes under 64-bit addresses, little endian, and regions of it. -/
namespace CSpock.Library.Memory

abbrev Address := BitVec 64

abbrev Bytes := Address → BitVec 8

/-- The place is one of the `size` bytes from `base` on, which may go around the end of the addresses. -/
def Within (place base : Address) (size : Nat) : Prop := (place - base).toNat < size

instance (place base : Address) (size : Nat) : Decidable (Within place base size) :=
  inferInstanceAs (Decidable (_ < _))

def Apart (base : Address) (size : Nat) (other : Address) (extent : Nat) : Prop :=
  size ≤ (other - base).toNat ∧ extent ≤ (base - other).toNat

instance (base other : Address) (size extent : Nat) : Decidable (Apart base size other extent) :=
  inferInstanceAs (Decidable (_ ∧ _))

def Inside (base : Address) (size : Nat) (whole : Address) (extent : Nat) : Prop :=
  (base - whole).toNat + size ≤ extent

instance (base whole : Address) (size extent : Nat) : Decidable (Inside base size whole extent) :=
  inferInstanceAs (Decidable (_ ≤ _))

section Regions
variable {base other whole whole' place : Address} {size extent room room' : Nat}

theorem Apart.symm (apart : Apart base size other extent) : Apart other extent base size := And.symm apart

theorem Apart.disjoint (apart : Apart base size other extent) (within : Within place base size) :
    ¬Within place other extent := by
  obtain ⟨after,before⟩ := apart
  unfold Within at *
  bv_omega

theorem Apart.inside (apart : Apart whole room whole' room') (first : Inside base size whole room)
    (second : Inside other extent whole' room') (filled : 0 < size) (filled' : 0 < extent) : Apart base size other extent := by
  obtain ⟨after,before⟩ := apart
  unfold Inside at *
  constructor <;> bv_omega

theorem Apart.narrow (apart : Apart whole room other extent) (inside : Inside base size whole room) (filled : 0 < size)
    (filled' : 0 < extent) : Apart base size other extent :=
  apart.inside inside (by simp [Inside]) filled filled'

theorem Inside.within (inside : Inside base size whole room) (within : Within place base size) :
    Within place whole room := by
  unfold Inside Within at *
  bv_omega

theorem Inside.trans (inside : Inside base size whole room) (outer : Inside whole room whole' room') :
    Inside base size whole' room' := by
  unfold Inside at *
  bv_omega

@[simp] theorem apart_add (base first second : Address) (size extent : Nat) :
    Apart (base + first) size (base + second) extent ↔ Apart first size second extent := by
  have after : base + second - (base + first) = second - first := by bv_omega
  have before : base + first - (base + second) = first - second := by bv_omega
  rw [Apart,Apart,after,before]

theorem apart_offset (base offset : Address) (size extent : Nat) :
    Apart base size (base + offset) extent ↔ Apart 0#64 size offset extent := by
  simpa using apart_add base 0#64 offset size extent

theorem offset_apart (base offset : Address) (size extent : Nat) :
    Apart (base + offset) size base extent ↔ Apart offset size 0#64 extent := by
  simpa using apart_add base offset 0#64 size extent

theorem inside_add (base offset : Address) {size room : Nat} (fits : offset.toNat + size ≤ room) :
    Inside (base + offset) size base room := by
  have distance : base + offset - base = offset := by bv_omega
  rwa [Inside,distance]

end Regions

/-- The number in the `width / 8` bytes from `address` on. -/
def load (width : Nat) (memory : Bytes) (address : Address) : BitVec width :=
  BitVec.ofFnLE fun index => (memory (address + BitVec.ofNat 64 (index / 8))).getLsbD (index % 8)

def store {width : Nat} (memory : Bytes) (address : Address) (value : BitVec width) : Bytes := fun place =>
  if Within place address (width / 8) then value.extractLsb' (8 * (place - address).toNat) 8 else memory place

section Access
variable {width width' : Nat} {memory memory' : Bytes} {address address' : Address}

theorem store_outside {place : Address} {value : BitVec width} (outside : ¬Within place address (width / 8)) :
    store memory address value place = memory place := if_neg outside

theorem store_field {place base offset : Address} {room : Nat} {value : BitVec width} (outside : ¬Within place base room)
    (fits : offset.toNat + width / 8 ≤ room) : store memory (base + offset) value place = memory place :=
  store_outside fun within => outside ((inside_add base offset fits).within within)

theorem load_congr (bytes : 8 ∣ width) (small : width / 8 ≤ 2^64)
    (same : ∀ place, Within place address (width / 8) → memory place = memory' place) :
    load width memory address = load width memory' address := by
  refine BitVec.eq_of_getLsbD_eq fun index bound => ?_
  simp only [load,BitVec.getLsbD_ofFnLE,bound,dif_pos]
  rw [same]
  have position : index / 8 < width / 8 := by omega
  unfold Within
  bv_omega

theorem load_store (bytes : 8 ∣ width) (small : width / 8 ≤ 2^64) (value : BitVec width) :
    load width (store memory address value) address = value := by
  refine BitVec.eq_of_getLsbD_eq fun index bound => ?_
  have position : index / 8 < width / 8 := by omega
  have offset : (address + BitVec.ofNat 64 (index / 8) - address).toNat = index / 8 := by bv_omega
  have within : Within (address + BitVec.ofNat 64 (index / 8)) address (width / 8) := by rwa [Within,offset]
  have bit : index % 8 < 8 := Nat.mod_lt _ (by omega)
  have digits : 8 * (index / 8) + index % 8 = index := Nat.div_add_mod index 8
  simp only [load,BitVec.getLsbD_ofFnLE,bound,dif_pos,store,if_pos within,offset,BitVec.getLsbD_extractLsb',bit,digits,
    decide_true,Bool.true_and]

theorem load_store_apart (bytes : 8 ∣ width) (small : width / 8 ≤ 2^64) {value : BitVec width'}
    (apart : Apart address (width / 8) address' (width' / 8)) :
    load width (store memory address' value) address = load width memory address :=
  load_congr bytes small fun _ within => store_outside (apart.disjoint within)

end Access

end CSpock.Library.Memory
