import CSpock.Varnum

/-! The 64-bit numbers of `datautils.c`, in the same groups of seven bits as the 32-bit ones. -/
namespace CSpock.Varnum
open CSpock.Library.Cursor CSpock.Library.Septets CSpock.Numeric

def sizeVarlong (varint : UInt64) : Nat :=
  if varint.toNat < 2^8 then 1
  else if varint.toNat < 2^14 then 2
  else if varint.toNat < 2^21 then 3
  else if varint.toNat < 2^28 then 4
  else if varint.toNat < 2^35 then 5
  else if varint.toNat < 2^42 then 6
  else if varint.toNat < 2^49 then 7
  else if varint.toNat < 2^56 then 8
  else if varint.toNat < 2^63 then 9
  else 10

/-- As in the walker of the 32-bit numbers, with eight bytes that may ask for another one. -/
def walkVarlong (source : List UInt8) (maxLen : Nat) : Option Int := walkGroups 8 source maxLen

theorem shiftRight_seven_long (number : UInt64) : (number >>> 7).toNat = number.toNat / 128 := by
  rw [UInt64.toNat_shiftRight]
  simp [Nat.shiftRight_eq_div_pow]

def encVarlong (source : UInt64) : List UInt8 :=
  if 0x80 ≤ source then (0x80 ||| (source &&& 0x7F)).toUInt8 :: encVarlong (source >>> 7)
  else [(source &&& 0x7F).toUInt8]
termination_by source.toNat
decreasing_by
  rename_i large
  have large : 128 ≤ source.toNat := large
  rw [shiftRight_seven_long]
  omega

/-- The loop of `dec_varlong`. What is shifted is an `int`: the count is taken modulo 32, as the hardware
does, and the sum is widened with its sign. -/
def decVarlongLoop : List UInt8 → UInt64 → Nat → Decoded UInt64
  | [],_,_ => .fault
  | byte::source,dest,i =>
    let dest' := dest ||| ((byte &&& 0x7F).toUInt32 <<< UInt32.ofNat i).toInt32.toInt64.toUInt64
    if byte &&& 0x80 ≠ 0 then decVarlongLoop source dest' (i+7) else .ok dest' source

def decVarlong (source : List UInt8) : Decoded Int64 :=
  (decVarlongLoop source 0 0).map UInt64.toInt64

theorem encVarlong_septets (number : UInt64) : encVarlong number = septets number.toNat := by
  induction measure : number.toNat using Nat.strongRecOn generalizing number with
  | ind whole ih =>
    subst measure
    have mask : (number &&& 0x7F).toNat = number.toNat % 128 := by
      rw [UInt64.toNat_and]
      exact Nat.and_two_pow_sub_one_eq_mod number.toNat 7
    by_cases large : 0x80 ≤ number
    · have past : 128 ≤ number.toNat := large
      have byte : (0x80 ||| (number &&& 0x7F)).toUInt8 = UInt8.ofNat (128 + number.toNat % 128) := by
        have joined := Nat.two_pow_add_eq_or_of_lt (show number.toNat % 128 < 2^7 by omega) 1
        apply UInt8.toNat_inj.mp
        rw [UInt64.toNat_toUInt8,UInt64.toNat_or,mask,UInt8.toNat_ofNat']
        change (2^7 ||| number.toNat % 128) % 2^8 = _
        rw [← Nat.mul_one (2^7),← joined]
      rw [encVarlong,if_pos large,septets_large past,byte,ih _ (by rw [shiftRight_seven_long]; omega) _ rfl,
        shiftRight_seven_long]
    · have below : number.toNat < 128 := by
        rw [UInt64.le_iff_toNat_le] at large
        simpa using large
      have byte : (number &&& 0x7F).toUInt8 = UInt8.ofNat number.toNat := by
        apply UInt8.toNat_inj.mp
        rw [UInt64.toNat_toUInt8,mask,UInt8.toNat_ofNat']
        omega
      rw [encVarlong,if_neg large,septets_small below,byte]

theorem encVarlong_groups (number : UInt64) (most : Nat) (small : number.toNat < 128^(most+1)) :
    Groups (most+1) (encVarlong number) ∧ groupsValue (encVarlong number) = number.toNat :=
  encVarlong_septets number ▸ septets_groups number.toNat most small

/-! Sizes. The first threshold of both functions is that of a whole byte. -/

theorem sizeVarlong_iff (number : UInt64) : sizeVarlong number = (encVarlong number).length ↔
    ¬(128 ≤ number.toNat ∧ number.toNat < 256) := by
  have bound := number.toNat_lt
  have positive : 1 ≤ (septets number.toNat).length := by
    rw [septets]
    split <;> simp
  have reaches (digits : Nat) := length_septets_le number.toNat digits
  have one := reaches 0
  have two := reaches 1
  have three := reaches 2
  have four := reaches 3
  have five := reaches 4
  have six := reaches 5
  have seven := reaches 6
  have eight := reaches 7
  have nine := reaches 8
  have ten := reaches 9
  rw [encVarlong_septets,sizeVarlong]
  repeat' split
  all_goals omega

theorem sizeVarint_eq (number : UInt32) : sizeVarint number = sizeVarlong number.toUInt64 := by
  have bound := number.toNat_lt
  unfold sizeVarint sizeVarlong
  rw [UInt32.toNat_toUInt64]
  repeat' split
  all_goals omega

theorem encVarint_eq (number : UInt32) : encVarint number = encVarlong number.toUInt64 := by
  rw [encVarint_septets,encVarlong_septets,UInt32.toNat_toUInt64]

theorem sizeVarint_iff (number : UInt32) : sizeVarint number = (encVarint number).length ↔
    ¬(128 ≤ number.toNat ∧ number.toNat < 256) := by
  rw [sizeVarint_eq,encVarint_eq,sizeVarlong_iff,UInt32.toNat_toUInt64]

/-- A size is right except for the numbers that need a second byte only for their eighth bit. -/
theorem sizes_iff (narrow : UInt32) (wide : UInt64) :
    (sizeVarint narrow = (encVarint narrow).length ↔ ¬(128 ≤ narrow.toNat ∧ narrow.toNat < 256)) ∧
    (sizeVarlong wide = (encVarlong wide).length ↔ ¬(128 ≤ wide.toNat ∧ wide.toNat < 256)) :=
  ⟨sizeVarint_iff narrow,sizeVarlong_iff wide⟩

theorem sizes_fails : ¬((∀ number : UInt32, sizeVarint number = (encVarint number).length) ∧
    ∀ number : UInt64, sizeVarlong number = (encVarlong number).length) := by
  rintro ⟨sized,_⟩
  have one : sizeVarint 128 = 1 := by decide
  have two : (encVarint 128).length = 2 := by
    rw [encVarint_septets,septets_large (by decide),septets_small (by decide)]
    rfl
  have same := sized 128
  omega

theorem encVarlong_ten {number : UInt64} (large : 2^63 ≤ number.toNat) : encVarlong number =
    [UInt8.ofNat (128 + number.toNat % 128),UInt8.ofNat (128 + number.toNat / 2^7 % 128),
      UInt8.ofNat (128 + number.toNat / 2^14 % 128),UInt8.ofNat (128 + number.toNat / 2^21 % 128),
      UInt8.ofNat (128 + number.toNat / 2^28 % 128),UInt8.ofNat (128 + number.toNat / 2^35 % 128),
      UInt8.ofNat (128 + number.toNat / 2^42 % 128),UInt8.ofNat (128 + number.toNat / 2^49 % 128),
      UInt8.ofNat (128 + number.toNat / 2^56 % 128),UInt8.ofNat (number.toNat / 2^63)] := by
  have bound := number.toNat_lt
  rw [encVarlong_septets]
  iterate 9 rw [septets_large (by omega)]
  rw [septets_small (by omega)]
  simp only [Nat.div_div_eq_div_mul,Nat.reducePow,Nat.reduceMul]

/-! The walker. A number whose top bit is set takes ten bytes, of which nine ask for another one. -/

theorem walkVarlong_iff (number : UInt64) : (∀ rest maxLen, ((encVarlong number).length ≤ maxLen →
        walkVarlong (encVarlong number ++ rest) maxLen = some ((encVarlong number).length : Int)) ∧
      (maxLen < (encVarlong number).length → walkVarlong (encVarlong number ++ rest) maxLen = some varnumOverrun)) ↔
    number.toNat < 2^63 := by
  constructor
  · intro agrees
    have walked := (agrees [] _).1 (Nat.le_refl _)
    obtain ⟨bytes,_,_,groups,length,_⟩ := walkGroups_accepts walked (by omega)
    have most := groups.length_le
    rw [encVarlong_septets] at length
    exact (length_septets_le number.toNat 8).mp (by omega)
  · intro small rest maxLen
    have groups := (encVarlong_groups number 8 small).1
    exact ⟨walkGroups_groups groups rest maxLen,walkGroups_short groups rest⟩

theorem walkVarlong_fails : ¬∀ (number : UInt64) rest maxLen, ((encVarlong number).length ≤ maxLen →
        walkVarlong (encVarlong number ++ rest) maxLen = some ((encVarlong number).length : Int)) ∧
      (maxLen < (encVarlong number).length →
        walkVarlong (encVarlong number ++ rest) maxLen = some varnumOverrun) := by
  intro agrees
  have bytes : encVarlong 0x8000000000000000 = [0x80,0x80,0x80,0x80,0x80,0x80,0x80,0x80,0x80,0x01] :=
    encVarlong_ten (by decide)
  have refused : walkVarlong [0x80,0x80,0x80,0x80,0x80,0x80,0x80,0x80,0x80,0x01] 10 = some varnumInvalid := by decide
  have walked := (agrees 0x8000000000000000 [] 10).1
  rw [bytes] at walked
  exact absurd (refused.symm.trans (walked (by decide))) (by decide)

/-! The decoder. Its sum has 32 bits, as that of the shorter numbers, and is then widened. -/

theorem decVarlongLoop_widens (source : List UInt8) (dest : UInt32) (i : Nat) :
    decVarlongLoop source dest.toInt32.toInt64.toUInt64 i =
      (decVarintLoop source dest i).map fun word => word.toInt32.toInt64.toUInt64 := by
  induction source generalizing dest i with
  | nil => rfl
  | cons byte source ih =>
    have widened (term : UInt32) : dest.toInt32.toInt64.toUInt64 ||| term.toInt32.toInt64.toUInt64 =
        (dest ||| term).toInt32.toInt64.toUInt64 := by simp
    simp only [decVarlongLoop,decVarintLoop,widened]
    split
    · exact ih _ _
    · rfl

theorem decVarlong_eq (source : List UInt8) : decVarlong source = (decVarint source).map Int32.toInt64 := by
  have widened := decVarlongLoop_widens source 0 0
  change decVarlongLoop source 0 0 = _ at widened
  rw [decVarlong,decVarint,widened]
  cases decVarintLoop source 0 0 <;> rfl

theorem decVarintLoop_or (source : List UInt8) (dest more : UInt32) (i : Nat) :
    decVarintLoop source (dest ||| more) i = (decVarintLoop source dest i).map (· ||| more) := by
  induction source generalizing dest i with
  | nil => rfl
  | cons byte source ih =>
    have swapped (term : UInt32) : dest ||| more ||| term = dest ||| term ||| more := by
      rw [UInt32.or_assoc,UInt32.or_comm more,← UInt32.or_assoc]
    simp only [decVarintLoop,swapped]
    split
    · exact ih _ _
    · rfl

theorem decVarintLoop_more {byte : UInt8} (set : 128 ≤ byte.toNat) (source : List UInt8) (dest : UInt32) (i : Nat) :
    decVarintLoop (byte::source) dest i =
      decVarintLoop source (dest ||| ((byte &&& 0x7F).toUInt32 <<< UInt32.ofNat i)) (i+7) := by
  rw [decVarintLoop]
  exact if_pos ((top_bit byte).mpr set)

/-- The sum of a number whose upper 33 bits are set: from the sixth byte on, the counts begin again with 3. -/
theorem decVarint_negative {number : UInt64} (large : 2^64 - 2^31 ≤ number.toNat) (rest : List UInt8) :
    ∃ low : UInt32, decVarint (encVarlong number ++ rest) = .ok (0xFFFFFFF8 ||| low).toInt32 rest := by
  have bound := number.toNat_lt
  have set (digit : Nat) (small : digit < 128) : 128 ≤ (UInt8.ofNat (128 + digit)).toNat := by
    rw [UInt8.toNat_ofNat']
    omega
  have ones (k : Nat) (high : number.toNat / 2^k % 128 = 127) : UInt8.ofNat (128 + number.toNat / 2^k % 128) = 0xFF := by
    rw [high]
    rfl
  have last : UInt8.ofNat (number.toNat / 2^63) = 0x01 := by
    rw [show number.toNat / 2^63 = 1 by omega]
    rfl
  rw [encVarlong_ten (by omega),ones 35 (by omega),ones 42 (by omega),ones 49 (by omega),ones 56 (by omega),last]
  simp only [List.cons_append,List.nil_append,decVarint]
  iterate 5 rw [decVarintLoop_more (set _ (by omega))]
  generalize (0 : UInt32) ||| _ ||| _ ||| _ ||| _ ||| _ = low
  refine ⟨low,?_⟩
  have tail : decVarintLoop (0xFF::0xFF::0xFF::0xFF::0x01::rest) 0 35 = .ok 0xFFFFFFF8 rest := rfl
  have sum := decVarintLoop_or (0xFF::0xFF::0xFF::0xFF::0x01::rest) 0 low 35
  rw [UInt32.zero_or,tail] at sum
  rw [sum]
  rfl

theorem toInt_toInt64 (number : UInt64) : number.toInt64.toInt = (number.toNat : Int).bmod (2^64) := by
  have bits : number.toInt64.toInt = number.toInt64.toBitVec.toInt := rfl
  rw [bits,UInt64.toBitVec_toInt64,BitVec.toInt_eq_toNat_bmod]
  rfl

theorem decVarlong_first {number : UInt64} (small : number.toNat < 2^31) :
    Reads decVarlong (encVarlong number) number.toInt64 := by
  intro rest
  obtain ⟨groups,sum⟩ := encVarlong_groups number 4 (by omega)
  have same : (UInt32.ofNat number.toNat).toInt32.toInt64 = number.toInt64 := by
    apply Int64.toInt_inj.mp
    rw [Int32.toInt_toInt64,toInt_toInt32,toInt_toInt64,UInt32.toNat_ofNat',Nat.mod_eq_of_lt (by omega),cInt_natCast small]
    exact (Int.bmod_eq_of_le (by omega) (by omega)).symm
  rw [decVarlong_eq,decVarint_varint groups rest,varintValue,sum,Decoded.map_ok,same]

theorem decVarlong_last {number : UInt64} (large : 2^64 - 8 ≤ number.toNat) :
    Reads decVarlong (encVarlong number) number.toInt64 := by
  intro rest
  have bound := number.toNat_lt
  rw [decVarlong_eq,encVarlong_ten (by omega),← @UInt64.ofNat_toNat number]
  generalize number.toNat = whole at *
  interval_cases whole <;> rfl

/-- A number is read back if it is not negative as an `int32_t`, or if the bits that are lost are set in it. -/
theorem decVarlong_iff (number : UInt64) : Reads decVarlong (encVarlong number) number.toInt64 ↔
    number.toNat < 2^31 ∨ 2^64 - 8 ≤ number.toNat := by
  have bound := number.toNat_lt
  refine ⟨fun reads => ?_,fun condition => condition.elim decVarlong_first decVarlong_last⟩
  rcases Nat.lt_or_ge number.toNat (2^31) with small | large
  · exact .inl small
  · right
    have read := reads []
    rw [decVarlong_eq] at read
    obtain ⟨word,decoded,same⟩ := Decoded.map_eq_ok read
    have value := congrArg Int64.toInt same
    rw [Int32.toInt_toInt64,toInt_toInt64] at value
    have range := word.le_toInt
    have above := word.toInt_lt
    -- only a negative number is widened to one that is as large
    have negative : 2^64 - 2^31 ≤ number.toNat := by
      rw [Int.bmod_def] at value
      omega
    obtain ⟨low,summed⟩ := decVarint_negative negative []
    rw [summed] at decoded
    cases decoded
    have most : 0xFFFFFFF8 ≤ (0xFFFFFFF8 ||| low).toNat := by
      rw [UInt32.toNat_or]
      exact Nat.left_le_or
    have below := (0xFFFFFFF8 ||| low).toNat_lt
    rw [toInt_toInt32,cInt,Int.bmod_def,Int.bmod_def] at value
    omega

theorem decVarlong_fails : ¬∀ number : UInt64, Reads decVarlong (encVarlong number) number.toInt64 := by
  intro reads
  have bytes : encVarlong 0x80000000 = [0x80,0x80,0x80,0x80,0x08] := by
    rw [encVarlong_septets]
    iterate 4 rw [septets_large (by decide)]
    rw [septets_small (by decide)]
    rfl
  have read : decVarlong [0x80,0x80,0x80,0x80,0x08] = .ok (-0x80000000) [] := rfl
  have same := reads 0x80000000 []
  rw [bytes,List.append_nil,read] at same
  exact absurd (Decoded.ok.inj same).1 (by decide)

end CSpock.Varnum
