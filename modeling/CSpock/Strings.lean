import CSpock.Heap
import CSpock.Library.Refusal
import CSpock.Varnum

/-! Strings behind a variable-length prefix. An `sds` is the bytes of its length,
or `none` for a null pointer. -/
namespace CSpock.Strings
open CSpock.Library.Cursor CSpock.Library.Refusal CSpock.Numeric CSpock.Varnum

def sdsHdrSize (initlen : Nat) : Nat :=
  if initlen = 0 then 3
  else if initlen < 2^5 then 1
  else if initlen < 2^8 then 3
  else if initlen < 2^16 then 5
  else if initlen < 2^32 then 9
  else 17

/-- The size of the request wraps around; the copy of `initlen` bytes does not, and
`none` is a copy that runs out of the buffer. -/
def sdsnewlen (heap : Heap) (init : List UInt8) (initlen : Nat) : Option (Option (List UInt8)) :=
  if heap.malloc .stringBytes init (sizeT (sdsHdrSize initlen + initlen + 1)) then
    if init.length < initlen then none else some (some (init.take initlen))
  else some none

/-- The length is cut to 32 bits for its own size only. -/
def sizeString : Option (List UInt8) → Option Nat
  | none => none
  | some string => some (sizeVarint (UInt32.ofNat string.length) + string.length)

def walkString (source : List UInt8) (maxLen : Nat) : Option Int := do
  let ret ← walkVarint source maxLen
  if ret < 0 then some ret else
    match decVarint source with
    | .ok len _ => if maxLen < sizeT (ret + len.toInt) then some (-1) else some (cInt (ret + len.toInt))
    | _ => none

/-- A null string is followed to its header; a length past the range of `int32_t`
comes out negative and makes the copy endless. -/
def encString : Option (List UInt8) → Option (List UInt8)
  | none => none
  | some source =>
    let len := (UInt32.ofNat source.length).toInt32.toInt
    if len < 0 then none else some (encVarint (UInt32.ofNat source.length) ++ source.take len.toNat)

/-- A negative length asks for a copy of 2^64 bytes less that many, or, without
memory for it, moves the cursor back. -/
def decString (heap : Heap) (source : List UInt8) : Decoded (Option (List UInt8)) :=
  (decVarint source).andThen fun len source =>
    match sdsnewlen heap source (sizeT len.toInt) with
    | none => .fault
    | some dest => if len.toInt < 0 then .fault else .ok dest (source.drop len.toInt.toNat)

/-- A prefix with as many bytes after it as it says. -/
inductive Prefixed (body : List UInt8) : List UInt8 → Prop where
  | mk {header : List UInt8} (number : Varint header) (size : (varintValue header).toInt = body.length) :
      Prefixed body (header ++ body)

theorem toInt_lt (number : Int32) : -2^31 ≤ number.toInt ∧ number.toInt < 2^31 :=
  ⟨number.le_toInt,number.toInt_lt⟩

theorem walkString_accepts {source : List UInt8} {maxLen : Nat} {ret : Int}
    (walked : walkString source maxLen = some ret) (accepted : 0 ≤ ret) :
    ∃ header rest, source = header ++ rest ∧ Varint header ∧
      ret = header.length + (varintValue header).toInt ∧ ret ≤ maxLen ∧ header.length ≤ maxLen := by
  obtain ⟨size,first,nonneg,walked⟩ := walk_handed accepted walked
  obtain ⟨header,rest,rfl,number,rfl,inside⟩ := walkVarint_accepts first nonneg
  have short := number.length_le
  have range := toInt_lt (varintValue header)
  simp only [decVarint_varint number rest] at walked
  split at walked
  next => cases walked; omega
  next room =>
    have total := Option.some.inj walked
    have exact : ret = header.length + (varintValue header).toInt := by
      rw [← total] at accepted ⊢
      by_cases large : 2^31 ≤ (header.length : Int) + (varintValue header).toInt
      · have := cInt_of_large large (by omega)
        omega
      · exact cInt_of_small (by omega) (by omega)
    refine ⟨header,rest,rfl,number,exact,?_,inside⟩
    have whole : (sizeT ((header.length : Int) + (varintValue header).toInt) : Int) = _ :=
      sizeT_of_nonneg (by omega) (by omega)
    omega

theorem walkString_int {source : List UInt8} {maxLen : Nat} {ret : Int} (walked : walkString source maxLen = some ret) :
    ret < 2^31 := by
  obtain ⟨first,number,walked⟩ := Option.bind_eq_some_iff.mp walked
  have small := walkVarint_int number
  split at walked
  next => cases walked; omega
  next =>
    split at walked
    next =>
      split at walked
      next => cases walked; omega
      next => cases walked; exact cInt_lt _
    next => cases walked

theorem walkString_bounded {source : List UInt8} {maxLen : Nat} (inside : maxLen ≤ source.length) :
    walkString source maxLen ≠ none := by
  refine handed_bounded (walkVarint_bounded inside) fun ret walked accepted => ?_
  obtain ⟨header,rest,rfl,number,rfl,_⟩ := walkVarint_accepts walked accepted
  simp only [decVarint_varint number rest]
  split <;> simp

theorem walkString_passes {header : List UInt8} (number : Varint header) (rest : List UInt8) {maxLen step : Nat}
    (inside : header.length ≤ maxLen) (small : maxLen < 2^31)
    (total : (step : Int) = header.length + (varintValue header).toInt) (room : step ≤ maxLen) :
    walkString (header ++ rest) maxLen = some (step : Int) := by
  have granted : ¬maxLen < sizeT (step : Int) := by
    rw [sizeT_natCast (by omega)]
    omega
  simp only [walkString,walkVarint_varint number rest maxLen inside,handed_natCast,decVarint_varint number rest,← total]
  rw [if_neg granted,cInt_natCast (by omega)]

theorem walkString_prefixed {body bytes : List UInt8} (text : Prefixed body bytes) (rest : List UInt8)
    (maxLen : Nat) (fits : bytes.length ≤ maxLen) (small : maxLen < 2^31) :
    walkString (bytes ++ rest) maxLen = some (bytes.length : Int) := by
  obtain @⟨header,number,size⟩ := text
  have whole : (header ++ body).length = header.length + body.length := List.length_append
  rw [List.append_assoc]
  exact walkString_passes number _ (by omega) small (by rw [whole,size,Nat.cast_add]) fits

theorem decString_reads {heap : Heap} (succeeds : heap.Succeeds) {header body : List UInt8} {len : Int32}
    (reads : Reads decVarint header len) (size : len.toInt = body.length) :
    Reads (decString heap) (header ++ body) (some body) := by
  have range := toInt_lt len
  refine reads.andThen fun rest => ?_
  have exact : sizeT (body.length : Int) = body.length := sizeT_natCast (by omega)
  simp only [size,exact,sdsnewlen,succeeds _ _ _,if_true,List.length_append]
  rw [if_neg (by omega)]
  simp

theorem decString_prefixed {heap : Heap} (succeeds : heap.Succeeds) {body bytes : List UInt8}
    (text : Prefixed body bytes) : Reads (decString heap) bytes (some body) := by
  obtain ⟨number,size⟩ := text
  exact decString_reads succeeds (decVarint_varint number) size

theorem decString_eq_ok {heap : Heap} {source rest : List UInt8} {dest : Option (List UInt8)}
    (ran : decString heap source = .ok dest rest) : ∃ len behind, decVarint source = .ok len behind ∧
      0 ≤ len.toInt ∧ rest = behind.drop len.toInt.toNat := by
  obtain ⟨len,behind,number,ran⟩ := Decoded.andThen_eq_ok ran
  split at ran
  next => cases ran
  next =>
    split at ran
    next => cases ran
    next nonneg =>
      cases ran
      exact ⟨len,behind,number,by omega,rfl⟩

theorem decString_took {heap : Heap} (succeeds : heap.Succeeds) {source rest : List UInt8}
    {dest : Option (List UInt8)} (ran : decString heap source = .ok dest rest) :
    ∃ header body len, source = header ++ (body ++ rest) ∧ Reads decVarint header len ∧ len.toInt = body.length := by
  obtain ⟨len,behind,number,copied⟩ := Decoded.andThen_eq_ok ran
  obtain ⟨header,rfl,_,reads⟩ := decVarint_eq_ok number
  simp only [sdsnewlen,succeeds _ _ _,if_true] at copied
  split at copied
  next => cases copied
  next granted =>
    split at copied
    next => cases copied
    next nonneg =>
      split at granted
      next => cases granted
      next enough =>
        cases copied
        have range := toInt_lt len
        have size : (sizeT len.toInt : Int) = len.toInt := sizeT_of_nonneg (by omega) (by omega)
        exact ⟨header,behind.take len.toInt.toNat,len,by rw [List.take_append_drop],reads,by rw [List.length_take]; omega⟩

theorem encString_prefixed {body : List UInt8} (short : body.length < 2^31) :
    ∃ bytes, encString (some body) = some bytes ∧ Prefixed body bytes := by
  have stored : (UInt32.ofNat body.length).toNat = body.length := by
    rw [UInt32.toNat_ofNat']
    omega
  have size : (UInt32.ofNat body.length).toInt32.toInt = body.length := by
    rw [toInt_toInt32,stored,cInt_natCast short]
  refine ⟨encVarint (UInt32.ofNat body.length) ++ body,?_,.mk (encVarint_varint _) ?_⟩
  · simp only [encString,size]
    rw [if_neg (by omega)]
    simp
  · rw [varintValue_encVarint,size]

theorem encString_eq_some {string : Option (List UInt8)} {bytes : List UInt8} (written : encString string = some bytes) :
    ∃ body, Prefixed body bytes := by
  cases string with
  | none => cases written
  | some source =>
    simp only [encString] at written
    split at written
    next => cases written
    next low =>
      cases written
      have kept : (UInt32.ofNat source.length).toInt32.toInt.toNat ≤ source.length := by
        have stored : (UInt32.ofNat source.length).toNat ≤ source.length := by
          rw [UInt32.toNat_ofNat']
          exact Nat.mod_le ..
        rw [toInt_toInt32]
        have cut := cInt_natCast_le (UInt32.ofNat source.length).toNat
        omega
      refine ⟨_,.mk (encVarint_varint _) ?_⟩
      rw [varintValue_encVarint,List.length_take]
      omega

/-- The encoder cuts the string to the length that is left of its own, if it comes to an end. -/
theorem length_encString {body bytes : List UInt8} (written : encString (some body) = some bytes) :
    bytes.length = (encVarint (UInt32.ofNat body.length)).length + body.length % 2^32 := by
  simp only [encString] at written
  split at written
  next => cases written
  next natural =>
    cases written
    rw [toInt_toInt32,UInt32.toNat_ofNat'] at natural ⊢
    rcases Nat.lt_or_ge (body.length % 2^32) (2^31) with small | large
    · rw [cInt_natCast small,Int.toNat_natCast,List.length_append,List.length_take]
      omega
    · have := @cInt_of_large (body.length % 2^32 : Nat) (by omega) (by omega)
      omega

/-! The walker against the decoder. It compares and answers sums in which a negative length takes back some
of the bytes of its own prefix. -/

/-- A prefix of five bytes whose number takes back at most these. -/
def TakenBack (source : List UInt8) : Prop :=
  ∃ header rest, source = header ++ rest ∧ Varint header ∧
    -5 ≤ (varintValue header).toInt ∧ (varintValue header).toInt < 0

/-- What an answer of the walker says about the bytes: a prefix, and as many bytes behind it as it says, which
the decoder returns. -/
def Walked (heap : Heap) (source : List UInt8) (maxLen : Nat) (ret : Int) : Prop :=
  ∃ header body rest len, source = header ++ (body ++ rest) ∧ decVarint source = .ok len (body ++ rest) ∧
    len.toInt = body.length ∧ ret = header.length + body.length ∧ ret ≤ maxLen ∧
    decString heap source = .ok (some body) rest

theorem negative_length {header : List UInt8} (number : Varint header) (negative : (varintValue header).toInt < 0) :
    header.length = 5 := by
  have most := number.length_le
  by_contra fewer
  have value := calc groupsValue header
    _ < 128^header.length := Groups.value_lt number
    _ ≤ 128^4 := Nat.pow_le_pow_right (by decide) (by omega)
  have stored : (UInt32.ofNat (groupsValue header)).toNat = groupsValue header := by
    rw [UInt32.toNat_ofNat']
    omega
  rw [varintValue,toInt_toInt32,stored,cInt_natCast (by omega)] at negative
  omega

theorem walkString_takenBack {header rest : List UInt8} (number : Varint header) {maxLen : Nat} (room : 5 ≤ maxLen)
    (small : maxLen < 2^31) (low : -5 ≤ (varintValue header).toInt) (negative : (varintValue header).toInt < 0) :
    walkString (header ++ rest) maxLen = some (5 + (varintValue header).toInt) := by
  have length := negative_length number negative
  obtain ⟨step,total⟩ := Int.eq_ofNat_of_zero_le (show 0 ≤ 5 + (varintValue header).toInt by omega)
  rw [total]
  exact walkString_passes number rest (by omega) small (by rw [length,← total]; rfl) (by omega)

/-- An answer of the walker is right unless the prefix takes back some of its own bytes. -/
theorem walkString_iff {heap : Heap} (succeeds : heap.Succeeds) {source : List UInt8} {maxLen : Nat}
    (inside : maxLen ≤ source.length) (small : maxLen < 2^31) :
    (∀ ret, walkString source maxLen = some ret → 0 ≤ ret → Walked heap source maxLen ret) ↔
      ¬(5 ≤ maxLen ∧ TakenBack source) := by
  constructor
  · rintro sound ⟨room,header,rest,rfl,number,low,negative⟩
    obtain ⟨_,body,_,len,_,read,size,_⟩ := sound _ (walkString_takenBack number room small low negative) (by omega)
    rw [decVarint_varint number rest] at read
    cases read
    omega
  · intro straight ret walked accepted
    obtain ⟨header,rest,rfl,number,total,bound,fits⟩ := walkString_accepts walked accepted
    have natural : 0 ≤ (varintValue header).toInt := by
      by_contra negative
      have length := negative_length number (by omega)
      exact straight ⟨by omega,header,rest,rfl,number,by omega,by omega⟩
    obtain ⟨len,size⟩ := Int.eq_ofNat_of_zero_le natural
    rw [List.length_append] at inside
    have body : (rest.take len).length = len := by
      rw [List.length_take]
      omega
    have text : Prefixed (rest.take len) (header ++ rest.take len) := .mk number (by rw [size,body])
    have read := decString_prefixed succeeds text (rest.drop len)
    rw [List.append_assoc,List.take_append_drop] at read
    refine ⟨header,rest.take len,rest.drop len,varintValue header,?_,?_,by rw [size,body],by rw [total,size,body],bound,read⟩
    · rw [List.take_append_drop]
    · rw [List.take_append_drop]
      exact decVarint_varint number rest

theorem walkString_iff_plenty :
    (∀ ret, walkString [0x01,0x61] 2 = some ret → 0 ≤ ret → Walked Heap.plenty [0x01,0x61] 2 ret) ↔
      ¬(5 ≤ 2 ∧ TakenBack [0x01,0x61]) :=
  walkString_iff Heap.plenty_succeeds (by decide) (by decide)

/-- Five bytes that announce -5 more: the walker passes over nothing. -/
theorem walkString_fails :
    ¬∀ (heap : Heap) (source : List UInt8) (maxLen : Nat), heap.Succeeds → maxLen ≤ source.length → maxLen < 2^31 →
      ∀ ret, walkString source maxLen = some ret → 0 ≤ ret → Walked heap source maxLen ret := by
  intro sound
  have walked : walkString [0xFB,0xFF,0xFF,0xFF,0x0F] 5 = some 0 := by decide +kernel
  obtain ⟨_,body,rest,len,_,read,size,_⟩ :=
    sound Heap.plenty [0xFB,0xFF,0xFF,0xFF,0x0F] 5 Heap.plenty_succeeds (by decide) (by decide) 0 walked (by decide)
  have same : decVarint [0xFB,0xFF,0xFF,0xFF,0x0F] = .ok (-5) [] := by decide +kernel
  have length : (-5 : Int32).toInt = -5 := by decide
  rw [← (Decoded.ok.inj (same.symm.trans read)).1,length] at size
  omega

end CSpock.Strings
