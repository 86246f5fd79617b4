import CSpock.Library.Septets
import CSpock.Numeric

/-! The variable-length integers of `datautils.c`: seven bits a byte, low groups
first, every byte but the last with its top bit set. -/
namespace CSpock.Varnum
open CSpock.Library.Cursor CSpock.Library.Septets CSpock.Numeric

def varnumInvalid : Int := -1
def varnumOverrun : Int := -2

def sizeVarint (varint : UInt32) : Nat :=
  if varint.toNat < 2^8 then 1
  else if varint.toNat < 2^14 then 2
  else if varint.toNat < 2^21 then 3
  else if varint.toNat < 2^28 then 4
  else 5

/-- The loop of `walk_varint`; `len` counts the byte under the cursor. A result
of `none` is a read outside the buffer. -/
def walkVarintLoop : List UInt8 → Nat → Nat → Option Int
  | [],_,_ => none
  | byte::source,maxLen,len =>
    if byte &&& 0x80 ≠ 0 then
      if len > 4 then some varnumInvalid
      else if len ≥ maxLen then some varnumOverrun
      else walkVarintLoop source maxLen (len+1)
    else some len

def walkVarint (source : List UInt8) (maxLen : Nat) : Option Int :=
  if maxLen = 0 then some varnumOverrun else walkVarintLoop source maxLen 1

theorem shiftRight_seven (number : UInt32) : (number >>> 7).toNat = number.toNat / 128 := by
  rw [UInt32.toNat_shiftRight]
  simp [Nat.shiftRight_eq_div_pow]

def encVarint (source : UInt32) : List UInt8 :=
  if 0x80 ≤ source then (0x80 ||| (source &&& 0x7F)).toUInt8 :: encVarint (source >>> 7)
  else [(source &&& 0x7F).toUInt8]
termination_by source.toNat
decreasing_by
  rename_i large
  have large : 128 ≤ source.toNat := large
  rw [shiftRight_seven]
  omega

/-- The loop of `dec_varint`. The shift count is taken modulo 32, as the hardware
does for the counts past 28 that only a number of more than five bytes reaches. -/
def decVarintLoop : List UInt8 → UInt32 → Nat → Decoded UInt32
  | [],_,_ => .fault
  | byte::source,dest,i =>
    let dest' := dest ||| ((byte &&& 0x7F).toUInt32 <<< UInt32.ofNat i)
    if byte &&& 0x80 ≠ 0 then decVarintLoop source dest' (i+7) else .ok dest' source

def decVarint (source : List UInt8) : Decoded Int32 :=
  (decVarintLoop source 0 0).map UInt32.toInt32

/-- A variable-length number of at most the given number of bytes. -/
inductive Groups : Nat → List UInt8 → Prop where
  | last {most : Nat} {byte : UInt8} (clear : byte.toNat < 128) : Groups (most+1) [byte]
  | more {most : Nat} {byte : UInt8} {bytes : List UInt8} (set : 128 ≤ byte.toNat)
      (rest : Groups most bytes) : Groups (most+1) (byte::bytes)

def groupsValue (bytes : List UInt8) : Nat :=
  bytes.foldr (fun byte high => byte.toNat % 128 + 128 * high) 0

/-- A variable-length number as the walker accepts it, canonical or not. -/
def Varint (bytes : List UInt8) : Prop := Groups 5 bytes

def varintValue (bytes : List UInt8) : Int32 := (UInt32.ofNat (groupsValue bytes)).toInt32

theorem top_bit (byte : UInt8) : byte &&& 0x80 ≠ 0 ↔ 128 ≤ byte.toNat := by
  have table : ∀ b : Fin 256, UInt8.ofNat b.val &&& 0x80 ≠ 0 ↔ 128 ≤ b.val := by decide +kernel
  simpa using table ⟨byte.toNat,byte.toNat_lt⟩

theorem low_bits (byte : UInt8) : (byte &&& 0x7F).toNat = byte.toNat % 128 := by
  rw [UInt8.toNat_and]
  exact Nat.and_two_pow_sub_one_eq_mod byte.toNat 7

@[simp] theorem groupsValue_cons (byte : UInt8) (bytes : List UInt8) :
    groupsValue (byte::bytes) = byte.toNat % 128 + 128 * groupsValue bytes := rfl

namespace Groups

theorem length_pos {most : Nat} {bytes : List UInt8} (groups : Groups most bytes) : 0 < bytes.length := by
  cases groups <;> simp

theorem length_le {most : Nat} {bytes : List UInt8} (groups : Groups most bytes) : bytes.length ≤ most := by
  induction groups with
  | last => simp
  | more _ _ ih => simpa using ih

/-- No number starts another: what follows does not change where one ends. -/
theorem unique {most other : Nat} {first second rest tail : List UInt8}
    (groups : Groups most first) (again : Groups other second)
    (same : first ++ rest = second ++ tail) : first = second ∧ rest = tail := by
  induction groups generalizing other second with
  | last clear =>
    cases again with
    | last => simpa using same
    | more set =>
      simp only [List.cons_append,List.nil_append,List.cons.injEq] at same
      rw [same.1] at clear
      omega
  | more set inner ih =>
    cases again with
    | last clear =>
      simp only [List.cons_append,List.nil_append,List.cons.injEq] at same
      rw [same.1] at set
      omega
    | more _ innerAgain =>
      simp only [List.cons_append,List.cons.injEq] at same
      obtain ⟨byte,same⟩ := same
      obtain ⟨equal,tails⟩ := ih innerAgain same
      exact ⟨by rw [byte,equal],tails⟩

theorem value_lt {most : Nat} {bytes : List UInt8} (groups : Groups most bytes) :
    groupsValue bytes < 128^bytes.length := by
  induction groups with
  | @last _ byte clear =>
    simp only [groupsValue,List.foldr_cons,List.foldr_nil,List.length_cons,List.length_nil]
    omega
  | @more _ byte bytes _ _ ih =>
    rw [groupsValue_cons,List.length_cons,Nat.pow_succ]
    omega

end Groups

theorem Varint.single {byte : UInt8} (clear : byte.toNat < 128) : Varint [byte] := .last clear

theorem Varint.length_pos {bytes : List UInt8} (varint : Varint bytes) : 0 < bytes.length :=
  Groups.length_pos varint

theorem Varint.length_le {bytes : List UInt8} (varint : Varint bytes) : bytes.length ≤ 5 :=
  Groups.length_le varint

/-- The loop of the two walkers, which differ in how many bytes may ask for another one. -/
def walkGroupsLoop (most : Nat) : List UInt8 → Nat → Nat → Option Int
  | [],_,_ => none
  | byte::source,maxLen,len =>
    if byte &&& 0x80 ≠ 0 then
      if len > most then some varnumInvalid
      else if len ≥ maxLen then some varnumOverrun
      else walkGroupsLoop most source maxLen (len+1)
    else some len

def walkGroups (most : Nat) (source : List UInt8) (maxLen : Nat) : Option Int :=
  if maxLen = 0 then some varnumOverrun else walkGroupsLoop most source maxLen 1

theorem walkVarintLoop_eq (source : List UInt8) (maxLen len : Nat) :
    walkVarintLoop source maxLen len = walkGroupsLoop 4 source maxLen len := by
  induction source generalizing len with
  | nil => rfl
  | cons byte source ih => rw [walkVarintLoop,walkGroupsLoop,ih]

theorem walkVarint_eq (source : List UInt8) (maxLen : Nat) : walkVarint source maxLen = walkGroups 4 source maxLen := by
  rw [walkVarint,walkGroups,walkVarintLoop_eq]

def Unended (bytes : List UInt8) : Prop := ∀ byte ∈ bytes, 128 ≤ byte.toNat

theorem Groups.unended {most : Nat} {bytes : List UInt8} (groups : Groups most bytes) :
    ∃ front last, bytes = front ++ [last] ∧ Unended front ∧ last.toNat < 128 ∧ front.length < most := by
  induction groups with
  | @last most byte clear => exact ⟨[],byte,rfl,List.forall_mem_nil _,clear,Nat.zero_lt_succ _⟩
  | @more most byte bytes set _ ih =>
    obtain ⟨front,last,rfl,unended,clear,short⟩ := ih
    exact ⟨byte::front,last,rfl,List.forall_mem_cons.mpr ⟨set,unended⟩,clear,Nat.succ_lt_succ short⟩

theorem Unended.groups {front : List UInt8} (unended : Unended front) {last : UInt8} (clear : last.toNat < 128)
    {most : Nat} (short : front.length < most) : Groups most (front ++ [last]) := by
  induction front generalizing most with
  | nil =>
    obtain ⟨most,rfl⟩ : ∃ less, most = less+1 := ⟨most-1,by rw [List.length_nil] at short; omega⟩
    exact .last clear
  | cons byte front ih =>
    rw [List.length_cons] at short
    obtain ⟨most,rfl⟩ : ∃ less, most = less+1 := ⟨most-1,by omega⟩
    obtain ⟨set,rest⟩ := List.forall_mem_cons.mp unended
    exact .more set (ih rest (by omega))

section Walks
variable {most maxLen : Nat} {source : List UInt8} {answer : Option Int}

theorem walkGroupsLoop_unended {front : List UInt8} (unended : Unended front) (source : List UInt8) {maxLen len : Nat}
    (cap : len + front.length ≤ most + 1) (room : len + front.length ≤ maxLen) :
    walkGroupsLoop most (front ++ source) maxLen len = walkGroupsLoop most source maxLen (len + front.length) := by
  induction front generalizing len with
  | nil => rfl
  | cons byte front ih =>
    obtain ⟨set,rest⟩ := List.forall_mem_cons.mp unended
    rw [List.length_cons] at cap room
    rw [List.cons_append,walkGroupsLoop,if_pos ((top_bit byte).mpr set),if_neg (by omega),if_neg (by omega),
      ih rest (by omega) (by omega),List.length_cons,Nat.add_assoc,Nat.add_comm 1]

/-- What the walkers can answer: what is in front is too long for a number, or all that may be looked at asks for more,
or a number ends in time. There is no answer when the buffer ends before that. -/
inductive Answers (most : Nat) (source : List UInt8) (maxLen : Nat) : Option Int → Prop where
  | invalid {front rest : List UInt8} (split : source = front ++ rest) (unended : Unended front)
      (length : front.length = most + 1) (room : most < maxLen) : Answers most source maxLen (some varnumInvalid)
  | overrun {front rest : List UInt8} (split : source = front ++ rest) (unended : Unended front)
      (length : front.length = maxLen) (room : maxLen ≤ most) : Answers most source maxLen (some varnumOverrun)
  | number {front rest : List UInt8} {last : UInt8} (split : source = front ++ last::rest) (unended : Unended front)
      (clear : last.toNat < 128) (cap : front.length ≤ most) (room : front.length < maxLen) :
      Answers most source maxLen (some ((front.length + 1 : Nat) : Int))
  | outside (unended : Unended source) (short : source.length ≤ most) (beyond : source.length < maxLen) :
      Answers most source maxLen none

theorem walkGroups_unended {front : List UInt8} (unended : Unended front) (source : List UInt8)
    (cap : front.length ≤ most) (room : front.length < maxLen) :
    walkGroups most (front ++ source) maxLen = walkGroupsLoop most source maxLen (front.length + 1) := by
  rw [walkGroups,if_neg (by omega),walkGroupsLoop_unended unended source (by omega) (by omega),Nat.add_comm]

theorem Answers.walked (answers : Answers most source maxLen answer) : walkGroups most source maxLen = answer := by
  cases answers with
  | @invalid front rest split unended length room =>
    obtain ⟨before,last,rfl⟩ : ∃ before last, front = before ++ [last] :=
      (List.eq_nil_or_concat' front).resolve_left (by rintro rfl; cases length)
    obtain ⟨before_unended,last_unended⟩ := List.forall_mem_append.mp unended
    rw [List.length_append,List.length_singleton] at length
    rw [split,List.append_assoc,walkGroups_unended before_unended _ (by omega) (by omega),List.singleton_append,
      walkGroupsLoop,if_pos ((top_bit last).mpr (last_unended last (List.mem_singleton_self last))),if_pos (by omega)]
  | @overrun front rest split unended length room =>
    rcases List.eq_nil_or_concat' front with rfl | ⟨before,last,rfl⟩
    · exact if_pos length.symm
    · obtain ⟨before_unended,last_unended⟩ := List.forall_mem_append.mp unended
      rw [List.length_append,List.length_singleton] at length
      rw [split,List.append_assoc,walkGroups_unended before_unended _ (by omega) (by omega),List.singleton_append,
        walkGroupsLoop,if_pos ((top_bit last).mpr (last_unended last (List.mem_singleton_self last))),
        if_neg (by omega),if_pos (by omega)]
  | @number front rest last split unended clear cap room =>
    have low : ¬(last &&& 0x80 ≠ 0) := by
      rw [top_bit]
      omega
    rw [split,walkGroups_unended unended _ cap room,walkGroupsLoop,if_neg low]
  | outside unended short beyond =>
    rw [← List.append_nil source,walkGroups_unended unended [] short beyond]
    rfl

theorem walkGroups_answers (most : Nat) (source : List UInt8) (maxLen : Nat) :
    Answers most source maxLen (walkGroups most source maxLen) := by
  suffices found : ∃ answer, Answers most source maxLen answer by
    obtain ⟨answer,answers⟩ := found
    exact answers.walked ▸ answers
  obtain ⟨front,rest,split,unended,ended⟩ : ∃ front rest, source = front ++ rest ∧ Unended front ∧
      ∀ last ∈ rest.head?, last.toNat < 128 := by
    induction source with
    | nil => exact ⟨[],[],rfl,List.forall_mem_nil _,by simp⟩
    | cons byte source ih =>
      by_cases clear : byte.toNat < 128
      · exact ⟨[],byte::source,rfl,List.forall_mem_nil _,by simpa using clear⟩
      · obtain ⟨front,rest,rfl,unended,ended⟩ := ih
        exact ⟨byte::front,rest,rfl,List.forall_mem_cons.mpr ⟨by omega,unended⟩,ended⟩
  have parts (len : Nat) : source = front.take len ++ (front.drop len ++ rest) := by
    rw [← List.append_assoc,List.take_append_drop,split]
  have front_unended (len : Nat) : Unended (front.take len) := fun byte member => unended byte (List.mem_of_mem_take member)
  by_cases long : most < front.length ∧ most < maxLen
  · exact ⟨_,.invalid (parts (most+1)) (front_unended _) (by rw [List.length_take]; omega) long.2⟩
  by_cases cut : maxLen ≤ front.length
  · exact ⟨_,.overrun (parts maxLen) (front_unended _) (by rw [List.length_take]; omega) (by omega)⟩
  cases rest with
  | nil =>
    rw [List.append_nil] at split
    exact ⟨_,.outside (split ▸ unended) (by rw [split]; omega) (by rw [split]; omega)⟩
  | cons last rest => exact ⟨_,.number split unended (ended last rfl) (by omega) (by omega)⟩

theorem Answers.append (answers : Answers most source maxLen answer) (more : List UInt8) (answered : answer ≠ none) :
    Answers most (source ++ more) maxLen answer := by
  cases answers with
  | invalid split unended length room => exact .invalid (by rw [split,List.append_assoc]) unended length room
  | overrun split unended length room => exact .overrun (by rw [split,List.append_assoc]) unended length room
  | number split unended clear cap room => exact .number (by rw [split,List.append_assoc]; rfl) unended clear cap room
  | outside => contradiction

theorem Answers.widen (answers : Answers most source maxLen answer) {wider : Nat} (more : maxLen ≤ wider)
    (answered : answer ≠ none) (settled : answer ≠ some varnumOverrun) : Answers most source wider answer := by
  cases answers with
  | invalid split unended length room => exact .invalid split unended length (by omega)
  | overrun => contradiction
  | number split unended clear cap room => exact .number split unended clear cap (by omega)
  | outside => contradiction

theorem walkGroups_bounded (inside : maxLen ≤ source.length) (most : Nat) : walkGroups most source maxLen ≠ none := by
  have answers := walkGroups_answers most source maxLen
  intro faulted
  rw [faulted] at answers
  cases answers with
  | outside _ _ beyond => omega

theorem walkGroups_append (more : List UInt8) (answered : walkGroups most source maxLen ≠ none) :
    walkGroups most (source ++ more) maxLen = walkGroups most source maxLen :=
  ((walkGroups_answers most source maxLen).append more answered).walked

theorem walkGroups_widen {ret : Int} (walked : walkGroups most source maxLen = some ret) (settled : ret ≠ varnumOverrun)
    {wider : Nat} (more : maxLen ≤ wider) : walkGroups most source wider = some ret := by
  have answers := walkGroups_answers most source maxLen
  rw [walked] at answers
  exact (answers.widen more (Option.some_ne_none ret) (by simpa using settled)).walked

theorem walkGroups_groups {bytes : List UInt8} (groups : Groups (most+1) bytes) (rest : List UInt8) (maxLen : Nat)
    (fits : bytes.length ≤ maxLen) : walkGroups most (bytes ++ rest) maxLen = some (bytes.length : Int) := by
  obtain ⟨front,last,rfl,unended,clear,short⟩ := groups.unended
  rw [List.length_append,List.length_singleton] at fits ⊢
  exact (Answers.number (List.append_assoc ..) unended clear (by omega) (by omega)).walked

theorem walkGroups_short {bytes : List UInt8} (groups : Groups (most+1) bytes) (rest : List UInt8) {maxLen : Nat}
    (short : maxLen < bytes.length) : walkGroups most (bytes ++ rest) maxLen = some varnumOverrun := by
  obtain ⟨front,last,rfl,unended,clear,low⟩ := groups.unended
  rw [List.length_append,List.length_singleton] at short
  have parts : front ++ [last] ++ rest = front.take maxLen ++ (front.drop maxLen ++ ([last] ++ rest)) := by
    rw [← List.append_assoc (front.take maxLen),List.take_append_drop,List.append_assoc]
  exact (Answers.overrun parts (fun byte member => unended byte (List.mem_of_mem_take member))
    (by rw [List.length_take]; omega) (by omega)).walked

theorem walkGroups_cut {front back : List UInt8} (groups : Groups (most+1) (front ++ back)) (some_back : back ≠ [])
    (rest : List UInt8) : walkGroups most (front ++ rest) front.length = some varnumOverrun := by
  have longer := List.length_pos_iff.mpr some_back
  have short : front.length < (front ++ back).length := by
    rw [List.length_append]
    omega
  have inside := walkGroups_bounded (le_refl front.length) most
  rw [walkGroups_append rest inside,← walkGroups_append back inside,← List.append_nil (front ++ back)]
  exact walkGroups_short groups [] short

theorem walkGroups_accepts {ret : Int} (walked : walkGroups most source maxLen = some ret) (accepted : 0 ≤ ret) :
    ∃ bytes rest, source = bytes ++ rest ∧ Groups (most+1) bytes ∧ ret = bytes.length ∧ bytes.length ≤ maxLen := by
  have answers := walkGroups_answers most source maxLen
  rw [walked] at answers
  cases answers with
  | invalid => contradiction
  | overrun => contradiction
  | @number front rest last split unended clear cap room =>
    refine ⟨front ++ [last],rest,?_,unended.groups clear (by omega),?_,?_⟩
    · rw [split,List.append_assoc]
      rfl
    · rw [List.length_append,List.length_singleton]
    · rw [List.length_append,List.length_singleton]
      omega

end Walks

theorem walkVarint_varint {bytes : List UInt8} (varint : Varint bytes) (rest : List UInt8) (maxLen : Nat)
    (fits : bytes.length ≤ maxLen) : walkVarint (bytes ++ rest) maxLen = some (bytes.length : Int) := by
  rw [walkVarint_eq]
  exact walkGroups_groups varint rest maxLen fits

theorem walkVarint_cut {front back : List UInt8} (varint : Varint (front ++ back)) (some_back : back ≠ [])
    (rest : List UInt8) : walkVarint (front ++ rest) front.length = some varnumOverrun := by
  rw [walkVarint_eq]
  exact walkGroups_cut varint some_back rest

/-- An accepted walk passes over one whole number inside the bound. -/
theorem walkVarint_accepts {source : List UInt8} {maxLen : Nat} {ret : Int}
    (walked : walkVarint source maxLen = some ret) (accepted : 0 ≤ ret) :
    ∃ bytes rest, source = bytes ++ rest ∧ Varint bytes ∧ ret = bytes.length ∧ bytes.length ≤ maxLen := by
  rw [walkVarint_eq] at walked
  exact walkGroups_accepts walked accepted

theorem walkVarint_int {source : List UInt8} {maxLen : Nat} {ret : Int} (walked : walkVarint source maxLen = some ret) :
    ret ≤ 5 := by
  rcases Int.lt_or_le ret 0 with negative | accepted
  · omega
  · obtain ⟨bytes,_,_,number,rfl,_⟩ := walkVarint_accepts walked accepted
    have := number.length_le
    omega

theorem walkVarint_inside (source rest : List UInt8) :
    walkVarint (source ++ rest) source.length = walkVarint source source.length := by
  rw [walkVarint_eq,walkVarint_eq]
  exact walkGroups_append rest (walkGroups_bounded (le_refl source.length) 4)

theorem walkVarint_answers {source : List UInt8} {maxLen : Nat} {ret : Int}
    (walked : walkVarint source maxLen = some ret) : ret = varnumOverrun ∨ ret = varnumInvalid ∨ 0 ≤ ret := by
  have answers := walkGroups_answers 4 source maxLen
  rw [← walkVarint_eq,walked] at answers
  cases answers with
  | invalid => exact .inr (.inl rfl)
  | overrun => exact .inl rfl
  | number => exact .inr (.inr (Int.natCast_nonneg _))

theorem walkVarint_bounded {source : List UInt8} {maxLen : Nat} (inside : maxLen ≤ source.length) :
    walkVarint source maxLen ≠ none := by
  rw [walkVarint_eq]
  exact walkGroups_bounded inside 4

theorem walkVarint_total (source : List UInt8) : ∃ ret, walkVarint source source.length = some ret :=
  Option.ne_none_iff_exists'.mp (walkVarint_bounded (le_refl source.length))

theorem walkVarint_append {source : List UInt8} {ret : Int} (walked : walkVarint source source.length = some ret)
    (settled : ret ≠ varnumOverrun) (more : List UInt8) :
    walkVarint (source ++ more) (source ++ more).length = some ret := by
  rw [walkVarint_eq] at walked ⊢
  have longer := walkGroups_append more (walked ▸ Option.some_ne_none ret)
  exact walkGroups_widen (longer.trans walked) settled (List.prefix_append ..).length_le

theorem walkVarint_overrun {source : List UInt8}
    (cut : walkVarint source source.length = some varnumOverrun) : source.length ≤ 4 := by
  have answers := walkGroups_answers 4 source source.length
  rw [← walkVarint_eq,cut] at answers
  generalize answered : some varnumOverrun = answer at answers
  cases answers with
  | invalid => exact absurd (Option.some.inj answered) (by decide)
  | overrun _ _ _ room => exact room
  | number =>
    have := Option.some.inj answered
    unfold varnumOverrun at this
    omega
  | outside => cases answered

theorem walkVarint_overrun_front {source more : List UInt8}
    (cut : walkVarint (source ++ more) (source ++ more).length = some varnumOverrun) :
    walkVarint source source.length = some varnumOverrun := by
  obtain ⟨ret,walked⟩ := walkVarint_total source
  by_cases settled : ret = varnumOverrun
  · rw [walked,settled]
  · rw [walkVarint_append walked settled] at cut
    exact absurd (Option.some.inj cut) settled

theorem Varint.beyond {source more bytes rest : List UInt8} (varint : Varint bytes)
    (split : source ++ more = bytes ++ rest) (cut : walkVarint source source.length = some varnumOverrun) :
    source.length < bytes.length := by
  by_contra short
  have head : bytes <+: source :=
    List.prefix_of_prefix_length_le ⟨rest,rfl⟩ (split ▸ List.prefix_append source more) (by omega)
  obtain ⟨behind,rfl⟩ := head
  rw [walkVarint_varint varint behind _ (by simp)] at cut
  have := Option.some.inj cut
  unfold varnumOverrun at this
  omega

theorem or_shift (low : UInt32) (byte : UInt8) (i : Nat) (shift : i < 32) (below : low.toNat < 2^i) :
    (low ||| ((byte &&& 0x7F).toUInt32 <<< UInt32.ofNat i)).toNat =
      (low.toNat + byte.toNat % 128 * 2^i) % 2^32 := by
  have count : (UInt32.ofNat i).toNat % 32 = i := by
    rw [UInt32.toNat_ofNat']
    omega
  rw [UInt32.toNat_or,UInt32.toNat_shiftLeft,UInt8.toNat_toUInt32,low_bits,count,Nat.shiftLeft_eq]
  obtain ⟨k,width⟩ : ∃ k, 32 = i + k := ⟨32 - i,by omega⟩
  have power : (2:Nat)^32 = 2^i * 2^k := by rw [width,Nat.pow_add]
  have scaled : byte.toNat % 128 * 2^i % 2^32 = 2^i * (byte.toNat % 128 % 2^k) := by
    rw [power,Nat.mul_comm (byte.toNat % 128),Nat.mul_mod_mul_left]
  have total : (low.toNat + byte.toNat % 128 * 2^i) % 2^32 = low.toNat + 2^i * (byte.toNat % 128 % 2^k) := by
    rw [power,Nat.mul_comm (byte.toNat % 128),Nat.mod_mul,Nat.add_mul_mod_self_left,Nat.mod_eq_of_lt below,
      Nat.add_mul_div_left _ _ (Nat.two_pow_pos i),Nat.div_eq_of_lt below,Nat.zero_add]
  rw [scaled,total,Nat.or_comm,← Nat.two_pow_add_eq_or_of_lt below,Nat.add_comm]

theorem decVarintLoop_groups {most : Nat} {bytes : List UInt8} (groups : Groups most bytes)
    (rest : List UInt8) (dest : UInt32) (i : Nat) (cap : i + 7 * most ≤ 35) (below : dest.toNat < 2^i) :
    decVarintLoop (bytes ++ rest) dest i =
      .ok (UInt32.ofNat (dest.toNat + groupsValue bytes * 2^i)) rest := by
  induction groups generalizing dest i with
  | @last most byte clear =>
    have low : ¬(byte &&& 0x80 ≠ 0) := by rw [top_bit]; omega
    have stored := or_shift dest byte i (by omega) below
    simp only [List.cons_append,List.nil_append,decVarintLoop,if_neg low,Decoded.ok.injEq,and_true]
    apply UInt32.toNat_inj.mp
    rw [stored,UInt32.toNat_ofNat']
    simp [groupsValue]
  | @more most byte bytes set inner ih =>
    have high : byte &&& 0x80 ≠ 0 := (top_bit byte).mpr set
    have positive : 0 < most := by
      have := inner.length_pos
      have := inner.length_le
      omega
    have stored := or_shift dest byte i (by omega) below
    have small : byte.toNat % 128 < 128 := Nat.mod_lt _ (by omega)
    have sum : dest.toNat + byte.toNat % 128 * 2^i < 2^(i+7) := by
      rw [Nat.pow_add]
      nlinarith [Nat.two_pow_pos i]
    have room : (2:Nat)^(i+7) ≤ 2^32 := Nat.pow_le_pow_right (by omega) (by omega)
    rw [Nat.mod_eq_of_lt (by omega)] at stored
    rw [List.cons_append,decVarintLoop]
    simp only [if_pos high]
    rw [ih _ (i+7) (by omega) (by rw [stored]; exact sum),stored,groupsValue_cons,Nat.pow_add]
    ring_nf

theorem decVarint_groups {most : Nat} {bytes : List UInt8} (groups : Groups most bytes) (short : most ≤ 5) :
    Reads decVarint bytes (varintValue bytes) := by
  intro rest
  rw [decVarint,decVarintLoop_groups groups rest 0 0 (by omega) (by simp)]
  simp [varintValue]

/-- The decoder takes exactly the bytes the walker passes over. -/
theorem decVarint_varint {bytes : List UInt8} (varint : Varint bytes) :
    Reads decVarint bytes (varintValue bytes) := decVarint_groups varint (Nat.le_refl 5)

theorem decVarintLoop_eq_ok {source rest : List UInt8} {dest number : UInt32} {i : Nat}
    (ran : decVarintLoop source dest i = .ok number rest) : ∃ bytes, source = bytes ++ rest ∧ 0 < bytes.length ∧
      ∀ tail, decVarintLoop (bytes ++ tail) dest i = .ok number tail := by
  induction source generalizing dest i with
  | nil => cases ran
  | cons byte source ih =>
    rw [decVarintLoop] at ran
    split at ran
    next high =>
      obtain ⟨bytes,rfl,_,reads⟩ := ih ran
      refine ⟨byte::bytes,rfl,by simp,fun tail => ?_⟩
      simp only [List.cons_append,decVarintLoop,if_pos high]
      exact reads tail
    next low =>
      cases ran
      refine ⟨[byte],rfl,by simp,fun tail => ?_⟩
      simp only [List.cons_append,List.nil_append,decVarintLoop,if_neg low]

theorem decVarint_eq_ok {source rest : List UInt8} {number : Int32} (ran : decVarint source = .ok number rest) :
    ∃ bytes, source = bytes ++ rest ∧ 0 < bytes.length ∧ Reads decVarint bytes number := by
  obtain ⟨bits,looped,rfl⟩ := Decoded.map_eq_ok ran
  obtain ⟨bytes,split,nonempty,reads⟩ := decVarintLoop_eq_ok looped
  exact ⟨bytes,split,nonempty,fun tail => by rw [decVarint,reads tail,Decoded.map_ok]⟩

/-- The decoder takes the bytes up to the first without its top bit, however many there are. -/
theorem decVarint_ended {front : List UInt8} (unended : Unended front) {last : UInt8} (clear : last.toNat < 128) :
    ∃ number, Reads decVarint (front ++ [last]) number := by
  have looped (dest : UInt32) (i : Nat) : ∃ bits, ∀ tail, decVarintLoop (front ++ last::tail) dest i = .ok bits tail := by
    induction front generalizing dest i with
    | nil =>
      have low : ¬(last &&& 0x80 ≠ 0) := by rw [top_bit]; omega
      exact ⟨dest ||| ((last &&& 0x7F).toUInt32 <<< UInt32.ofNat i),fun tail => by
        rw [List.nil_append,decVarintLoop]
        simp only [if_neg low]⟩
    | cons byte front ih =>
      obtain ⟨set,rest⟩ := List.forall_mem_cons.mp unended
      obtain ⟨bits,reads⟩ := ih rest (dest ||| ((byte &&& 0x7F).toUInt32 <<< UInt32.ofNat i)) (i+7)
      refine ⟨bits,fun tail => ?_⟩
      rw [List.cons_append,decVarintLoop]
      simp only [if_pos ((top_bit byte).mpr set)]
      exact reads tail
  obtain ⟨bits,reads⟩ := looped 0 0
  exact ⟨bits.toInt32,fun tail => by
    rw [List.append_assoc,List.singleton_append,decVarint,reads tail,Decoded.map_ok]⟩

theorem decVarintLoop_ended {source rest : List UInt8} {dest bits : UInt32} {i : Nat}
    (ran : decVarintLoop source dest i = .ok bits rest) :
    ∃ front last, source = front ++ last::rest ∧ Unended front ∧ last.toNat < 128 := by
  induction source generalizing dest i with
  | nil => cases ran
  | cons byte source ih =>
    rw [decVarintLoop] at ran
    split at ran
    next high =>
      obtain ⟨front,last,rfl,unended,clear⟩ := ih ran
      exact ⟨byte::front,last,rfl,List.forall_mem_cons.mpr ⟨(top_bit byte).mp high,unended⟩,clear⟩
    next low =>
      cases ran
      rw [top_bit] at low
      exact ⟨[],byte,rfl,List.forall_mem_nil _,by omega⟩

theorem decVarint_took {bytes : List UInt8} {number : Int32} (reads : Reads decVarint bytes number) :
    ∃ front last, bytes = front ++ [last] ∧ Unended front ∧ last.toNat < 128 := by
  obtain ⟨bits,looped,_⟩ := Decoded.map_eq_ok reads.whole
  exact decVarintLoop_ended looped

theorem septets_groups (number most : Nat) (small : number < 128^(most+1)) :
    Groups (most+1) (septets number) ∧ groupsValue (septets number) = number := by
  induction most generalizing number with
  | zero =>
    have small : number < 128 := by simpa using small
    have byte : (UInt8.ofNat number).toNat = number := by
      rw [UInt8.toNat_ofNat']
      omega
    rw [septets_small small]
    refine ⟨.last (by omega),?_⟩
    simp only [groupsValue,List.foldr_cons,List.foldr_nil,byte]
    omega
  | succ most ih =>
    by_cases large : 128 ≤ number
    · have byte : (UInt8.ofNat (128 + number % 128)).toNat = 128 + number % 128 := by
        rw [UInt8.toNat_ofNat']
        omega
      have shifted : number / 128 < 128^(most+1) := by
        rw [Nat.pow_succ] at small
        omega
      obtain ⟨groups,sum⟩ := ih _ shifted
      rw [septets_large large]
      refine ⟨.more (by omega) groups,?_⟩
      rw [groupsValue_cons,byte,sum]
      omega
    · have byte : (UInt8.ofNat number).toNat = number := by
        rw [UInt8.toNat_ofNat']
        omega
      rw [septets_small (by omega)]
      refine ⟨.last (by omega),?_⟩
      simp only [groupsValue,List.foldr_cons,List.foldr_nil,byte]
      omega

theorem encVarint_septets (number : UInt32) : encVarint number = septets number.toNat := by
  induction measure : number.toNat using Nat.strongRecOn generalizing number with
  | ind whole ih =>
    subst measure
    have mask : (number &&& 0x7F).toNat = number.toNat % 128 := by
      rw [UInt32.toNat_and]
      exact Nat.and_two_pow_sub_one_eq_mod number.toNat 7
    by_cases large : 0x80 ≤ number
    · have past : 128 ≤ number.toNat := large
      have byte : (0x80 ||| (number &&& 0x7F)).toUInt8 = UInt8.ofNat (128 + number.toNat % 128) := by
        have joined := Nat.two_pow_add_eq_or_of_lt (show number.toNat % 128 < 2^7 by omega) 1
        apply UInt8.toNat_inj.mp
        rw [UInt32.toNat_toUInt8,UInt32.toNat_or,mask,UInt8.toNat_ofNat']
        change (2^7 ||| number.toNat % 128) % 2^8 = _
        rw [← Nat.mul_one (2^7),← joined]
      rw [encVarint,if_pos large,septets_large past,byte,ih _ (by rw [shiftRight_seven]; omega) _ rfl,shiftRight_seven]
    · have below : number.toNat < 128 := by
        rw [UInt32.le_iff_toNat_le] at large
        simpa using large
      have byte : (number &&& 0x7F).toUInt8 = UInt8.ofNat number.toNat := by
        apply UInt8.toNat_inj.mp
        rw [UInt32.toNat_toUInt8,mask,UInt8.toNat_ofNat']
        omega
      rw [encVarint,if_neg large,septets_small below,byte]

theorem encVarint_groups (number : UInt32) (most : Nat) (small : number.toNat < 128^(most+1)) :
    Groups (most+1) (encVarint number) ∧ groupsValue (encVarint number) = number.toNat :=
  encVarint_septets number ▸ septets_groups number.toNat most small

theorem encVarint_varint (number : UInt32) : Varint (encVarint number) :=
  (encVarint_groups number 4 (by have := number.toNat_lt; omega)).1

theorem varintValue_encVarint (number : UInt32) : varintValue (encVarint number) = number.toInt32 := by
  have sum := (encVarint_groups number 4 (by have := number.toNat_lt; omega)).2
  rw [varintValue,sum,UInt32.ofNat_toNat]

theorem decVarint_encVarint (number : UInt32) : Reads decVarint (encVarint number) number.toInt32 := by
  have reads := decVarint_varint (encVarint_varint number)
  rwa [varintValue_encVarint] at reads

theorem int32_encVarint (number : Int32) : Reads decVarint (encVarint number.toUInt32) number := by
  have read := decVarint_encVarint number.toUInt32
  rwa [Int32.toInt32_toUInt32] at read

/-- The number is written in five bytes at most and read back, and the walker tells all of it from a part. -/
theorem codec_agrees (number : UInt32) : (encVarint number).length ≤ 5 ∧
    Reads decVarint (encVarint number) number.toInt32 ∧
    ∀ rest maxLen, ((encVarint number).length ≤ maxLen →
        walkVarint (encVarint number ++ rest) maxLen = some ((encVarint number).length : Int)) ∧
      (maxLen < (encVarint number).length → walkVarint (encVarint number ++ rest) maxLen = some varnumOverrun) := by
  have varint := encVarint_varint number
  refine ⟨varint.length_le,decVarint_encVarint number,fun rest maxLen => ⟨walkVarint_varint varint rest maxLen,?_⟩⟩
  intro short
  rw [walkVarint_eq]
  exact walkGroups_short varint rest short

/-! What the walker answers on any bytes. -/

/-- The first byte without its top bit is the `n`th. -/
structure EndsAt (source : List UInt8) (n : Nat) : Prop where
  positive : 0 < n
  unended : Unended (source.take (n-1))
  last : ∃ last, source[n-1]? = some last ∧ last.toNat < 128

theorem EndsAt.split {source : List UInt8} {n : Nat} (ends : EndsAt source n) :
    ∃ last rest, source = source.take (n-1) ++ last::rest ∧ (source.take (n-1)).length = n-1 ∧ last.toNat < 128 := by
  obtain ⟨last,found,clear⟩ := ends.last
  obtain ⟨inside,same⟩ := List.getElem?_eq_some_iff.mp found
  refine ⟨last,source.drop (n-1+1),?_,by rw [List.length_take]; omega,clear⟩
  rw [← same,← List.drop_eq_getElem_cons inside,List.take_append_drop]

section
variable {most maxLen : Nat} {source : List UInt8}

theorem walkGroups_invalid_iff : walkGroups most source maxLen = some varnumInvalid ↔
    most < maxLen ∧ most < source.length ∧ Unended (source.take (most+1)) := by
  constructor
  · intro walked
    have answers := walkGroups_answers most source maxLen
    generalize walkGroups most source maxLen = answer at answers walked
    cases answers with
    | invalid split unended length room =>
      refine ⟨room,?_,by rwa [split,← length,List.take_left]⟩
      rw [split,List.length_append]
      omega
    | overrun => exact absurd (Option.some.inj walked) (by decide)
    | number =>
      have := Option.some.inj walked
      unfold varnumInvalid at this
      omega
    | outside => cases walked
  · rintro ⟨room,long,unended⟩
    exact (Answers.invalid (List.take_append_drop ..).symm unended (by rw [List.length_take]; omega) room).walked

theorem walkGroups_overrun_iff : walkGroups most source maxLen = some varnumOverrun ↔
    maxLen ≤ most ∧ maxLen ≤ source.length ∧ Unended (source.take maxLen) := by
  constructor
  · intro walked
    have answers := walkGroups_answers most source maxLen
    generalize walkGroups most source maxLen = answer at answers walked
    cases answers with
    | invalid => exact absurd (Option.some.inj walked) (by decide)
    | overrun split unended length room =>
      refine ⟨room,?_,by rwa [split,← length,List.take_left]⟩
      rw [split,List.length_append]
      omega
    | number =>
      have := Option.some.inj walked
      unfold varnumOverrun at this
      omega
    | outside => cases walked
  · rintro ⟨short,inside,unended⟩
    exact (Answers.overrun (List.take_append_drop ..).symm unended (by rw [List.length_take]; omega) short).walked

theorem walkGroups_number_iff {n : Nat} : walkGroups most source maxLen = some (n : Int) ↔
    n ≤ min (most+1) maxLen ∧ EndsAt source n := by
  constructor
  · intro walked
    have answers := walkGroups_answers most source maxLen
    generalize walkGroups most source maxLen = answer at answers walked
    cases answers with
    | invalid =>
      have := Option.some.inj walked
      unfold varnumInvalid at this
      omega
    | overrun =>
      have := Option.some.inj walked
      unfold varnumOverrun at this
      omega
    | @number front rest last split unended clear cap room =>
      obtain rfl : front.length + 1 = n := Int.natCast_inj.mp (Option.some.inj walked)
      refine ⟨by omega,Nat.succ_pos _,?_,last,?_,clear⟩
      · rwa [Nat.add_sub_cancel,split,List.take_left]
      · rw [Nat.add_sub_cancel,split,List.getElem?_append_right (le_refl _),Nat.sub_self,List.getElem?_cons_zero]
    | outside => cases walked
  · rintro ⟨fits,ends⟩
    have positive := ends.positive
    obtain ⟨last,rest,split,length,clear⟩ := ends.split
    have answers : Answers most source maxLen _ := .number split ends.unended clear (by omega) (by omega)
    have walked := answers.walked
    rwa [length,Nat.sub_add_cancel positive] at walked

end

theorem groupsValue_sum (bytes : List UInt8) :
    groupsValue bytes = ∑ i ∈ Finset.range bytes.length, (bytes.getD i 0).toNat % 128 * 128^i := by
  induction bytes with
  | nil => rfl
  | cons byte bytes ih =>
    rw [groupsValue_cons,ih,List.length_cons,Finset.sum_range_succ',Finset.mul_sum,Nat.add_comm]
    simp only [List.getD_cons_succ,List.getD_cons_zero,Nat.pow_succ,pow_zero,Nat.mul_one]
    congr 1
    exact Finset.sum_congr rfl fun i _ => by ring

theorem EndsAt.varint {source : List UInt8} {n : Nat} (ends : EndsAt source n) (short : n ≤ 5) : Varint (source.take n) := by
  have positive := ends.positive
  obtain ⟨last,rest,split,length,clear⟩ := ends.split
  have whole : source.take n = source.take (n-1) ++ [last] := by
    conv_lhs => rw [split]
    rw [List.take_append,length,List.take_of_length_le (by omega),show n - (n-1) = 1 by omega]
    rfl
  rw [whole]
  exact ends.unended.groups clear (by omega)

theorem EndsAt.decoded {source : List UInt8} {n : Nat} (ends : EndsAt source n) (short : n ≤ 5) :
    ∃ number : Int32, Reads decVarint (source.take n) number ∧
      number.toUInt32.toNat = (∑ i ∈ Finset.range n, (source.getD i 0).toNat % 128 * 128^i) % 2^32 := by
  have positive := ends.positive
  obtain ⟨last,_,split,length,_⟩ := ends.split
  have inside : (source.take n).length = n := by
    have whole := congrArg List.length split
    rw [List.length_append,length,List.length_cons] at whole
    rw [List.length_take]
    omega
  refine ⟨_,decVarint_varint (ends.varint short),?_⟩
  rw [varintValue,UInt32.toUInt32_toInt32,UInt32.toNat_ofNat',groupsValue_sum,inside]
  congr 1
  refine Finset.sum_congr rfl fun i member => ?_
  rw [List.getD_eq_getElem?_getD,List.getElem?_take_of_lt (Finset.mem_range.mp member),List.getD_eq_getElem?_getD]

theorem walkVarint_take (source : List UInt8) (maxLen : Nat) :
    walkVarint (source.take maxLen) maxLen = walkVarint source maxLen := by
  rcases Nat.lt_or_ge source.length maxLen with short | inside
  · rw [List.take_of_length_le short.le]
  · have there : maxLen ≤ (source.take maxLen).length := by
      rw [List.length_take]
      omega
    have longer := walkGroups_append (source.drop maxLen) (walkGroups_bounded there 4)
    rw [walkVarint_eq,walkVarint_eq,← longer,List.take_append_drop]

/-- The three answers, and what each says of the bytes below the bound: the buffer is not looked at from there on. An
answer other than `varnum_overrun` stays when there are more bytes. -/
theorem walkVarint_partition (source : List UInt8) (maxLen : Nat) :
    (maxLen ≤ source.length → ∃ ret, walkVarint source maxLen = some ret) ∧
    (∀ other : List UInt8, other.take maxLen = source.take maxLen → walkVarint other maxLen = walkVarint source maxLen) ∧
    (walkVarint source maxLen = some varnumInvalid ↔ 5 ≤ maxLen ∧ 5 ≤ source.length ∧ Unended (source.take 5)) ∧
    (walkVarint source maxLen = some varnumOverrun ↔
      maxLen < 5 ∧ maxLen ≤ source.length ∧ Unended (source.take maxLen)) ∧
    (∀ ret, walkVarint source maxLen = some ret → ret ≠ varnumInvalid → ret ≠ varnumOverrun → ∃ n : Nat, ret = n) ∧
    (∀ n : Nat, walkVarint source maxLen = some (n : Int) ↔ n ≤ min 5 maxLen ∧ EndsAt source n) ∧
    (∀ n : Nat, walkVarint source maxLen = some (n : Int) → ∃ number : Int32, Reads decVarint (source.take n) number ∧
      number.toUInt32.toNat = (∑ i ∈ Finset.range n, (source.getD i 0).toNat % 128 * 128^i) % 2^32) ∧
    ∀ ret, walkVarint source maxLen = some ret → ret ≠ varnumOverrun →
      ∀ more wider, maxLen ≤ wider → walkVarint (source ++ more) wider = some ret := by
  have number : ∀ n : Nat, walkVarint source maxLen = some (n : Int) ↔ n ≤ min 5 maxLen ∧ EndsAt source n := by
    intro n
    rw [walkVarint_eq]
    exact walkGroups_number_iff
  refine ⟨fun inside => Option.ne_none_iff_exists'.mp (walkVarint_bounded inside),fun other same => ?_,?_,?_,
    fun ret walked valid settled => ?_,number,fun n walked => ?_,fun ret walked settled more wider longer => ?_⟩
  · rw [← walkVarint_take other,same,walkVarint_take]
  · rw [walkVarint_eq]
    exact walkGroups_invalid_iff
  · rw [walkVarint_eq,Nat.lt_succ_iff]
    exact walkGroups_overrun_iff
  · rcases walkVarint_answers walked with overrun | invalid | accepted
    · exact absurd overrun settled
    · exact absurd invalid valid
    · exact Int.eq_ofNat_of_zero_le accepted
  · obtain ⟨fits,ends⟩ := (number n).mp walked
    exact ends.decoded (by omega)
  · rw [walkVarint_eq] at walked ⊢
    have appended := walkGroups_append more (walked ▸ Option.some_ne_none ret)
    exact walkGroups_widen (appended.trans walked) settled longer

end CSpock.Varnum
