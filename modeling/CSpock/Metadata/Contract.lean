import CSpock.Metadata.Rounds

/-! Walk then decode: what `walk_metadata` passes against what `dec_metadata` reads. -/
namespace CSpock.Metadata
open CSpock.Library.Cursor CSpock.Library.Refusal CSpock.Library.Rounds CSpock.Numeric CSpock.Varnum CSpock.Strings CSpock.Nbt
open CSpock.Slot CSpock.Particle

/-- A string of no more bytes than the counter lets a walk pass over. -/
def Text (bytes : List UInt8) : Prop := bytes.length ≤ noOverflow ∧ ∃ body, Prefixed body bytes

/-- The values that the walker, the counter and the decoder step over alike. -/
inductive Value : MetaShape → List UInt8 → Prop where
  | b {byte : UInt8} : Value .b [byte]
  | varint {bytes : List UInt8} (number : Varint bytes) : Value .varint bytes
  | f {bytes : List UInt8} (width : bytes.length = 4) : Value .f bytes
  | string {bytes : List UInt8} (text : Text bytes) : Value .string bytes
  | optString {bytes : List UInt8} (text : FlaggedBytes Text bytes) : Value .optString bytes
  | slot : Value .slot [0]
  | rot {bytes : List UInt8} (width : bytes.length = 12) : Value .rot bytes
  | pos {bytes : List UInt8} (width : bytes.length = 8) : Value .pos bytes
  | optPos {bytes : List UInt8} (fixed : FlaggedBytes (·.length = 8) bytes) : Value .optPos bytes
  | optUuid {bytes : List UInt8} (fixed : FlaggedBytes (·.length = 16) bytes) : Value .optUuid bytes
  | nbt {bytes : List UInt8} (document : Document cnbtDialect bytes) (short : bytes.length ≤ noOverflow) :
      Value .nbt bytes
  | villagerdata {first second third : List UInt8} (one : Varint first) (two : Varint second)
      (three : Varint third) : Value .villagerdata (first ++ (second ++ third))
  | optVarint {bytes : List UInt8} (number : FlaggedBytes Varint bytes) : Value .optVarint bytes

inductive Tags : Nat → List UInt8 → Prop where
  | nil : Tags 0 []
  | cons {index : UInt8} {type bytes rest : List UInt8} {count : Nat} (live : index ≠ 0xFF)
      (number : Varint type) (value : Value (metaShape (varintValue type)) bytes) (tail : Tags count rest) :
      Tags (count+1) (index :: (type ++ (bytes ++ rest)))

/-- What the walker passes over at the head of a buffer as a value, by how many bytes.
The `loose` values are those that the decoder does not step over alike: a string with
a negative length, which is stepped over by less than its own prefix, a tree that only
the walker knows, and a particle. -/
inductive WalkedValue (loose : Bool) : MetaShape → List UInt8 → Nat → Prop where
  | alike {shape : MetaShape} {bytes : List UInt8} (rest : List UInt8) (value : Value shape bytes) :
      WalkedValue loose shape (bytes ++ rest) bytes.length
  | negative {header rest : List UInt8} {size : Nat} (allowed : loose = true) (number : Varint header)
      (below : (varintValue header).toInt < 0) (stepped : (size : Int) = header.length + (varintValue header).toInt) :
      WalkedValue loose .string (header ++ rest) size
  | optNegative {flag : UInt8} {header rest : List UInt8} {size : Nat} (allowed : loose = true)
      (live : flag ≠ 0) (number : Varint header) (below : (varintValue header).toInt < 0)
      (stepped : (size : Int) = header.length + (varintValue header).toInt) :
      WalkedValue loose .optString (flag :: (header ++ rest)) (size+1)
  | nbt {bytes : List UInt8} (rest : List UInt8) (allowed : loose = true) (document : Document walkDialect bytes) :
      WalkedValue loose .nbt (bytes ++ rest) bytes.length
  | particle {bytes : List UInt8} (rest : List UInt8) (allowed : loose = true) (walked : WalkedParticle bytes) :
      WalkedValue loose .particle (bytes ++ rest) bytes.length

/-- What the walker passes over at the head of a buffer, by how many bytes. -/
inductive Walked (loose : Bool) : List UInt8 → Nat → Prop where
  | close {rest : List UInt8} : Walked loose (0xFF::rest) 1
  | tag {index : UInt8} {type source : List UInt8} {size len : Nat} (live : index ≠ 0xFF)
      (number : Varint type) (value : WalkedValue loose (metaShape (varintValue type)) source size)
      (tail : Walked loose (source.drop size) len) :
      Walked loose (index :: (type ++ source)) (1 + type.length + size + len)

theorem WalkedValue.strict {shape : MetaShape} {source : List UInt8} {size : Nat}
    (value : WalkedValue false shape source size) :
    ∃ bytes rest, source = bytes ++ rest ∧ bytes.length = size ∧ Value shape bytes := by
  cases value with
  | alike rest value => exact ⟨_,rest,rfl,rfl,value⟩
  | negative allowed => cases allowed
  | optNegative allowed => cases allowed
  | nbt _ allowed => cases allowed
  | particle _ allowed => cases allowed

theorem Walked.tags {source : List UInt8} {len : Nat} (walked : Walked false source len) :
    ∃ count bytes, len ≤ source.length ∧ source.take len = bytes ++ [0xFF] ∧ Tags count bytes := by
  induction walked with
  | close => exact ⟨0,[],by simp,rfl,.nil⟩
  | @tag index type source size len live number value tail ih =>
    obtain ⟨count,rest,inside,taken,tags⟩ := ih
    obtain ⟨bytes,after,rfl,rfl,alike⟩ := value.strict
    rw [List.drop_left] at inside taken
    refine ⟨count+1,index :: (type ++ (bytes ++ rest)),by simp; omega,?_,.cons live number alike tags⟩
    rw [show 1 + type.length + bytes.length + len = (type.length + (bytes.length + len)) + 1 by omega,
      List.take_succ_cons,List.take_length_add_append,List.take_length_add_append,taken]
    simp

section Walker
variable {source : List UInt8} {maxLen : Nat} {taken size : Int}

theorem sized_passed {answer : Option Int} (ran : sized answer = some (.passed taken size)) :
    taken = 0 ∧ answer = some size ∧ 0 ≤ size := by
  cases answer with
  | none => cases ran
  | some answer =>
    simp only [sized,Option.bind_eq_bind,Option.bind_some,Option.some.injEq] at ran
    split at ran
    next => cases ran
    next nonneg => cases ran; exact ⟨rfl,rfl,by omega⟩

theorem flagged_passed {walk : List UInt8 → Nat → Option Int}
    (ran : flagged walk source maxLen = some (.passed taken size)) :
    taken = 0 ∧ ∃ flag rest, source = flag::rest ∧ ((flag = 0 ∧ size = 1) ∨
      (flag ≠ 0 ∧ ∃ ret, walk rest (sizeSub maxLen 1) = some ret ∧ 0 ≤ ret ∧ size = cInt (1 + ret))) := by
  unfold flagged at ran
  split at ran
  next flag rest read =>
    cases decByte_eq_ok read
    split at ran
    next live =>
      cases walked : walk rest (sizeSub maxLen 1) with
      | none => simp [walked] at ran
      | some ret =>
        simp only [walked,Option.bind_eq_bind,Option.bind_some,Option.some.injEq] at ran
        split at ran
        next => cases ran
        next nonneg => cases ran; exact ⟨rfl,flag,rest,rfl,.inr ⟨live,ret,walked,by omega,rfl⟩⟩
    next clear => cases ran; exact ⟨rfl,flag,rest,rfl,.inl ⟨not_not.mp clear,rfl⟩⟩
  next => cases ran

theorem behind_flag {ret : Int} (nonneg : 0 ≤ ret) (bound : ret < 2^32 - 1) (small : maxLen ≤ 2^30)
    (room : sizeT (cInt (1 + ret)) < maxLen) : cInt (1 + ret) = 1 + ret ∧ 1 + ret < maxLen := by
  have exact : cInt (1 + ret) = 1 + ret := by
    by_contra wraps
    have large : 2^31 ≤ 1 + ret := by
      by_contra fits
      exact wraps (cInt_of_small (by omega) (by omega))
    have negative := cInt_of_large large (by omega)
    have low : -2^63 ≤ cInt (1 + ret) := by
      unfold cInt
      rw [Int.bmod_def]
      omega
    have := sizeT_of_neg negative low
    omega
  rw [exact] at room
  have whole : (sizeT (1 + ret) : Int) = _ := sizeT_of_nonneg (by omega) (by omega)
  exact ⟨exact,by omega⟩

theorem text_of_prefix {header rest : List UInt8} {ret : Int} (number : Varint header)
    (total : ret = header.length + (varintValue header).toInt) (positive : 0 ≤ (varintValue header).toInt)
    (short : ret ≤ 2^30) (within : ret ≤ (header ++ rest).length) :
    ∃ bytes after, header ++ rest = bytes ++ after ∧ ret = bytes.length ∧ Text bytes := by
  rw [List.length_append] at within
  have size : (rest.take (varintValue header).toInt.toNat).length = (varintValue header).toInt := by
    rw [List.length_take]
    omega
  have length : ret = (header ++ rest.take (varintValue header).toInt.toNat).length := by
    rw [List.length_append]
    omega
  exact ⟨header ++ rest.take (varintValue header).toInt.toNat,rest.drop (varintValue header).toInt.toNat,
    by simp,length,by unfold noOverflow; omega,_,.mk number size.symm⟩

theorem villagerdata_step {left : Nat} {before : Nat} (low : before ≤ 15) (small : maxLen ≤ 2^30)
    (walked : walkers.villagerdata (left+1) source maxLen before = some (.passed taken size)) :
    ∃ bytes rest, source = bytes ++ rest ∧ Varint bytes ∧ bytes.length ≤ maxLen ∧
      walkers.villagerdata left rest (maxLen - bytes.length) (before + bytes.length : Nat) =
        some (.passed taken size) := by
  cases first : walkVarint source maxLen with
  | none => simp [Walkers.villagerdata,walkers,first] at walked
  | some ret =>
    simp only [Walkers.villagerdata,walkers,first,Option.bind_eq_bind,Option.bind_some] at walked
    split at walked
    next => cases walked
    next nonneg =>
      obtain ⟨bytes,rest,rfl,number,rfl,inside⟩ := walkVarint_accepts first (by omega)
      have short := number.length_le
      rw [Int.toNat_natCast,List.drop_left,sizeSub_natCast inside (by omega),
        cInt_of_small (by omega) (by omega)] at walked
      exact ⟨bytes,rest,rfl,number,inside,walked⟩

/-- What `walk_metadata` takes off in its switch and after the check, within the bound and as the grammar has it. -/
def Taken (shape : MetaShape) (source : List UInt8) (maxLen : Nat) (taken size : Int) : Prop :=
  ∃ skipped step : Nat, taken = skipped ∧ size = step ∧ skipped + step < maxLen ∧
    WalkedValue true shape source (skipped + step)

/-- All but `villagerdata` leave the source where it is until the check. -/
theorem taken_once {shape : MetaShape} (small : maxLen ≤ 2^30) (room : sizeT size < sizeSub maxLen taken)
    (step : Nat) (still : taken = 0) (exact : size = step) (narrow : step < 2^32)
    (value : WalkedValue true shape source step) : Taken shape source maxLen taken size := by
  have whole : sizeT (step : Int) = step := sizeT_natCast (by omega)
  rw [still,sizeSub_zero (by omega),exact,whole] at room
  exact ⟨0,step,still,exact,by omega,by rwa [Nat.zero_add]⟩

theorem taken_bounded (small : maxLen ≤ 2^30) (room : sizeT size < sizeSub maxLen taken) (still : taken = 0)
    (nonneg : 0 ≤ size) (narrow : size < 2^32) : size ≤ 2^30 := by
  rw [still,sizeSub_zero (by omega)] at room
  have := sizeT_of_nonneg nonneg (by omega)
  omega

theorem taken_width {shape : MetaShape} (small : maxLen ≤ 2^30) (room : sizeT size < sizeSub maxLen taken)
    (width : Nat) (still : taken = 0) (exact : size = width) (narrow : width < 2^32)
    (inside : taken + size ≤ source.length)
    (value : (source.take width).length = width → Value shape (source.take width)) :
    Taken shape source maxLen taken size := by
  have length : (source.take width).length = width := by
    rw [List.length_take]
    omega
  have passed : WalkedValue true shape _ _ := .alike (source.drop width) (value length)
  rw [List.take_append_drop,length] at passed
  exact taken_once small room _ still exact narrow passed

theorem taken_flagged {shape : MetaShape} (small : maxLen ≤ 2^30) (room : sizeT size < sizeSub maxLen taken)
    (width : Nat) (narrow : width < 2^30) (inside : taken + size ≤ source.length)
    (walked : flagged (fun _ _ => some (width : Int)) source maxLen = some (.passed taken size))
    (value : ∀ bytes, FlaggedBytes (·.length = width) bytes → Value shape bytes) :
    Taken shape source maxLen taken size := by
  obtain ⟨still,flag,rest,same,⟨rfl,exact⟩ | ⟨live,ret,answer,_,wrapped⟩⟩ := flagged_passed walked
  · exact taken_once small room _ still exact (by decide) (same ▸ .alike rest (value _ .clear))
  cases answer
  rw [cInt_of_small (by omega) (by omega)] at wrapped
  refine taken_width small room (width+1) still (by rw [wrapped]; push_cast; omega) (by omega) inside fun length => ?_
  rw [same] at length ⊢
  exact value _ (.set live (by simpa using length))

/-- An answer of the walker's switch that `walk_metadata` goes on from is as the grammar has it. -/
theorem value_sound {shape : MetaShape} (small : maxLen ≤ 2^30)
    (walked : walkers.value shape source maxLen = some (.passed taken size))
    (room : sizeT size < sizeSub maxLen taken) (inside : taken + size ≤ source.length) :
    Taken shape source maxLen taken size := by
  cases shape with
  | b =>
    cases walked
    refine taken_width small room 1 rfl rfl (by decide) inside fun length => ?_
    obtain ⟨byte,same⟩ := List.length_eq_one_iff.mp length
    rw [same]
    exact .b
  | f => cases walked; exact taken_width small room 4 rfl rfl (by decide) inside fun length => .f length
  | rot => cases walked; exact taken_width small room 12 rfl rfl (by decide) inside fun length => .rot length
  | pos => cases walked; exact taken_width small room 8 rfl rfl (by decide) inside fun length => .pos length
  | varint =>
    obtain ⟨still,answer,nonneg⟩ := sized_passed walked
    obtain ⟨bytes,rest,same,number,exact,_⟩ := walkVarint_accepts answer nonneg
    have narrow := number.length_le
    exact taken_once small room _ still exact (by omega) (same ▸ .alike rest (.varint number))
  | string =>
    obtain ⟨still,answer,nonneg⟩ := sized_passed walked
    obtain ⟨header,rest,same,number,total,_,_⟩ := walkString_accepts answer nonneg
    have narrow := number.length_le
    have range := toInt_lt (varintValue header)
    obtain ⟨step,exact⟩ := Int.eq_ofNat_of_zero_le nonneg
    rcases Int.lt_or_le (varintValue header).toInt 0 with below | positive
    · exact taken_once small room _ still exact (by omega) (same ▸ .negative rfl number below (exact ▸ total))
    · have within : size ≤ (header ++ rest).length := by rw [← same]; omega
      obtain ⟨bytes,after,split,length,text⟩ :=
        text_of_prefix number total positive (taken_bounded small room still nonneg (by omega)) within
      exact taken_once small room _ still length (by omega) (same ▸ split ▸ .alike after (.string text))
  | slot =>
    obtain ⟨still,answer,nonneg⟩ := sized_passed walked
    obtain ⟨exact,_,rest,same⟩ := walkSlot_accepts answer nonneg
    exact taken_once small room _ still exact (by decide) (same ▸ .alike rest .slot)
  | nbt =>
    obtain ⟨still,answer,nonneg⟩ := sized_passed walked
    obtain ⟨len,exact,_,document⟩ := walkNbt_sound nonneg (by omega) answer
    have passed := WalkedValue.nbt (source.drop len) rfl (document (by omega))
    rw [List.take_append_drop,List.length_take,Nat.min_eq_left (by omega)] at passed
    exact taken_once small room _ still exact (by omega) passed
  | particle =>
    obtain ⟨still,answer,nonneg⟩ := sized_passed walked
    obtain ⟨len,exact,narrow,data⟩ := walkParticle_accepts (by omega) answer nonneg
    have passed := WalkedValue.particle (source.drop len) rfl (data (by omega))
    rw [List.take_append_drop,List.length_take,Nat.min_eq_left (by omega)] at passed
    exact taken_once small room _ still exact (by omega) passed
  | optString =>
    obtain ⟨still,flag,rest,same,⟨rfl,exact⟩ | ⟨live,ret,answer,nonneg,wrapped⟩⟩ := flagged_passed walked
    · exact taken_once small room _ still exact (by decide) (same ▸ .alike rest (.optString .clear))
    obtain ⟨header,tail,split,number,total,_,_⟩ := walkString_accepts answer nonneg
    have narrow := number.length_le
    have range := toInt_lt (varintValue header)
    rw [still,sizeSub_zero (by omega),wrapped] at room
    obtain ⟨exact,short⟩ := behind_flag nonneg (by omega) small room
    rw [exact] at wrapped
    rw [same,List.length_cons] at inside
    obtain ⟨step,rfl⟩ := Int.eq_ofNat_of_zero_le nonneg
    rw [same]
    rcases Int.lt_or_le (varintValue header).toInt 0 with below | positive
    · refine ⟨0,step+1,still,by rw [wrapped]; push_cast; omega,by omega,?_⟩
      rw [Nat.zero_add,split]
      exact .optNegative rfl live number below total
    · obtain ⟨bytes,after,again,length,text⟩ := text_of_prefix number total positive (by omega)
        (by rw [← split]; omega)
      obtain rfl : step = bytes.length := by omega
      refine ⟨0,bytes.length+1,still,by rw [wrapped]; push_cast; omega,by omega,?_⟩
      rw [Nat.zero_add,split,again]
      exact .alike after (.optString (.set live text))
  | optPos => exact taken_flagged small room 8 (by decide) inside walked fun bytes flagged => .optPos flagged
  | optUuid => exact taken_flagged small room 16 (by decide) inside walked fun bytes flagged => .optUuid flagged
  | optVarint =>
    obtain ⟨still,flag,rest,same,⟨rfl,exact⟩ | ⟨live,ret,answer,nonneg,wrapped⟩⟩ := flagged_passed walked
    · exact taken_once small room _ still exact (by decide) (same ▸ .alike rest (.optVarint .clear))
    obtain ⟨bytes,after,split,number,rfl,_⟩ := walkVarint_accepts answer nonneg
    have narrow := number.length_le
    rw [cInt_of_small (by omega) (by omega)] at wrapped
    refine taken_once small room (bytes.length+1) still (by rw [wrapped]; push_cast; omega) (by omega) ?_
    rw [same,split]
    exact .alike after (.optVarint (.set live number))
  | villagerdata =>
    obtain ⟨first,rest,rfl,one,_,walked⟩ := villagerdata_step (Nat.zero_le 15) small walked
    have narrow := one.length_le
    obtain ⟨second,rest,rfl,two,_,walked⟩ := villagerdata_step (by omega) (by omega) walked
    have narrow := two.length_le
    obtain ⟨third,rest,rfl,three,_,walked⟩ := villagerdata_step (by omega) (by omega) walked
    have narrow := three.length_le
    cases walked
    have whole : sizeT 0 = 0 := rfl
    rw [whole,sizeSub_natCast (by omega) (by omega)] at room
    refine ⟨0 + first.length + second.length + third.length,0,rfl,rfl,by omega,?_⟩
    have passed : WalkedValue true _ _ _ := .alike rest (.villagerdata one two three)
    simpa [Nat.add_assoc] using passed
  | unknown => cases walked

theorem sized_refused {answer : Option Int} {ret : Int} (ran : sized answer = some (.refused ret)) : ret < 0 := by
  cases answer with
  | none => cases ran
  | some answer =>
    simp only [sized,Option.bind_eq_bind,Option.bind_some,Option.some.injEq] at ran
    split at ran
    next negative => cases ran; exact negative
    next => cases ran

theorem flagged_refused {walk : List UInt8 → Nat → Option Int} {ret : Int}
    (ran : flagged walk source maxLen = some (.refused ret)) : ret < 0 := by
  unfold flagged at ran
  split at ran
  next flag rest read =>
    split at ran
    next =>
      -- behind the flag a refusal is handed on as a sized walk does
      cases walked : walk rest (sizeSub maxLen 1) with
      | none => simp [walked] at ran
      | some answer =>
        simp only [walked,Option.bind_eq_bind,Option.bind_some,Option.some.injEq] at ran
        split at ran
        next negative => cases ran; exact negative
        next => cases ran
    next => cases ran
  next => cases ran

theorem villagerdata_refused {left : Nat} {ret : Int}
    (ran : walkers.villagerdata left source maxLen taken = some (.refused ret)) : ret < 0 := by
  induction left generalizing source maxLen taken with
  | zero => cases ran
  | succ left ih =>
    cases first : walkVarint source maxLen with
    | none => simp [Walkers.villagerdata,walkers,first] at ran
    | some answer =>
      simp only [Walkers.villagerdata,walkers,first,Option.bind_eq_bind,Option.bind_some] at ran
      split at ran
      next negative => cases ran; exact negative
      next => exact ih ran

theorem value_refused {shape : MetaShape} {ret : Int}
    (ran : walkers.value shape source maxLen = some (.refused ret)) : ret < 0 := by
  cases shape with
  | b => cases ran
  | varint => exact sized_refused ran
  | f => cases ran
  | string => exact sized_refused ran
  | optString => exact flagged_refused ran
  | slot => exact sized_refused ran
  | rot => cases ran
  | pos => cases ran
  | optPos => exact @flagged_refused source maxLen (fun _ _ => some 8) ret ran
  | optUuid => exact @flagged_refused source maxLen (fun _ _ => some 16) ret ran
  | nbt => exact sized_refused ran
  | particle => exact sized_refused ran
  | villagerdata => exact villagerdata_refused ran
  | optVarint => exact flagged_refused ran
  | unknown => cases ran; decide

structure MetadataWalk.Fits (walk : MetadataWalk) : Prop where
  live : 1 ≤ walk.maxLen
  nonneg : 0 ≤ walk.total
  budget : walk.total + walk.maxLen ≤ 2^30

section Rounds
variable {walk after : MetadataWalk}

theorem walkRound_nonempty (runs : ∃ outcome, walkRound walk = some outcome) : 0 < walk.source.length := by
  cases shown : walk.source with
  | nil => simp [walkRound,shown,decByte] at runs
  | cons => exact Nat.succ_pos _

theorem walkRound_tag (fits : walk.Fits) {outcome : Int ⊕ MetadataWalk} (ran : walkRound walk = some outcome) :
    (∃ rest, walk.source = 0xFF::rest ∧ outcome = .inl (walk.total + 1)) ∨ (∃ ret, outcome = .inl ret ∧ ret < 0) ∨
    ∃ index type source taken size, walk.source = index::(type ++ source) ∧ index ≠ 0xFF ∧ Varint type ∧
      1 + type.length ≤ walk.maxLen ∧
      walkers.value (metaShape (varintValue type)) source (walk.maxLen - 1 - type.length) = some (.passed taken size) ∧
      sizeT size < sizeSub (walk.maxLen - 1 - type.length) taken ∧
      outcome = .inr ⟨(source.drop taken.toNat).drop size.toNat,
        sizeSub (sizeSub (walk.maxLen - 1 - type.length) taken) size,
        cInt (cInt (walk.total + 1 + type.length + taken) + size)⟩ := by
  obtain ⟨live,nonneg,budget⟩ := fits
  rw [walkRound] at ran
  split at ran
  next index rest read =>
    have next : cInt (walk.total + 1) = walk.total + 1 := cInt_of_small (by omega) (by omega)
    have one : sizeSub walk.maxLen 1 = walk.maxLen - 1 := sizeSub_natCast live (by omega)
    simp only [next,one] at ran
    split at ran
    next closed => exact .inl ⟨rest,closed ▸ decByte_eq_ok read,(Option.some.inj ran).symm⟩
    next open_ =>
      obtain ⟨ret,first,ran⟩ := Option.bind_eq_some_iff.mp ran
      split at ran
      next refused => exact .inr (.inl ⟨ret,(Option.some.inj ran).symm,refused⟩)
      next passed =>
        obtain ⟨type,source,rfl,number,rfl,inside⟩ := walkVarint_accepts first (by omega)
        have narrow := number.length_le
        have header : cInt (walk.total + 1 + type.length) = walk.total + 1 + type.length :=
          cInt_of_small (by omega) (by omega)
        simp only [header,decVarint_varint number source,sizeSub_natCast inside (by omega)] at ran
        obtain ⟨step,switched,ran⟩ := Option.bind_eq_some_iff.mp ran
        cases step with
        | refused ret => exact .inr (.inl ⟨ret,(Option.some.inj ran).symm,value_refused switched⟩)
        | passed taken size =>
          dsimp only at ran
          split at ran
          next => exact .inr (.inl ⟨-1,(Option.some.inj ran).symm,by decide⟩)
          next room =>
            exact .inr (.inr ⟨index,type,source,taken,size,decByte_eq_ok read,open_,number,by omega,switched,by omega,
              (Option.some.inj ran).symm⟩)
  next => cases ran

theorem walkRound_ends {n : Int} (fits : walk.Fits) (ran : walkRound walk = some (.inl n)) (accepted : 0 ≤ n) :
    ∃ rest, walk.source = 0xFF::rest ∧ n = walk.total + 1 := by
  rcases walkRound_tag fits ran with ⟨rest,closed,same⟩ | ⟨ret,same,negative⟩ | ⟨_,_,_,_,_,_,_,_,_,_,_,same⟩
  · exact ⟨rest,closed,Sum.inl.inj same⟩
  · cases same
    omega
  · cases same

theorem walkRound_on (fits : walk.Fits) (ran : walkRound walk = some (.inr after))
    (runs : ∃ outcome, walkRound after = some outcome) :
    ∃ index type source size, walk.source = index::(type ++ source) ∧ index ≠ 0xFF ∧ Varint type ∧
      WalkedValue true (metaShape (varintValue type)) source size ∧ 1 + type.length + size < walk.maxLen ∧
      after = ⟨source.drop size,walk.maxLen - (1 + type.length + size),walk.total + (1 + type.length + size : Nat)⟩ := by
  rcases walkRound_tag fits ran with ⟨_,_,same⟩ | ⟨_,same,_⟩ |
    ⟨index,type,source,taken,size,split,live,number,inside,switched,room,same⟩
  · cases same
  · cases same
  obtain rfl := Sum.inr.inj same
  obtain ⟨low,nonneg,budget⟩ := fits
  have more := walkRound_nonempty runs
  rw [List.length_drop,List.length_drop] at more
  obtain ⟨skipped,step,rfl,rfl,within,value⟩ := value_sound (by omega) switched room (by omega)
  have front : cInt (walk.total + 1 + type.length + skipped) = walk.total + 1 + type.length + skipped :=
    cInt_of_small (by omega) (by omega)
  have back : cInt (walk.total + 1 + type.length + skipped + step) =
      walk.total + 1 + type.length + skipped + step := cInt_of_small (by omega) (by omega)
  have inner : sizeSub (walk.maxLen - 1 - type.length) skipped = walk.maxLen - 1 - type.length - skipped :=
    sizeSub_natCast (by omega) (by omega)
  have left : sizeSub (sizeSub (walk.maxLen - 1 - type.length) skipped) step =
      walk.maxLen - 1 - type.length - skipped - step := by
    rw [inner,sizeSub_natCast (by omega) (by omega)]
  refine ⟨index,type,source,skipped + step,split,live,number,value,by omega,?_⟩
  rw [front,back,left,Int.toNat_natCast,Int.toNat_natCast,List.drop_drop,MetadataWalk.mk.injEq]
  exact ⟨rfl,by omega,by push_cast; omega⟩

theorem MetadataWalk.Fits.on (fits : walk.Fits) {step : Nat} (room : step < walk.maxLen) (source : List UInt8) :
    Fits ⟨source,walk.maxLen - step,walk.total + step⟩ := by
  obtain ⟨_,nonneg,budget⟩ := fits
  exact ⟨by dsimp only; omega,by dsimp only; omega,by dsimp only; omega⟩

theorem walkRounds_sound {count : Nat} {last : MetadataWalk} {n : Int} (turns : Turns walkRound count walk last)
    (fits : walk.Fits) (ends : walkRound last = some (.inl n)) (accepted : 0 ≤ n) :
    ∃ len : Nat, n = walk.total + len ∧ len ≤ walk.maxLen ∧ Walked true walk.source len := by
  induction turns with
  | start =>
    obtain ⟨rest,closed,exact⟩ := walkRound_ends fits ends accepted
    exact ⟨1,exact,fits.live,closed ▸ .close⟩
  | next on turns ih =>
    obtain ⟨index,type,source,size,split,live,number,value,room,rfl⟩ :=
      walkRound_on fits on (turns.runs ⟨_,ends⟩)
    obtain ⟨len,rfl,inside,tail⟩ := ih (fits.on room _) ends
    refine ⟨1 + type.length + size + len,?_,?_,split ▸ .tag live number value tail⟩
    · push_cast
      omega
    · dsimp only at inside
      omega

end Rounds

theorem metadataLoop_sound {rounds : Nat} {total n : Int} (live : 1 ≤ maxLen) (nonneg : 0 ≤ total)
    (budget : total + maxLen ≤ 2^30) (walked : walkers.metadataLoop rounds source maxLen total = some n)
    (accepted : 0 ≤ n) : ∃ len : Nat, n = total + len ∧ len ≤ maxLen ∧ Walked true source len := by
  rw [metadataLoop_rounds] at walked
  obtain ⟨_,_,_,turns,ends⟩ := loop_ends walked
  exact walkRounds_sound turns ⟨live,nonneg,budget⟩ ends accepted

end Walker

section Counter
variable {bytes : List UInt8}

theorem advance_over {walk : List UInt8 → Nat → Option Int} {source : List UInt8} {step : Nat}
    (walked : walk source noOverflow = some (step : Int)) (front : List UInt8) :
    advance walk (front ++ source) front.length = some (front.length + step) := by
  simp only [advance,List.drop_left,walked,Option.bind_eq_bind,Option.bind_some,Option.some.injEq]
  omega

theorem behindFlag_set {step : List UInt8 → Nat → Option Nat} {flag : UInt8} {source : List UInt8} {size : Nat}
    (live : flag ≠ 0) (steps : ∀ front : List UInt8, step (front ++ source) front.length = some (front.length + size))
    (front : List UInt8) : behindFlag step (front ++ flag::source) front.length = some (front.length + (size + 1)) := by
  have stepped := steps (front ++ [flag])
  simp only [List.append_assoc,List.cons_append,List.nil_append,List.length_append,
    List.length_singleton] at stepped
  simp [behindFlag,live,stepped]
  omega

theorem behindFlag_over {inner : List UInt8 → Prop} {step : List UInt8 → Nat → Option Nat}
    (steps : ∀ bytes front rest, inner bytes →
      step (front ++ (bytes ++ rest)) front.length = some (front.length + bytes.length))
    (flagged : FlaggedBytes inner bytes) (front rest : List UInt8) :
    behindFlag step (front ++ (bytes ++ rest)) front.length = some (front.length + bytes.length) := by
  cases flagged with
  | clear => simp [behindFlag]
  | set live content => exact behindFlag_set live (fun front => steps _ front rest content) front

theorem text_counted {bytes : List UInt8} (front rest : List UInt8) (text : Text bytes) :
    advance walkString (front ++ (bytes ++ rest)) front.length = some (front.length + bytes.length) := by
  obtain ⟨short,body,prefixed⟩ := text
  exact advance_over (walkString_prefixed prefixed rest noOverflow short (by decide)) front

theorem countValue_value {shape : MetaShape} (value : Value shape bytes) (front rest : List UInt8) :
    countValue shape (front ++ (bytes ++ rest)) front.length = some (front.length + bytes.length) := by
  have number {bytes : List UInt8} (varint : Varint bytes) (front rest : List UInt8) :
      advance walkVarint (front ++ (bytes ++ rest)) front.length = some (front.length + bytes.length) := by
    have short := varint.length_le
    exact advance_over (walkVarint_varint varint rest noOverflow (by unfold noOverflow; omega)) front
  cases value with
  | b => rfl
  | varint varint => exact number varint front rest
  | f width => simp [countValue,fixed,width]
  | string text => exact text_counted front rest text
  | optString text => exact behindFlag_over (fun _ front rest => text_counted front rest) text front rest
  | slot => exact advance_over (walkSlot_absent rest (by decide)) front
  | rot width => simp [countValue,fixed,width]
  | pos width => simp [countValue,fixed,width]
  | optPos flagged => exact behindFlag_over (fun _ _ _ width => by simp [fixed,width]) flagged front rest
  | optUuid flagged => exact behindFlag_over (fun _ _ _ width => by simp [fixed,width]) flagged front rest
  | nbt document short =>
    have walked := walkNbt_document document rest noOverflow (by decide)
    rw [verdict_of_le short] at walked
    exact advance_over walked front
  | @villagerdata first second third one two three =>
    have walk1 := number one front (second ++ (third ++ rest))
    have walk2 := number two (front ++ first) (third ++ rest)
    have walk3 := number three (front ++ first ++ second) rest
    simp only [List.append_assoc,List.length_append] at walk1 walk2 walk3
    simp only [countValue,List.append_assoc,walk1,Option.bind_eq_bind,Option.bind_some,walk2,walk3,
      List.length_append,Nat.add_assoc]
  | optVarint flagged => exact behindFlag_over (fun _ front rest varint => number varint front rest) flagged front rest

theorem countRounds_tags {count : Nat} (tags : Tags count bytes) (front rest : List UInt8) (counted : Nat) :
    Turns (countRound (front ++ (bytes ++ rest))) count ⟨front.length,counted⟩
      ⟨front.length + bytes.length,counted + count⟩ := by
  induction tags generalizing front counted with
  | nil => exact .start
  | @cons index type bytes tail count live number value _ ih =>
    have known : metaShape (varintValue type) ≠ .unknown := by
      intro unknown
      rw [unknown] at value
      cases value
    have once := countRound_tag front live number known
      (fun front => countValue_value value front (tail ++ rest)) counted
    have more := ih (front ++ (index :: (type ++ bytes))) (counted+1)
    simp only [List.append_assoc,List.cons_append,List.length_append,List.length_cons] at more ⊢
    refine .next once ?_
    rw [show front.length + (1 + type.length + bytes.length) = front.length + (type.length + bytes.length + 1) by omega,
      show front.length + (type.length + (bytes.length + tail.length) + 1) =
        front.length + (type.length + bytes.length + 1) + tail.length by omega,
      show counted + (count+1) = counted + 1 + count by omega]
    exact more

theorem Tags.length_ge {count : Nat} (tags : Tags count bytes) : count ≤ bytes.length := by
  induction tags with
  | nil => exact Nat.zero_le _
  | cons _ _ _ _ ih => simp; omega

/-- Past the tags the counter goes on with what follows them, whatever that is. -/
theorem countMetatags_tags {count : Nat} (tags : Tags count bytes) (rest : List UInt8) :
    ∃ rounds, rest.length < rounds ∧ countMetatags (bytes ++ rest) =
      countMetatagsLoop rounds (bytes ++ rest) bytes.length count := by
  have fewer := tags.length_ge
  obtain ⟨spare,rounds⟩ : ∃ spare, (bytes ++ rest).length + 1 = spare + 1 + count :=
    ⟨(bytes ++ rest).length - count,by rw [List.length_append]; omega⟩
  have turns := countRounds_tags tags [] rest 0
  rw [List.nil_append,List.length_nil,Nat.zero_add,Nat.zero_add] at turns
  refine ⟨spare+1,by rw [List.length_append] at rounds; omega,?_⟩
  rw [countMetatags,rounds,countMetatagsLoop_rounds,countMetatagsLoop_rounds,turns.loop_add]

theorem countMetatags_closed {count : Nat} (tags : Tags count bytes) (rest : List UInt8) :
    countMetatags (bytes ++ 0xFF :: rest) = some count := by
  obtain ⟨rounds,positive,counted⟩ := countMetatags_tags tags (0xFF :: rest)
  obtain ⟨rounds,rfl⟩ : ∃ more, rounds = more+1 := ⟨rounds-1,by omega⟩
  rw [counted,countMetatagsLoop]
  simp

end Counter

section Decoder
variable {heap : Heap}

theorem bef32_reads {bytes : List UInt8} (width : bytes.length = 4) : ∃ pattern, Reads decBef32 bytes pattern :=
  ⟨_,decBe32_reads bytes width⟩

theorem position_reads {bytes : List UInt8} (width : bytes.length = 8) : ∃ pos, Reads decPosition bytes pos :=
  ⟨_,(decBe64_reads bytes width).map _⟩

theorem uuid_reads {bytes : List UInt8} (width : bytes.length = 16) : ∃ uuid, Reads decUuid bytes uuid := by
  have reads : Reads decUuid (bytes.take 8 ++ bytes.drop 8) _ :=
    (decBe64_reads (bytes.take 8) (by simp; omega)).andThen
      ((decBe64_reads (bytes.drop 8) (by simp; omega)).map _)
  rw [List.take_append_drop] at reads
  exact ⟨_,reads⟩

theorem rot_reads {bytes : List UInt8} (width : bytes.length = 12) : ∃ value, Reads (decValue heap .rot) bytes value := by
  have x := decBe32_reads (bytes.take 4) (by simp; omega)
  have y := decBe32_reads ((bytes.drop 4).take 4) (by simp; omega)
  have z := decBe32_reads ((bytes.drop 4).drop 4) (by simp; omega)
  have reads : Reads (decValue heap .rot) (bytes.take 4 ++ ((bytes.drop 4).take 4 ++ (bytes.drop 4).drop 4)) _ :=
    x.andThen (y.andThen (z.map _))
  rw [List.take_append_drop,List.take_append_drop] at reads
  exact ⟨_,reads⟩

theorem text_reads (succeeds : heap.Succeeds) {bytes : List UInt8} (text : Text bytes) :
    ∃ string, Reads (decString heap) bytes string := by
  obtain ⟨_,body,prefixed⟩ := text
  exact ⟨_,decString_prefixed succeeds prefixed⟩

theorem decValue_value (succeeds : heap.Succeeds) {shape : MetaShape} {bytes : List UInt8}
    (value : Value shape bytes) : ∃ decoded, Reads (decValue heap shape) bytes decoded := by
  have mapped {α : Type} {read : List UInt8 → Decoded α} {bytes : List UInt8} (wrap : α → MetaValue shape)
      (reads : ∃ decoded, Reads read bytes decoded) :
      ∃ decoded, Reads (fun source => (read source).map wrap) bytes decoded := by
    obtain ⟨decoded,reads⟩ := reads
    exact ⟨_,reads.map wrap⟩
  cases value with
  | b => exact mapped _ ⟨_,decByte_encByte _⟩
  | varint number => exact mapped _ ⟨_,decVarint_varint number⟩
  | f width => exact mapped _ (bef32_reads width)
  | string text => exact mapped _ (text_reads succeeds text)
  | optString flagged => exact mapped _ (decFlagged_bytes (fun _ => text_reads succeeds) flagged)
  | slot => exact mapped _ ⟨_,decSlot_absent heap⟩
  | rot width => exact rot_reads width
  | pos width => exact mapped _ (position_reads width)
  | optPos flagged => exact mapped _ (decFlagged_bytes (fun _ => position_reads) flagged)
  | optUuid flagged => exact mapped _ (decFlagged_bytes (fun _ => uuid_reads) flagged)
  | nbt document short => exact mapped _ (decNbt_document succeeds document short)
  | villagerdata one two three =>
    exact ⟨_,(decVarint_varint one).andThen ((decVarint_varint two).andThen ((decVarint_varint three).map _))⟩
  | optVarint flagged => exact mapped _ (decFlagged_bytes (fun _ number => ⟨_,decVarint_varint number⟩) flagged)

theorem decMetatags_tags (succeeds : heap.Succeeds) {count : Nat} {bytes : List UInt8} (tags : Tags count bytes) :
    ∃ decoded, Reads (decMetatags heap count) bytes decoded := by
  induction tags with
  | nil => exact ⟨[],fun _ => rfl⟩
  | @cons index type bytes rest count live number value _ ih =>
    obtain ⟨decoded,reads⟩ := decValue_value succeeds value
    obtain ⟨more,looped⟩ := ih
    have tag : Reads (decMetatag heap) ([index] ++ (type ++ bytes)) ⟨index,varintValue type,decoded⟩ :=
      (decByte_encByte index).andThen ((decVarint_varint number).andThen (reads.map _))
    have all : Reads (decMetatags heap (count+1)) ([index] ++ (type ++ bytes) ++ rest) _ :=
      tag.andThen (looped.map _)
    simp only [List.append_assoc] at all
    exact ⟨_,all⟩

theorem decMetadata_tags (succeeds : heap.Succeeds) {count : Nat} {bytes : List UInt8} (tags : Tags count bytes) :
    ∃ decoded, Reads (decMetadata heap) (bytes ++ [0xFF]) decoded := by
  obtain ⟨decoded,reads⟩ := decMetatags_tags succeeds tags
  refine ⟨decoded,fun rest => ?_⟩
  have counted := countMetatags_closed tags rest
  rw [List.append_assoc,List.singleton_append]
  simp only [decMetadata,counted,succeeds _ _ _,if_true,reads (0xFF :: rest),Decoded.andThen_ok,List.drop_one,
    List.tail_cons]

end Decoder

theorem walkMetadata_sound {source : List UInt8} {maxLen : Nat} {n : Int} (bound : maxLen ≤ 2^30)
    (walked : walkMetadata source maxLen = some n) (accepted : 0 ≤ n) :
    ∃ len : Nat, n = len ∧ len ≤ maxLen ∧ Walked true source len := by
  unfold walkMetadata Walkers.metadata at walked
  split at walked
  next => cases walked; contradiction
  next =>
    obtain ⟨len,exact,fits,passed⟩ := metadataLoop_sound (by omega) (Int.le_refl 0) (by omega) walked accepted
    exact ⟨len,by omega,fits,passed⟩

/-- The decoder ends where the walker ended, and has looked at nothing beyond, on every
buffer at the head of which the walker meets none of the loose values. -/
theorem walkMetadata_contract {heap : Heap} (succeeds : heap.Succeeds) {source : List UInt8} {maxLen n : Nat}
    (bound : maxLen ≤ 2^30) (alike : ∀ len, len ≤ maxLen → Walked true source len → Walked false source len)
    (walked : walkMetadata source maxLen = some (n : Int)) :
    n ≤ maxLen ∧ ∃ decoded, decMetadata heap source = .ok decoded (source.drop n) ∧
      ∀ rest, decMetadata heap (source.take n ++ rest) = .ok decoded rest := by
  obtain ⟨len,same,fits,passed⟩ := walkMetadata_sound bound walked (Int.natCast_nonneg n)
  obtain rfl : n = len := by omega
  obtain ⟨count,bytes,_,taken,tags⟩ := (alike n fits passed).tags
  obtain ⟨decoded,reads⟩ := decMetadata_tags succeeds tags
  rw [← taken] at reads
  exact ⟨fits,decoded,reads.at_drop,reads⟩

theorem Walked.closed {rest : List UInt8} {len : Nat} (walked : Walked true (0xFF::rest) len) :
    Walked false (0xFF::rest) len := by
  cases walked with
  | close => exact .close
  | tag live => contradiction

theorem WalkedValue.boolean {source : List UInt8} {size : Nat} (value : WalkedValue true .b source size) :
    size = 1 ∧ WalkedValue false .b source size := by
  cases value with
  | alike rest value => cases value; exact ⟨rfl,.alike rest .b⟩

theorem walkMetadata_contract_boolean : 4 ≤ 5 ∧ ∃ decoded,
    decMetadata .plenty [2,7,1,0xFF,9] = .ok decoded (([2,7,1,0xFF,9] : List UInt8).drop 4) ∧
    ∀ rest, decMetadata .plenty (([2,7,1,0xFF,9] : List UInt8).take 4 ++ rest) = .ok decoded rest := by
  refine walkMetadata_contract Heap.plenty_succeeds (by decide) (fun len _ walked => ?_) (by decide +kernel)
  generalize shown : ([2,7,1,0xFF,9] : List UInt8) = source at walked
  cases walked with
  | close => cases shown
  | @tag index type source size len live number value tail =>
    obtain ⟨rfl,same⟩ := List.cons.inj shown
    obtain ⟨rfl,rfl⟩ := Groups.unique (.last (by decide) : Groups 1 [7]) number same
    obtain ⟨rfl,strict⟩ := WalkedValue.boolean value
    exact .tag live number strict tail.closed

/-- A particle of a type without data, and the number that the walker takes off behind it. -/
def particleMetadata : List UInt8 := [0,15,0,0,0xFF]

theorem walkMetadata_contract_fails : ¬ ∀ (heap : Heap) (source : List UInt8) (maxLen n : Nat), heap.Succeeds →
    maxLen ≤ 2^30 → maxLen ≤ source.length → walkMetadata source maxLen = some (n : Int) →
    n ≤ maxLen ∧ ∃ decoded, decMetadata heap source = .ok decoded (source.drop n) := by
  intro claimed
  obtain ⟨_,decoded,ended⟩ := claimed .plenty particleMetadata 5 5 Heap.plenty_succeeds (by decide) (by decide)
    (by decide +kernel)
  have early : (decMetadata .plenty particleMetadata).map (fun _ => ()) = .ok () [0xFF] := by decide +kernel
  rw [ended] at early
  cases early

-- behind a particle the decoder can come back into step by accident
example : walkMetadata [0,15,0,7,3,4,3,97,98,99,0xFF] 11 = some 11 ∧
    (decMetadata .plenty [0,15,0,7,3,4,3,97,98,99,0xFF]).map List.length = .ok 2 [] := by decide +kernel

end CSpock.Metadata
