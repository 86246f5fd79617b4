import CSpock.Metadata.Codec

/-! Where `walk_metadata` reads, over whatever walkers it calls, so that what it reads itself
and the bounds that it hands on can be told from what these walkers do. -/
namespace CSpock.Metadata
open CSpock.Library.Cursor CSpock.Library.Refusal CSpock.Numeric CSpock.Varnum CSpock.Strings CSpock.Nbt
open CSpock.Slot CSpock.Particle

/-! What the walker passes over, by the answers of the walkers that it calls. -/

def MetaShape.width : MetaShape → Option Nat
  | .b => some 1
  | .f => some 4
  | .rot => some 12
  | .pos => some 8
  | _ => none

def MetaShape.nested : MetaShape → Option Nested
  | .varint => some .varint
  | .string => some .string
  | .slot => some .slot
  | .nbt => some .nbt
  | .particle => some .particle
  | _ => none

def MetaShape.behind (walk : Walkers) : MetaShape → Option (List UInt8 → Nat → Option Int)
  | .optString => some (walk .string)
  | .optPos => some fun _ _ => some 8
  | .optUuid => some fun _ _ => some 16
  | .optVarint => some (walk .varint)
  | _ => none

/-- A value at the head of the buffer, of so many bytes as far as the walkers tell. -/
inductive Passes (walk : Walkers) : MetaShape → List UInt8 → Nat → Prop where
  | fixed {shape : MetaShape} {source : List UInt8} {size : Nat} (width : shape.width = some size) :
      Passes walk shape source size
  | nested {shape : MetaShape} {callee : Nested} {source : List UInt8} {size : Nat} (kind : shape.nested = some callee)
      (walked : walk callee source source.length = some (size : Int)) : Passes walk shape source size
  | clear {shape : MetaShape} {content : List UInt8 → Nat → Option Int} {rest : List UInt8}
      (kind : shape.behind walk = some content) : Passes walk shape (0::rest) 1
  | set {shape : MetaShape} {content : List UInt8 → Nat → Option Int} {flag : UInt8} {rest : List UInt8} {size : Nat}
      (kind : shape.behind walk = some content) (live : flag ≠ 0)
      (walked : content rest rest.length = some (size : Int)) : Passes walk shape (flag::rest) (1 + size)
  | villagerdata {first second third : List UInt8} (rest : List UInt8) (one : Varint first) (two : Varint second)
      (three : Varint third) : Passes walk .villagerdata (first ++ (second ++ (third ++ rest)))
        (first.length + (second.length + third.length))

/-- Tags that are passed over, and then one of an optional type of which the buffer has no more than its type:
the flag is looked for behind the buffer. -/
inductive Peeks (walk : Walkers) : List UInt8 → Prop where
  | here {index : UInt8} {type : List UInt8} (live : index ≠ 0xFF) (number : Varint type)
      (optional : ((metaShape (varintValue type)).behind walk).isSome) : Peeks walk (index::type)
  | later {index : UInt8} {type source : List UInt8} {size : Nat} (live : index ≠ 0xFF) (number : Varint type)
      (passes : Passes walk (metaShape (varintValue type)) source size) (inside : size < source.length)
      (tail : Peeks walk (source.drop size)) : Peeks walk (index::(type ++ source))

/-- The walkers answer whenever their bound is within the buffer; their answers are of type `int`, and
those on numbers are right. -/
structure Walkers.Answers (walk : Walkers) : Prop where
  bounded : ∀ callee source maxLen, maxLen ≤ source.length → ∃ ret, walk callee source maxLen = some ret
  int : ∀ callee source maxLen ret, walk callee source maxLen = some ret → ret < 2^31
  number : ∀ source maxLen, maxLen ≤ source.length → walk .varint source maxLen = walkVarint source maxLen

theorem value_fixed (walk : Walkers) {shape : MetaShape} {size : Nat} (width : shape.width = some size)
    (source : List UInt8) (maxLen : Nat) : walk.value shape source maxLen = some (.passed 0 size) := by
  cases shape <;> cases width <;> rfl

theorem value_nested (walk : Walkers) {shape : MetaShape} {callee : Nested} (kind : shape.nested = some callee)
    (source : List UInt8) (maxLen : Nat) : walk.value shape source maxLen = sized (walk callee source maxLen) := by
  cases shape <;> cases kind <;> rfl

theorem value_behind {walk : Walkers} {shape : MetaShape} {content : List UInt8 → Nat → Option Int}
    (kind : shape.behind walk = some content) (source : List UInt8) (maxLen : Nat) :
    walk.value shape source maxLen = flagged content source maxLen := by
  cases shape <;> cases kind <;> rfl

theorem sized_natCast (size : Nat) : sized (some (size : Int)) = some (.passed 0 size) := by
  simp only [sized,Option.bind_eq_bind,Option.bind_some]
  rw [if_neg (by omega)]

section Answering
variable {walk : Walkers}

theorem Walkers.Answers.behind (answers : walk.Answers) {shape : MetaShape} {content : List UInt8 → Nat → Option Int}
    (kind : shape.behind walk = some content) (source : List UInt8) :
    ∃ ret, content source source.length = some ret ∧ ret < 2^31 := by
  have called (callee : Nested) : ∃ ret, walk callee source source.length = some ret ∧ ret < 2^31 := by
    obtain ⟨ret,walked⟩ := answers.bounded callee source source.length (Nat.le_refl _)
    exact ⟨ret,walked,answers.int _ _ _ _ walked⟩
  cases shape <;> cases kind
  · exact called .string
  · exact ⟨8,rfl,by decide⟩
  · exact ⟨16,rfl,by decide⟩
  · exact called .varint

theorem villagerdata_varint (answers : walk.Answers) {bytes : List UInt8} (number : Varint bytes) (rest : List UInt8)
    (left : Nat) (taken : Int) (small : (bytes ++ rest).length < 2^31) :
    walk.villagerdata (left+1) (bytes ++ rest) (bytes ++ rest).length taken =
      walk.villagerdata left rest rest.length (cInt (taken + bytes.length)) := by
  have walked := walkVarint_varint number rest (bytes ++ rest).length (by rw [List.length_append]; omega)
  simp only [Walkers.villagerdata,answers.number _ _ (Nat.le_refl (bytes ++ rest).length),walked,Option.bind_eq_bind,Option.bind_some]
  rw [List.length_append] at small ⊢
  rw [if_neg (by omega),Int.toNat_natCast,List.drop_left,sizeSub_natCast (by omega) (by omega),Nat.add_sub_cancel_left]

theorem villagerdata_round (answers : walk.Answers) (left : Nat) (source : List UInt8) (taken : Int) (small : source.length < 2^31) :
    (∃ ret, walk.villagerdata (left+1) source source.length taken = some (.refused ret)) ∨
    ∃ bytes rest, source = bytes ++ rest ∧ Varint bytes ∧ walk.villagerdata (left+1) source source.length taken =
      walk.villagerdata left rest rest.length (cInt (taken + bytes.length)) := by
  obtain ⟨ret,walked⟩ := walkVarint_total source
  rcases Int.lt_or_le ret 0 with negative | accepted
  · left
    simp only [Walkers.villagerdata,answers.number _ _ (Nat.le_refl source.length),walked,Option.bind_eq_bind,Option.bind_some]
    exact ⟨ret,if_pos negative⟩
  · obtain ⟨bytes,rest,rfl,number,_,_⟩ := walkVarint_accepts walked accepted
    exact .inr ⟨bytes,rest,rfl,number,villagerdata_varint answers number rest left taken small⟩

theorem taken_three {first second third : List UInt8} (one : Varint first) (two : Varint second) (three : Varint third) :
    cInt (cInt (cInt (0 + first.length) + second.length) + third.length) =
      ((first.length + (second.length + third.length) : Nat) : Int) := by
  have narrow := one.length_le
  have short := two.length_le
  have brief := three.length_le
  simp only [cInt_add]
  rw [cInt_of_small (by omega) (by omega)]
  push_cast
  omega

/-- The switch passes over a value in two parts, of which it has taken off the first. -/
theorem Passes.value (answers : walk.Answers) {shape : MetaShape} {source : List UInt8} {size : Nat}
    (passes : Passes walk shape source size) (inside : size < source.length) (small : source.length < 2^31) :
    ∃ skipped step : Nat, skipped + step = size ∧
      walk.value shape source source.length = some (.passed skipped step) := by
  cases passes with
  | fixed width => exact ⟨0,size,Nat.zero_add size,value_fixed walk width source _⟩
  | nested kind walked =>
    refine ⟨0,size,Nat.zero_add size,?_⟩
    rw [value_nested walk kind,walked]
    exact sized_natCast size
  | clear kind => exact ⟨0,1,rfl,value_behind kind _ _⟩
  | @set _ content flag rest size kind live walked =>
    rw [List.length_cons] at inside small
    have one : sizeSub (rest.length+1) 1 = rest.length := sizeSub_natCast (by omega : 1 ≤ rest.length+1) (by omega)
    have exact : cInt (1 + (size : Int)) = 1 + size := cInt_of_small (by omega) (by omega)
    refine ⟨0,1+size,Nat.zero_add _,?_⟩
    rw [value_behind kind,flagged,List.length_cons]
    simp only [decByte_cons]
    rw [if_pos live,one,walked,Option.bind_eq_bind,Option.bind_some,if_neg (by omega),exact]
    push_cast
    rfl
  | @villagerdata first second third rest one two three =>
    refine ⟨first.length + (second.length + third.length),0,rfl,?_⟩
    simp only [List.length_append] at small
    change walk.villagerdata 3 _ _ 0 = _
    rw [villagerdata_varint answers one _ 2 0 (by simp only [List.length_append]; omega),
      villagerdata_varint answers two _ 1 _ (by simp only [List.length_append]; omega),
      villagerdata_varint answers three _ 0 _ (by simp only [List.length_append]; omega),taken_three one two three]
    rfl

inductive Outcome (walk : Walkers) (shape : MetaShape) (source : List UInt8) : Option WalkStep → Prop where
  | peeked (empty : source = []) (optional : (shape.behind walk).isSome) : Outcome walk shape source none
  | refused (ret : Int) : Outcome walk shape source (some (.refused ret))
  | short {taken size : Int} (less : sizeSub source.length taken ≤ sizeT size) :
      Outcome walk shape source (some (.passed taken size))
  | passed {skipped step : Nat} (inside : skipped + step < source.length)
      (passes : Passes walk shape source (skipped + step)) :
      Outcome walk shape source (some (.passed skipped step))

theorem Outcome.sized {shape : MetaShape} {source : List UInt8} (small : source.length < 2^31) {size : Nat}
    (narrow : size < 2^64) (passes : Passes walk shape source size) :
    Outcome walk shape source (some (.passed 0 size)) := by
  rcases Nat.lt_or_ge size source.length with fits | less
  · exact @Outcome.passed walk shape source 0 size (by omega) (by rwa [Nat.zero_add])
  · refine .short ?_
    rw [sizeSub_zero (by omega),sizeT_natCast narrow]
    exact less

theorem villagerdata_outcome (answers : walk.Answers) {source : List UInt8} (small : source.length < 2^31) :
    Outcome walk .villagerdata source (walk.villagerdata 3 source source.length 0) := by
  rcases villagerdata_round answers 2 source 0 small with ⟨ret,refused⟩ | ⟨first,rest,rfl,one,walked⟩
  · rw [refused]
    exact .refused ret
  rw [walked]
  rw [List.length_append] at small
  rcases villagerdata_round answers 1 rest (cInt (0 + first.length)) (by omega) with ⟨ret,refused⟩ | ⟨second,rest,rfl,two,walked⟩
  · rw [refused]
    exact .refused ret
  rw [walked]
  rw [List.length_append] at small
  obtain ⟨ret,refused⟩ | ⟨third,rest,rfl,three,walked⟩ := villagerdata_round answers 0 rest
    (cInt (cInt (0 + first.length) + second.length)) (by omega)
  · rw [refused]
    exact .refused ret
  rw [walked,taken_three one two three]
  rw [List.length_append] at small
  change Outcome walk .villagerdata _ (some (.passed ((first.length + (second.length + third.length) : Nat) : Int) 0))
  obtain fits | less := Nat.lt_or_ge (first.length + (second.length + third.length))
    (first ++ (second ++ (third ++ rest))).length
  · exact @Outcome.passed walk _ _ (first.length + (second.length + third.length)) 0 fits
      (.villagerdata rest one two three)
  · refine .short ?_
    simp only [List.length_append] at less ⊢
    rw [sizeSub_natCast (by omega) (by omega)]
    omega

theorem value_outcome (answers : walk.Answers) (shape : MetaShape) {source : List UInt8} (small : source.length < 2^31) :
    Outcome walk shape source (walk.value shape source source.length) := by
  have fixed (size : Nat) (width : shape.width = some size) (narrow : size < 2^64) :
      Outcome walk shape source (walk.value shape source source.length) := by
    rw [value_fixed walk width]
    exact .sized small narrow (.fixed width)
  have nested (callee : Nested) (kind : shape.nested = some callee) :
      Outcome walk shape source (walk.value shape source source.length) := by
    obtain ⟨ret,walked⟩ := answers.bounded callee source source.length (Nat.le_refl _)
    have range := answers.int _ _ _ _ walked
    rw [value_nested walk kind,walked]
    rcases Int.lt_or_le ret 0 with negative | accepted
    · simp only [Metadata.sized,Option.bind_eq_bind,Option.bind_some]
      rw [if_pos negative]
      exact .refused ret
    · obtain ⟨size,rfl⟩ := Int.eq_ofNat_of_zero_le accepted
      rw [sized_natCast]
      exact .sized small (by omega) (.nested kind walked)
  have behind (content : List UInt8 → Nat → Option Int) (kind : shape.behind walk = some content) :
      Outcome walk shape source (walk.value shape source source.length) := by
    rw [value_behind kind]
    cases source with
    | nil => exact .peeked rfl (by rw [kind]; rfl)
    | cons flag rest =>
      have range : rest.length + 1 < 2^31 := small
      have one : sizeSub (rest.length+1) 1 = rest.length := sizeSub_natCast (by omega : 1 ≤ rest.length+1) (by omega)
      rw [flagged,List.length_cons]
      simp only [decByte_cons]
      by_cases live : flag = 0
      · subst live
        exact .sized small (by decide) (.clear kind)
      · obtain ⟨ret,walked,int⟩ := answers.behind kind rest
        rw [if_pos live,one,walked,Option.bind_eq_bind,Option.bind_some]
        rcases Int.lt_or_le ret 0 with negative | accepted
        · rw [if_pos negative]
          exact .refused ret
        · obtain ⟨size,rfl⟩ := Int.eq_ofNat_of_zero_le accepted
          rw [if_neg (by omega)]
          rcases Int.lt_or_le (1 + (size : Int)) (2^31) with whole | wraps
          · have exact : cInt (1 + (size : Int)) = ((1 + size : Nat) : Int) := by
              rw [cInt_of_small (by omega) whole]
              push_cast
              rfl
            rw [exact]
            exact .sized small (by omega) (.set kind live walked)
          · refine .short ?_
            have negative := cInt_of_large wraps (by omega)
            have low : -2^63 ≤ cInt (1 + (size : Int)) := by
              unfold cInt
              rw [Int.bmod_def]
              omega
            have large := sizeT_of_neg negative low
            rw [sizeSub_zero (by rw [List.length_cons]; omega),List.length_cons]
            omega
  cases shape with
  | b => exact fixed 1 rfl (by decide)
  | f => exact fixed 4 rfl (by decide)
  | rot => exact fixed 12 rfl (by decide)
  | pos => exact fixed 8 rfl (by decide)
  | varint => exact nested .varint rfl
  | string => exact nested .string rfl
  | slot => exact nested .slot rfl
  | nbt => exact nested .nbt rfl
  | particle => exact nested .particle rfl
  | optString => exact behind _ rfl
  | optPos => exact behind _ rfl
  | optUuid => exact behind _ rfl
  | optVarint => exact behind _ rfl
  | unknown => exact .refused (-1)
  | villagerdata => exact villagerdata_outcome answers small

def goOn (walk : Walkers) (rounds : Nat) (source : List UInt8) (total : Int) : WalkStep → Option Int
  | .refused ret => some ret
  | .passed taken size =>
    if sizeSub source.length taken ≤ sizeT size then some (-1) else
      walk.metadataLoop rounds ((source.drop taken.toNat).drop size.toNat)
        (sizeSub (sizeSub source.length taken) size) (cInt (cInt (total + taken) + size))

theorem goOn_passed {rounds : Nat} {source : List UInt8} {total : Int} {skipped step : Nat}
    (inside : skipped + step < source.length) (small : source.length < 2^31) :
    goOn walk rounds source total (.passed skipped step) =
      walk.metadataLoop rounds (source.drop (skipped + step)) (source.drop (skipped + step)).length
        (cInt (cInt (total + skipped) + step)) := by
  have left : sizeSub source.length (skipped : Int) = source.length - skipped := sizeSub_natCast (by omega) (by omega)
  simp only [goOn,left,Int.toNat_natCast,List.drop_drop,List.length_drop]
  rw [sizeT_natCast (by omega),if_neg (by omega),sizeSub_natCast (by omega) (by omega),Nat.sub_sub]

theorem metadataLoop_tag (answers : walk.Answers) {index : UInt8} (live : index ≠ 0xFF) {type : List UInt8}
    (number : Varint type) (source : List UInt8) (rounds : Nat) (total : Int)
    (small : (index::(type ++ source)).length < 2^31) :
    walk.metadataLoop (rounds+1) (index::(type ++ source)) (index::(type ++ source)).length total =
      (walk.value (metaShape (varintValue type)) source source.length).bind
        (goOn walk rounds source (cInt (cInt (total + 1) + type.length))) := by
  have walked := walkVarint_varint number source (type ++ source).length (by rw [List.length_append]; omega)
  have one : sizeSub (index::(type ++ source)).length 1 = (type ++ source).length :=
    sizeSub_natCast (by rw [List.length_cons]; omega : 1 ≤ (index::(type ++ source)).length) (by omega)
  have rest : sizeSub (type ++ source).length (type.length : Int) = source.length := by
    simp only [List.length_cons,List.length_append] at small ⊢
    rw [sizeSub_natCast (by omega) (by omega),Nat.add_sub_cancel_left]
  simp only [Walkers.metadataLoop,decByte_cons,if_neg live,one,answers.number _ _ (Nat.le_refl (type ++ source).length),
    walked,Option.bind_eq_bind,Option.bind_some,rest,decVarint_varint number source]
  rw [if_neg (by omega)]
  rfl

theorem metadataLoop_refused (answers : walk.Answers) {index : UInt8} (live : index ≠ 0xFF) {tail : List UInt8}
    {ret : Int} (walked : walkVarint tail tail.length = some ret) (negative : ret < 0) (rounds : Nat) (total : Int)
    (small : (index::tail).length < 2^31) :
    walk.metadataLoop (rounds+1) (index::tail) (index::tail).length total = some ret := by
  have one : sizeSub (index::tail).length 1 = tail.length :=
    sizeSub_natCast (by rw [List.length_cons]; omega : 1 ≤ (index::tail).length) (by omega)
  simp only [Walkers.metadataLoop,decByte_cons,if_neg live,one,answers.number _ _ (Nat.le_refl tail.length),walked,
    Option.bind_eq_bind,Option.bind_some,if_pos negative]

theorem Peeks.faults (answers : walk.Answers) {source : List UInt8} (peeks : Peeks walk source)
    (small : source.length < 2^31) (rounds : Nat) (total : Int) :
    walk.metadataLoop rounds source source.length total = none := by
  induction peeks generalizing rounds total with
  | @here index type live number optional =>
    cases rounds with
    | zero => rfl
    | succ rounds =>
      obtain ⟨content,kind⟩ := Option.isSome_iff_exists.mp optional
      have looped := metadataLoop_tag answers live number [] rounds total (by rwa [List.append_nil])
      rw [List.append_nil,value_behind kind] at looped
      exact looped
  | @later index type source size live number passes inside tail ih =>
    cases rounds with
    | zero => rfl
    | succ rounds =>
      have less : source.length < 2^31 := by
        simp only [List.length_cons,List.length_append] at small
        omega
      obtain ⟨skipped,step,rfl,value⟩ := passes.value answers inside less
      rw [metadataLoop_tag answers live number source rounds total small,value,Option.bind_some,goOn_passed inside less]
      exact ih (by rw [List.length_drop]; omega) rounds _

theorem metadataLoop_peeks (answers : walk.Answers) {rounds : Nat} {source : List UInt8} {total : Int}
    (enough : source.length < rounds) (some_left : source ≠ []) (small : source.length < 2^31)
    (faulted : walk.metadataLoop rounds source source.length total = none) : Peeks walk source := by
  induction rounds generalizing source total with
  | zero => omega
  | succ rounds ih =>
    cases source with
    | nil => contradiction
    | cons index tail =>
      by_cases live : index = 0xFF
      · rw [Walkers.metadataLoop,decByte_cons] at faulted
        simp [live] at faulted
      obtain ⟨ret,walked⟩ := walkVarint_total tail
      rcases Int.lt_or_le ret 0 with negative | accepted
      · rw [metadataLoop_refused answers live walked negative rounds total small] at faulted
        cases faulted
      obtain ⟨type,source,rfl,number,rfl,_⟩ := walkVarint_accepts walked accepted
      rw [metadataLoop_tag answers live number source rounds total small] at faulted
      simp only [List.length_cons,List.length_append] at enough small
      have outcome := value_outcome answers (metaShape (varintValue type)) (by omega : source.length < 2^31)
      generalize walk.value (metaShape (varintValue type)) source source.length = step at outcome faulted
      cases outcome with
      | peeked empty optional =>
        rw [empty,List.append_nil]
        exact .here live number optional
      | refused ret => cases faulted
      | short less =>
        rw [Option.bind_some,goOn,if_pos less] at faulted
        cases faulted
      | @passed skipped step inside passes =>
        rw [Option.bind_some,goOn_passed inside (by omega)] at faulted
        have length : (source.drop (skipped + step)).length = source.length - (skipped + step) := List.length_drop
        exact .later live number passes inside
          (ih (by omega) (List.length_pos_iff.mp (by omega)) (by omega) faulted)

/-- Given the whole buffer, the walker looks behind it in the case of these tags and in no other. -/
theorem metadata_peeks (answers : walk.Answers) {source : List UInt8} (small : source.length < 2^31) :
    walk.metadata source source.length ≠ none ↔ ¬Peeks walk source := by
  rw [Walkers.metadata]
  cases source with
  | nil => exact iff_of_true (by simp) (fun peeks => by cases peeks)
  | cons index tail =>
    rw [if_neg (by rw [List.length_cons]; omega)]
    exact not_congr ⟨metadataLoop_peeks answers (Nat.lt_succ_self _) (List.cons_ne_nil _ _) small,
      fun peeks => peeks.faults answers small _ _⟩

end Answering

/-! The walkers at fault. A callee that reads outside of what it is given is taken to refuse, so that what remains
is what `walk_metadata` itself reads and the bounds that it hands on. -/

/-- A bound that is not within the buffer is the caller's fault, a read outside of the bound is not. -/
def Walkers.blamed (walk : Walkers) : Walkers := fun callee source maxLen =>
  if maxLen ≤ source.length then some ((walk callee source maxLen).getD (-1)) else none

def Walkers.Bounded (walk : Walkers) : Prop :=
  ∀ callee source maxLen, maxLen ≤ source.length → walk callee source maxLen ≠ none

/-- `walk_varint` with any other walkers that answer an `int`. -/
structure Walkers.Proper (walk : Walkers) : Prop where
  number : walk .varint = walkVarint
  int : ∀ callee source maxLen ret, walk callee source maxLen = some ret → ret < 2^31

namespace Walkers.Proper
variable {walk : Walkers}

theorem answers (proper : walk.Proper) (bounded : walk.Bounded) : walk.Answers where
  bounded callee source maxLen inside := Option.ne_none_iff_exists'.mp (bounded callee source maxLen inside)
  int := proper.int
  number source maxLen _ := by rw [proper.number]

theorem blamed (proper : walk.Proper) : walk.blamed.Answers where
  bounded callee source maxLen inside := ⟨_,if_pos inside⟩
  int callee source maxLen ret walked := by
    unfold Walkers.blamed at walked
    split at walked
    next =>
      cases walked
      cases answer : walk callee source maxLen with
      | none => decide
      | some ret => exact proper.int callee source maxLen ret answer
    next => cases walked
  number source maxLen inside := by
    obtain ⟨ret,walked⟩ := Option.ne_none_iff_exists'.mp (walkVarint_bounded inside)
    rw [Walkers.blamed,if_pos inside,proper.number,walked]
    rfl

end Walkers.Proper

theorem blamed_natCast {walk : Walkers} {callee : Nested} {source : List UInt8} {size : Nat} :
    walk.blamed callee source source.length = some (size : Int) ↔ walk callee source source.length = some (size : Int) := by
  rw [Walkers.blamed,if_pos (Nat.le_refl _),Option.some.injEq]
  cases walk callee source source.length with
  | none =>
    refine iff_of_false ?_ (by simp)
    rw [Option.getD_none]
    omega
  | some ret => simp

def Walkers.Agree (walk other : Walkers) : Prop := ∀ callee source (size : Nat),
  walk callee source source.length = some (size : Int) → other callee source source.length = some (size : Int)

theorem Walkers.Agree.behind {walk other : Walkers} (agree : walk.Agree other) {shape : MetaShape}
    {content : List UInt8 → Nat → Option Int} (kind : shape.behind walk = some content) :
    ∃ again, shape.behind other = some again ∧ ∀ rest (size : Nat),
      content rest rest.length = some (size : Int) → again rest rest.length = some (size : Int) := by
  cases shape <;> cases kind
  · exact ⟨_,rfl,agree .string⟩
  · exact ⟨_,rfl,fun _ _ eight => eight⟩
  · exact ⟨_,rfl,fun _ _ sixteen => sixteen⟩
  · exact ⟨_,rfl,agree .varint⟩

theorem Passes.mono {walk other : Walkers} (agree : walk.Agree other) {shape : MetaShape} {source : List UInt8}
    {size : Nat} (passes : Passes walk shape source size) : Passes other shape source size := by
  cases passes with
  | fixed width => exact .fixed width
  | nested kind walked => exact .nested kind (agree _ _ _ walked)
  | clear kind =>
    obtain ⟨_,again,_⟩ := agree.behind kind
    exact .clear again
  | set kind live walked =>
    obtain ⟨_,again,same⟩ := agree.behind kind
    exact .set again live (same _ _ walked)
  | villagerdata rest one two three => exact .villagerdata rest one two three

theorem Peeks.mono {walk other : Walkers} (agree : walk.Agree other) {source : List UInt8} (peeks : Peeks walk source) :
    Peeks other source := by
  induction peeks with
  | here live number optional =>
    obtain ⟨_,kind⟩ := Option.isSome_iff_exists.mp optional
    obtain ⟨_,again,_⟩ := agree.behind kind
    exact .here live number (Option.isSome_iff_exists.mpr ⟨_,again⟩)
  | later live number passes inside _ ih => exact .later live number (passes.mono agree) inside ih

theorem Peeks.blamed {walk : Walkers} {source : List UInt8} : Peeks walk.blamed source ↔ Peeks walk source :=
  ⟨Peeks.mono fun _ _ _ => blamed_natCast.mp,Peeks.mono fun _ _ _ => blamed_natCast.mpr⟩

theorem walkers_proper : walkers.Proper where
  number := rfl
  int callee source maxLen ret walked := by
    cases callee with
    | varint =>
      have := walkVarint_int walked
      omega
    | string => exact walkString_int walked
    | slot =>
      have := walkSlot_int walked
      omega
    | nbt => exact walkNbt_int walked
    | particle => exact walkParticle_int walked

/-- Of the walkers of the code only the one of NBT may leave its bound. -/
theorem walkers_bounded {callee : Nested} (other : callee ≠ .nbt) {source : List UInt8} {maxLen : Nat}
    (inside : maxLen ≤ source.length) : walkers callee source maxLen ≠ none := by
  cases callee with
  | varint => exact walkVarint_bounded inside
  | string => exact walkString_bounded inside
  | slot => exact walkSlot_bounded inside
  | nbt => contradiction
  | particle => exact walkParticle_bounded inside

/-- The walker itself reads inside the buffer and hands on bounds inside of it, and with walkers that respect these
nothing else is read, unless the buffer ends behind the type of an optional tag. -/
theorem walkMetadata_inside_iff {walk : Walkers} (proper : walk.Proper) {source : List UInt8}
    (small : source.length < 2^31) :
    (walk.blamed.metadata source source.length ≠ none ↔ ¬Peeks walk source) ∧
    (walk.Bounded → (walk.metadata source source.length ≠ none ↔ ¬Peeks walk source)) := by
  refine ⟨?_,fun bounded => metadata_peeks (proper.answers bounded) small⟩
  rw [← Peeks.blamed]
  exact metadata_peeks proper.blamed small

/-- The walkers of the code, with all NBT refused. -/
def withoutNbt : Walkers := fun callee source maxLen =>
  if callee = .nbt then some (-1) else walkers callee source maxLen

theorem withoutNbt_proper : withoutNbt.Proper where
  number := rfl
  int callee source maxLen ret walked := by
    unfold withoutNbt at walked
    split at walked
    next => cases walked; decide
    next => exact walkers_proper.int callee source maxLen ret walked

theorem withoutNbt_bounded : withoutNbt.Bounded := by
  intro callee source maxLen inside
  unfold withoutNbt
  split
  next => simp
  next other => exact walkers_bounded other inside

/-- An optional chat that is there, of one letter, and one that is not. -/
def optionalTags : List UInt8 := [0,5,1,1,104,1,5,0,0xFF]

theorem walkMetadata_inside_iff_optional :
    (withoutNbt.blamed.metadata optionalTags 9 ≠ none ↔ ¬Peeks withoutNbt optionalTags) ∧
    (withoutNbt.metadata optionalTags 9 ≠ none ↔ ¬Peeks withoutNbt optionalTags) :=
  have inside := @walkMetadata_inside_iff withoutNbt withoutNbt_proper optionalTags (by decide)
  ⟨inside.1,inside.2 withoutNbt_bounded⟩

/-- An index and the type of an optional chat, and nothing behind. -/
theorem walkMetadata_inside_fails : ¬∀ (walk : Walkers) (source : List UInt8), walk.Proper → source.length < 2^31 →
    walk.blamed.metadata source source.length ≠ none := by
  intro inside
  exact inside walkers [0,5] walkers_proper (by decide) (by decide +kernel)

end CSpock.Metadata
