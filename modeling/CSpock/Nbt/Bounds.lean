import CSpock.Nbt.Walk

/-! Where the walkers read. The bound of a list's elements still counts the five bytes
of its header, so a header may be read that ends behind the buffer. -/
namespace CSpock.Nbt
open CSpock.Library.Cursor CSpock.Library.Endian CSpock.Library.Refusal CSpock.Numeric

/-! A walk that answers answers the same in a longer buffer, and with more fuel. -/

theorem walkNbtString_append {source : List UInt8} {maxLen : Nat} {n : Int}
    (walked : walkNbtString source maxLen = some n) (tail : List UInt8) :
    walkNbtString (source ++ tail) maxLen = some n := by
  unfold walkNbtString at walked ⊢
  split at walked
  next less => rwa [if_pos less]
  next room =>
    rw [if_neg room]
    split at walked
    next len rest read =>
      obtain ⟨header,rfl,width,rfl,_⟩ := decBe16_eq_ok read
      rwa [List.append_assoc,decBe16_reads header width (rest ++ tail)]
    next => cases walked

theorem walkNbtArray_append {source : List UInt8} {maxLen unit : Nat} {n : Int}
    (walked : walkNbtArray source maxLen unit = some n) (tail : List UInt8) :
    walkNbtArray (source ++ tail) maxLen unit = some n := by
  unfold walkNbtArray at walked ⊢
  split at walked
  next less => rwa [if_pos less]
  next room =>
    rw [if_neg room]
    split at walked
    next len rest read =>
      obtain ⟨header,rfl,width,rfl,_⟩ := decBe32_eq_ok read
      rwa [List.append_assoc,decBe32_reads header width (rest ++ tail)]
    next => cases walked

def Extends (walk other : List UInt8 → UInt8 → Nat → Option Int) : Prop :=
  ∀ source type maxLen n, walk source type maxLen = some n → ∀ tail, other (source ++ tail) type maxLen = some n

section Longer
variable {walk other : List UInt8 → UInt8 → Nat → Option Int}

theorem walkNbtListLoop_append (same : Extends walk other) {type : UInt8} {count : Nat} {source : List UInt8}
    {maxLen : Nat} {size n : Int}
    (walked : walkNbtListLoop walk type count source maxLen size = some n) (tail : List UInt8) :
    walkNbtListLoop other type count (source ++ tail) maxLen size = some n := by
  induction count generalizing source maxLen size tail with
  | zero => exact walked
  | succ count ih =>
    refine walk_again walked (fun ret first => same _ _ _ _ first tail) fun ret _ rest => ?_
    rw [List.drop_append]
    exact ih rest _

theorem walkNbtCompoundLoop_append (same : Extends walk other) {rounds more : Nat} (enough : rounds ≤ more)
    {source : List UInt8} {maxLen : Nat} {total n : Int}
    (walked : walkNbtCompoundLoop walk rounds source maxLen total = some n) (tail : List UInt8) :
    walkNbtCompoundLoop other more (source ++ tail) maxLen total = some n := by
  induction rounds generalizing more source maxLen total tail with
  | zero => cases walked
  | succ rounds ih =>
    obtain ⟨more,rfl⟩ : ∃ fewer, more = fewer+1 := ⟨more-1,by omega⟩
    rw [walkNbtCompoundLoop] at walked ⊢
    split at walked
    next refused => rwa [if_pos refused]
    next room =>
      rw [if_neg room]
      split at walked
      next type rest read =>
        cases decByte_eq_ok read
        simp only [List.cons_append,decByte_cons]
        split at walked
        next close => rwa [if_pos close]
        next live =>
          rw [if_neg live]
          refine walk_again walked (fun ret name => walkNbtString_append name tail) fun ret _ walked => ?_
          rw [List.drop_append]
          refine walk_again walked (fun ret first => same _ _ _ _ first _) fun ret _ walked => ?_
          rw [List.drop_append]
          exact ih (by omega) walked _
      next => cases walked

theorem walkNbtList_append (same : Extends walk other) {source : List UInt8} {maxLen : Nat} {n : Int}
    (walked : walkNbtList walk source maxLen = some n) (tail : List UInt8) :
    walkNbtList other (source ++ tail) maxLen = some n := by
  unfold walkNbtList at walked ⊢
  split at walked
  next less => rwa [if_pos less]
  next room =>
    rw [if_neg room]
    split at walked
    next type rest read =>
      cases decByte_eq_ok read
      simp only [List.cons_append,decByte_cons]
      split at walked
      next count rest read =>
        obtain ⟨header,rfl,width,rfl,_⟩ := decBe32_eq_ok read
        rw [List.append_assoc,decBe32_reads header width (rest ++ tail)]
        exact walkNbtListLoop_append same walked tail
      next => cases walked
    next => cases walked

theorem walkNbtSwitch_append (same : Extends walk other) {source : List UInt8} {type : UInt8} {maxLen : Nat} {n : Int}
    (walked : walkNbtSwitch walk source type maxLen = some n) (tail : List UInt8) :
    walkNbtSwitch other (source ++ tail) type maxLen = some n := by
  unfold walkNbtSwitch at walked ⊢
  split at walked
  · exact walked
  · exact walked
  · exact walked
  · exact walked
  · exact walked
  · exact walked
  · exact walkNbtArray_append walked tail
  · exact walkNbtArray_append walked tail
  · exact walkNbtArray_append walked tail
  · exact walkNbtString_append walked tail
  · exact walkNbtList_append same walked tail
  · exact walkNbtCompoundLoop_append same (by rw [List.length_append]; omega) walked tail
  · exact walked

end Longer

theorem walkUnnamedNbt_append {fuel more : Nat} (enough : fuel ≤ more) :
    Extends (walkUnnamedNbt fuel) (walkUnnamedNbt more) := by
  induction fuel generalizing more with
  | zero => intro source type maxLen n walked; cases walked
  | succ fuel ih =>
    intro source type maxLen n walked tail
    obtain ⟨more,rfl⟩ : ∃ fewer, more = fewer+1 := ⟨more-1,by omega⟩
    exact walk_again walked (fun ret first => walkNbtSwitch_append (ih (by omega)) first tail) fun _ _ checked => checked

/-- The bytes of a part that is not finished: what comes next in it is a header of `width` bytes, behind the
headers of `lists` lists that lie in the `room` bytes that the buffer has from the start of the part. -/
inductive Opens : Part → (room lists width : Nat) → List UInt8 → Prop where
  | array {type : UInt8} {unit room : Nat} (kind : arrayUnit walkDialect type = some unit) :
      Opens (.payload type) room 0 4 []
  | string {room : Nat} : Opens (.payload tagString) room 0 2 []
  | list {room : Nat} : Opens (.payload tagList) room 0 5 []
  | elements {type : UInt8} {header front : List UInt8} {room lists width : Nat} (four : header.length = 4)
      (inner : Opens (.elements type (listCount header)) room lists width front) :
      Opens (.payload tagList) (room+5) (lists+1) width (type :: (header ++ front))
  | compound {front : List UInt8} {room lists width : Nat} (inner : Opens .members room lists width front) :
      Opens (.payload tagCompound) room lists width front
  | first {type : UInt8} {count room lists width : Nat} {front : List UInt8}
      (inner : Opens (.payload type) room lists width front) :
      Opens (.elements type (count+1)) room lists width front
  | next {type : UInt8} {count room lists width : Nat} {first front : List UInt8}
      (head : Parses walkDialect (.payload type) first)
      (inner : Opens (.elements type count) (room - first.length) lists width front) :
      Opens (.elements type (count+1)) room lists width (first ++ front)
  | tag {room : Nat} : Opens .members room 0 1 []
  | name {type : UInt8} {room : Nat} (live : type ≠ 0) : Opens .members room 0 2 [type]
  | value {type : UInt8} {name front : List UInt8} {room lists width : Nat} (live : type ≠ 0)
      (text : Text walkDialect name)
      (inner : Opens (.payload type) (room - 1 - name.length) lists width front) :
      Opens .members room lists width (type :: (name ++ front))
  | member {type : UInt8} {name first front : List UInt8} {room lists width : Nat} (live : type ≠ 0)
      (text : Text walkDialect name) (head : Parses walkDialect (.payload type) first)
      (inner : Opens .members (room - 1 - name.length - first.length) lists width front) :
      Opens .members room lists width (type :: (name ++ (first ++ front)))

theorem Opens.lists_le {part : Part} {room lists width : Nat} {front : List UInt8}
    (opens : Opens part room lists width front) : 5 * lists ≤ front.length ∧ 0 < width := by
  induction opens with
  | array | string | list | tag | name => simp
  | elements four _ ih =>
    simp only [List.length_cons,List.length_append,four]
    omega
  | compound _ ih => exact ih
  | first _ ih => exact ih
  | next _ _ ih =>
    rw [List.length_append]
    omega
  | value _ _ _ ih =>
    simp only [List.length_cons,List.length_append]
    omega
  | member _ _ _ _ ih =>
    simp only [List.length_cons,List.length_append]
    omega

/-- The buffer may go on to such an unfinished part, whose next header ends behind the buffer but not behind the
bound, from which the headers of the open lists have not been taken off. -/
def Overruns (part : Part) (source : List UInt8) (maxLen : Nat) : Prop :=
  ∃ lists width front back, Opens part source.length lists width front ∧ source <+: front ++ back ∧
    source.length < front.length + width ∧ front.length + width ≤ maxLen + 5 * lists

theorem walkNbtString_none {source : List UInt8} {maxLen : Nat} :
    walkNbtString source maxLen = none ↔ source.length < 2 ∧ 2 ≤ maxLen := by
  unfold walkNbtString
  split
  next less => simp; omega
  next room =>
    by_cases short : source.length < 2
    · simp [decBe16_short short,short]
      omega
    · have width : (source.take 2).length = 2 := by
        rw [List.length_take]
        omega
      rw [← List.take_append_drop 2 source,decBe16_reads _ width]
      simp only [List.take_append_drop]
      split <;> simp [short]

theorem walkNbtArray_none {source : List UInt8} {maxLen unit : Nat} :
    walkNbtArray source maxLen unit = none ↔ source.length < 4 ∧ 4 ≤ maxLen := by
  unfold walkNbtArray
  split
  next less => simp; omega
  next room =>
    by_cases short : source.length < 4
    · simp [decBe32_short short,short]
      omega
    · have width : (source.take 4).length = 4 := by
        rw [List.length_take]
        omega
      rw [← List.take_append_drop 4 source,decBe32_reads _ width]
      simp only [List.take_append_drop]
      split <;> simp [short]

theorem walkNbtList_none {walk : List UInt8 → UInt8 → Nat → Option Int} {source : List UInt8} {maxLen : Nat} :
    walkNbtList walk source maxLen = none ↔ 5 ≤ maxLen ∧ (source.length < 5 ∨ ∃ type header rest,
      source = type::(header ++ rest) ∧ header.length = 4 ∧
        walkNbtListLoop walk type (listCount header) rest maxLen 5 = none) := by
  unfold walkNbtList
  split
  next less =>
    refine iff_of_false (by simp) ?_
    rintro ⟨room,_⟩
    omega
  next room =>
    cases source with
    | nil => exact iff_of_true rfl ⟨by omega,.inl (by decide)⟩
    | cons type source =>
      simp only [decByte_cons,List.length_cons]
      by_cases short : source.length < 4
      · rw [decBe32_short short]
        exact iff_of_true rfl ⟨by omega,.inl (by omega)⟩
      · have width : (source.take 4).length = 4 := by
          rw [List.length_take]
          omega
        have read := decBe32_reads _ width (source.drop 4)
        rw [List.take_append_drop] at read
        rw [read]
        constructor
        · intro looped
          exact ⟨by omega,.inr ⟨type,source.take 4,source.drop 4,by rw [List.take_append_drop],width,looped⟩⟩
        · rintro ⟨_,behind | ⟨type,header,rest,split,four,looped⟩⟩
          · omega
          · obtain ⟨rfl,rfl⟩ := List.cons.inj split
            rwa [List.take_left' four,List.drop_left' four]

theorem walkUnnamedNbt_faults {source : List UInt8} {type : UInt8} {maxLen : Nat}
    (faulted : ∀ fuel, walkNbtSwitch (walkUnnamedNbt fuel) source type maxLen = none) (fuel : Nat) :
    walkUnnamedNbt fuel source type maxLen = none := by
  cases fuel with
  | zero => rfl
  | succ fuel =>
    rw [walkUnnamedNbt,faulted]
    rfl

section Rounds
variable {walk : List UInt8 → UInt8 → Nat → Option Int} {maxLen : Nat}

theorem walkNbtCompoundLoop_live {type : UInt8} (live : type ≠ 0) (rest : List UInt8) (rounds : Nat) (total : Int)
    (open_ : 0 < maxLen) (small : maxLen < 2^31) :
    walkNbtCompoundLoop walk (rounds+1) (type::rest) maxLen total = (do
      let tagSize ← walkNbtString rest (maxLen-1)
      if tagSize < 0 then some (-1) else do
        let size ← walk (rest.drop tagSize.toNat) type (sizeSub (maxLen-1) tagSize)
        if size < 0 then some (-1) else
          walkNbtCompoundLoop walk rounds ((rest.drop tagSize.toNat).drop size.toNat)
            (sizeSub (sizeSub (maxLen-1) tagSize) size) (cInt (cInt (cInt (total + 1) + tagSize) + size))) := by
  have one : sizeSub maxLen 1 = maxLen - 1 := sizeSub_natCast (by omega : 1 ≤ maxLen) (by omega)
  rw [walkNbtCompoundLoop,if_neg (by omega)]
  simp only [decByte_cons,if_neg live,one]

theorem walkNbtCompoundLoop_faults {source : List UInt8} (open_ : 0 < maxLen)
    (round : ∀ byte rest, source = byte::rest → ∀ rounds total,
      walkNbtCompoundLoop walk (rounds+1) (byte::rest) maxLen total = none) (rounds : Nat) (total : Int) :
    walkNbtCompoundLoop walk rounds source maxLen total = none := by
  cases rounds with
  | zero => rfl
  | succ rounds =>
    cases source with
    | nil =>
      rw [walkNbtCompoundLoop,if_neg (by omega)]
      rfl
    | cons byte rest => exact round byte rest rfl rounds total

end Rounds

def Faults : Part → List UInt8 → Nat → Prop
  | .payload type,source,maxLen => ∀ fuel, walkUnnamedNbt fuel source type maxLen = none
  | .elements type count,source,maxLen => ∀ fuel size,
      walkNbtListLoop (walkUnnamedNbt fuel) type count source maxLen size = none
  | .members,source,maxLen => ∀ fuel rounds total,
      walkNbtCompoundLoop (walkUnnamedNbt fuel) rounds source maxLen total = none

theorem none_or_answer {answer whole : Option Int} {ret : Int} (longer : ∀ step, answer = some step → whole = some step)
    (known : whole = some ret) : answer = none ∨ answer = some ret := by
  cases answer with
  | none => exact .inl rfl
  | some step => exact .inr ((longer step rfl).symm.trans known)

theorem walk_finished {type : UInt8} {first back source : List UInt8} (head : Parses walkDialect (.payload type) first)
    (same : source <+: first ++ back) {maxLen : Nat} (fits : first.length ≤ maxLen) (small : maxLen < 2^31) (fuel : Nat) :
    walkUnnamedNbt fuel source type maxLen = none ∨ walkUnnamedNbt fuel source type maxLen = some (first.length : Int) := by
  obtain ⟨tail,whole⟩ := same
  have exact := walk_exact head (max fuel (first.length+1)) back maxLen (by omega) small
  rw [verdict_of_le fits,← whole] at exact
  exact none_or_answer
    (fun ret walked => walkUnnamedNbt_append (Nat.le_max_left fuel (first.length+1)) _ _ _ _ walked tail) exact

theorem walkNbtString_finished {name back source : List UInt8} (text : Text walkDialect name)
    (same : source <+: name ++ back) {maxLen : Nat} (fits : name.length ≤ maxLen) :
    walkNbtString source maxLen = none ∨ walkNbtString source maxLen = some (name.length : Int) := by
  obtain ⟨tail,whole⟩ := same
  have exact := walkNbtString_text text back maxLen
  rw [verdict_of_le fits,← whole] at exact
  exact none_or_answer (fun ret walked => walkNbtString_append walked tail) exact

theorem drop_continued {source first back : List UInt8} (same : source <+: first ++ back) :
    source.drop first.length <+: back := by
  have dropped := same.drop first.length
  rwa [List.drop_left] at dropped

theorem cons_continued {source back : List UInt8} {byte : UInt8} (same : source <+: byte::back) (nonempty : 0 < source.length) :
    ∃ rest, source = byte::rest ∧ rest <+: back := by
  cases source with
  | nil => contradiction
  | cons first rest =>
    obtain ⟨rfl,behind⟩ := List.cons_prefix_cons.mp same
    exact ⟨rest,rfl,behind⟩

theorem header_continued {source header back : List UInt8} (same : source <+: header ++ back)
    (inside : header.length ≤ source.length) : ∃ rest, source = header ++ rest ∧ rest <+: back := by
  obtain ⟨rest,rfl⟩ := List.prefix_of_prefix_length_le (List.prefix_append header back) same inside
  exact ⟨rest,rfl,List.prefix_append_right_inj header |>.mp same⟩

theorem named_faults {fuel : Nat} {type : UInt8} {name back source : List UInt8} {maxLen : Nat} (live : type ≠ 0)
    (text : Text walkDialect name) (same : source <+: type :: (name ++ back)) (fits : name.length < maxLen)
    (small : maxLen < 2^31)
    (value : ∀ rest, rest <+: back → rest.length = source.length - 1 - name.length →
      walkUnnamedNbt fuel rest type (maxLen - 1 - name.length) = none ∨
      ∃ first : Nat, first ≤ maxLen - 1 - name.length ∧
        walkUnnamedNbt fuel rest type (maxLen - 1 - name.length) = some (first : Int) ∧
        ∀ rounds total, walkNbtCompoundLoop (walkUnnamedNbt fuel) rounds (rest.drop first)
          (maxLen - 1 - name.length - first) total = none) (rounds : Nat) (total : Int) :
    walkNbtCompoundLoop (walkUnnamedNbt fuel) rounds source maxLen total = none := by
  refine walkNbtCompoundLoop_faults (by omega) (fun byte rest split rounds total => ?_) rounds total
  subst split
  obtain ⟨rfl,agree⟩ := List.cons_prefix_cons.mp same
  rw [walkNbtCompoundLoop_live live rest rounds total (by omega) small]
  rcases walkNbtString_finished text agree (by omega : name.length ≤ maxLen - 1) with faulted | walked
  · rw [faulted]
    rfl
  · rw [walked,walk_natCast,Int.toNat_natCast,sizeSub_natCast (by omega) (by omega)]
    rcases value _ (drop_continued agree) (by rw [List.length_drop,List.length_cons]; omega) with
      faulted | ⟨first,within,walked,faulted⟩
    · rw [faulted]
      rfl
    · rw [walked,walk_natCast,Int.toNat_natCast,sizeSub_natCast within (by omega)]
      exact faulted rounds _

theorem Opens.faults {part : Part} {room lists width : Nat} {front : List UInt8}
    (opens : Opens part room lists width front) {source back : List UInt8} {maxLen : Nat} (left : source.length = room)
    (same : source <+: front ++ back) (behind : room < front.length + width)
    (granted : front.length + width ≤ maxLen + 5 * lists) (inside : room ≤ maxLen) (small : maxLen < 2^31) :
    Faults part source maxLen := by
  induction opens generalizing source maxLen with
  | @array type unit _ kind =>
    rw [List.length_nil] at behind granted
    have faulted (unit : Nat) : walkNbtArray source maxLen unit = none := walkNbtArray_none.mpr ⟨by omega,by omega⟩
    unfold arrayUnit at kind
    split at kind
    · exact walkUnnamedNbt_faults fun _ => faulted 1
    · exact walkUnnamedNbt_faults fun _ => faulted 4
    · exact walkUnnamedNbt_faults fun _ => faulted 8
    · cases kind
  | string =>
    rw [List.length_nil] at behind granted
    exact walkUnnamedNbt_faults fun _ => walkNbtString_none.mpr ⟨by omega,by omega⟩
  | list =>
    rw [List.length_nil] at behind granted
    exact walkUnnamedNbt_faults fun _ => walkNbtList_none.mpr ⟨by omega,.inl (by omega)⟩
  | @elements type header front room lists width four inner ih =>
    simp only [List.length_cons,List.length_append,four] at behind granted
    rw [List.cons_append,List.append_assoc] at same
    obtain ⟨rest,rfl,agree⟩ := cons_continued same (by omega)
    rw [List.length_cons] at left
    have whole : header.length ≤ rest.length := by omega
    obtain ⟨rest,rfl,further⟩ := header_continued agree whole
    rw [List.length_append,four] at left
    have looped := @ih rest maxLen (by omega) further (by omega) (by omega) (by omega) small
    exact walkUnnamedNbt_faults fun fuel =>
      walkNbtList_none.mpr ⟨by omega,.inr ⟨type,header,rest,rfl,four,looped fuel 5⟩⟩
  | compound _ ih =>
    exact walkUnnamedNbt_faults fun fuel => ih left same behind granted inside small fuel _ _
  | first _ ih =>
    intro fuel size
    rw [walkNbtListLoop,ih left same behind granted inside small fuel]
    rfl
  | @next type count room lists width first front head inner ih =>
    intro fuel size
    have charged := inner.lists_le
    rw [List.append_assoc] at same
    rw [List.length_append] at behind granted
    rw [walkNbtListLoop]
    rcases walk_finished head same (by omega : first.length ≤ maxLen) small fuel with faulted | walked
    · rw [faulted]
      rfl
    · rw [walked,Option.bind_eq_bind,Option.bind_some,if_neg (by omega),Int.toNat_natCast,sizeSub_natCast (by omega) (by omega)]
      exact ih (by rw [List.length_drop,left]) (drop_continued same) (by omega) (by omega) (by omega) (by omega) fuel _
  | tag =>
    intro fuel
    rw [List.length_nil] at behind granted
    refine walkNbtCompoundLoop_faults (by omega) fun byte rest split => ?_
    rw [split,List.length_cons] at left
    omega
  | @name type room live =>
    intro fuel
    refine walkNbtCompoundLoop_faults (by omega) fun byte rest split rounds total => ?_
    subst split
    obtain ⟨rfl,_⟩ := List.cons_prefix_cons.mp same
    simp only [List.length_cons,List.length_nil] at left behind granted
    rw [walkNbtCompoundLoop_live live rest rounds total (by omega) small,
      walkNbtString_none.mpr ⟨by omega,by omega⟩]
    rfl
  | @value type name front room lists width live text inner ih =>
    intro fuel
    have charged := inner.lists_le
    simp only [List.cons_append,List.append_assoc] at same
    simp only [List.length_cons,List.length_append] at behind granted
    refine named_faults live text same (by omega) small fun rest agree length => .inl ?_
    exact ih (by omega) agree (by omega) (by omega) (by omega) (by omega) fuel
  | @member type name first front room lists width live text head inner ih =>
    intro fuel
    have charged := inner.lists_le
    simp only [List.cons_append,List.append_assoc] at same
    simp only [List.length_cons,List.length_append] at behind granted
    refine named_faults live text same (by omega) small fun rest agree length => ?_
    have within : first.length ≤ maxLen - 1 - name.length := by omega
    refine (walk_finished head agree within (by omega) fuel).imp id fun walked => ⟨first.length,within,walked,?_⟩
    exact ih (by rw [List.length_drop]; omega) (drop_continued agree) (by omega) (by omega) (by omega) (by omega) fuel

/-! The other way: a walk that reads outside the buffer has come to such a header. -/

def padded (source : List UInt8) (size : Nat) : List UInt8 := source ++ List.replicate (size - source.length) 0

theorem length_take_padded (source : List UInt8) (size : Nat) : ((padded source size).take size).length = size := by
  simp only [padded,List.length_take,List.length_append,List.length_replicate]
  omega

theorem take_padded (source : List UInt8) (size : Nat) : source.take size <+: (padded source size).take size := by
  rw [padded,List.take_append]
  exact List.prefix_append _ _

/-- What an accepted walk passed over, as far as the buffer has it: its answer and what is known of it are those on
the buffer with zeros behind. -/
theorem passed_padded {walk : List UInt8 → Option Int} {good : List UInt8 → Prop} {maxLen : Nat}
    (longer : ∀ source step, walk source = some step → ∀ tail, walk (source ++ tail) = some step)
    (sound : ∀ source step, walk source = some step → 0 ≤ step →
      ∃ len : Nat, step = len ∧ len ≤ maxLen ∧ (len ≤ source.length → good (source.take len)))
    {source : List UInt8} {step : Int} (walked : walk source = some step) (accepted : 0 ≤ step) :
    ∃ piece, step = (piece.length : Nat) ∧ piece.length ≤ maxLen ∧ source.take piece.length <+: piece ∧ good piece := by
  obtain ⟨len,rfl,fits,_⟩ := sound source step walked accepted
  obtain ⟨_,same,_,known⟩ := sound (padded source len) len (longer source len walked _) accepted
  obtain rfl := Int.ofNat_inj.mp same
  have length := length_take_padded source len
  refine ⟨(padded source len).take len,by rw [length],by rwa [length],?_,known ?_⟩
  · rw [length]
    exact take_padded source len
  · rw [List.length_take] at length
    omega

theorem walkUnnamedNbt_passed {fuel : Nat} {source : List UInt8} {type : UInt8} {maxLen : Nat} {step : Int}
    (walked : walkUnnamedNbt fuel source type maxLen = some step) (accepted : 0 ≤ step) (small : maxLen < 2^31) :
    ∃ first, step = (first.length : Nat) ∧ first.length ≤ maxLen ∧ source.take first.length <+: first ∧
      Parses walkDialect (.payload type) first :=
  passed_padded (fun source step => walkUnnamedNbt_append (Nat.le_refl fuel) source type maxLen step)
    (fun source step walked accepted => walkUnnamedNbt_sound fuel source type maxLen step walked accepted small)
    walked accepted

theorem walkNbtString_passed {source : List UInt8} {maxLen : Nat} {step : Int}
    (walked : walkNbtString source maxLen = some step) (accepted : 0 ≤ step) :
    ∃ name, step = (name.length : Nat) ∧ name.length ≤ maxLen ∧ source.take name.length <+: name ∧
      Text walkDialect name :=
  passed_padded (fun _ _ walked => walkNbtString_append walked)
    (fun _ _ walked accepted => walkNbtString_sound accepted walked) walked accepted

theorem continued_append {source first back : List UInt8} (head : source.take first.length <+: first)
    (rest : source.drop first.length <+: back) : source <+: first ++ back := by
  rcases Nat.lt_or_ge source.length first.length with beyond | inside
  · rw [List.take_of_length_le (by omega)] at head
    exact head.trans (List.prefix_append first back)
  · have whole : source.take first.length = first := head.eq_of_length (by rw [List.length_take]; omega)
    rw [← List.take_append_drop first.length source,whole]
    exact (List.prefix_append_right_inj first).mpr rest

namespace Overruns
variable {source : List UInt8} {maxLen : Nat}

theorem elements {type : UInt8} {header : List UInt8} (four : header.length = 4)
    (inner : Overruns (.elements type (listCount header)) source maxLen) :
    Overruns (.payload tagList) (type::(header ++ source)) maxLen := by
  obtain ⟨lists,width,front,back,opens,same,behind,granted⟩ := inner
  have length : (type::(header ++ source)).length = source.length + 5 := by
    simp only [List.length_cons,List.length_append,four]
    omega
  refine ⟨lists+1,width,type::(header ++ front),back,?_,?_,?_,?_⟩
  · rw [length]
    exact .elements four opens
  · rw [List.cons_append,List.append_assoc]
    exact (List.prefix_append_right_inj (type::header)).mpr same
  · simp only [length,List.length_cons,List.length_append]
    omega
  · simp only [List.length_cons,List.length_append]
    omega

theorem compound (inner : Overruns .members source maxLen) : Overruns (.payload tagCompound) source maxLen := by
  obtain ⟨lists,width,front,back,opens,rest⟩ := inner
  exact ⟨lists,width,front,back,.compound opens,rest⟩

theorem first {type : UInt8} {count : Nat} (inner : Overruns (.payload type) source maxLen) :
    Overruns (.elements type (count+1)) source maxLen := by
  obtain ⟨lists,width,front,back,opens,rest⟩ := inner
  exact ⟨lists,width,front,back,.first opens,rest⟩

theorem next {type : UInt8} {count : Nat} {first : List UInt8} (head : Parses walkDialect (.payload type) first)
    (fits : first.length ≤ maxLen) (agree : source.take first.length <+: first)
    (inner : Overruns (.elements type count) (source.drop first.length) (maxLen - first.length)) :
    Overruns (.elements type (count+1)) source maxLen := by
  obtain ⟨lists,width,front,back,opens,same,behind,granted⟩ := inner
  rw [List.length_drop] at opens behind
  refine ⟨lists,width,first ++ front,back,.next head opens,?_,?_,?_⟩
  · rw [List.append_assoc]
    exact continued_append agree same
  · rw [List.length_append]
    omega
  · rw [List.length_append]
    omega

theorem value {type : UInt8} (live : type ≠ 0) {name : List UInt8} (text : Text walkDialect name)
    (fits : name.length + 1 ≤ maxLen) (agree : source.take name.length <+: name)
    (inner : Overruns (.payload type) (source.drop name.length) (maxLen - 1 - name.length)) :
    Overruns .members (type::source) maxLen := by
  obtain ⟨lists,width,front,back,opens,same,behind,granted⟩ := inner
  rw [List.length_drop] at opens behind
  refine ⟨lists,width,type::(name ++ front),back,.value live text opens,?_,?_,?_⟩
  · rw [List.cons_append,List.append_assoc]
    exact List.cons_prefix_cons.mpr ⟨rfl,continued_append agree same⟩
  · simp only [List.length_cons,List.length_append]
    omega
  · simp only [List.length_cons,List.length_append]
    omega

theorem member {type : UInt8} (live : type ≠ 0) {name first : List UInt8} (text : Text walkDialect name)
    (head : Parses walkDialect (.payload type) first) (fits : name.length + first.length + 1 ≤ maxLen)
    (agree : source.take name.length <+: name) (follow : (source.drop name.length).take first.length <+: first)
    (inner : Overruns .members ((source.drop name.length).drop first.length) (maxLen - 1 - name.length - first.length)) :
    Overruns .members (type::source) maxLen := by
  obtain ⟨lists,width,front,back,opens,same,behind,granted⟩ := inner
  simp only [List.length_drop] at opens behind
  refine ⟨lists,width,type::(name ++ (first ++ front)),back,.member live text head opens,?_,?_,?_⟩
  · simp only [List.cons_append,List.append_assoc]
    exact List.cons_prefix_cons.mpr ⟨rfl,continued_append agree (continued_append follow same)⟩
  · simp only [List.length_cons,List.length_append]
    omega
  · simp only [List.length_cons,List.length_append]
    omega

end Overruns

theorem Overruns.header {part : Part} {source : List UInt8} {maxLen width : Nat} (opens : Opens part source.length 0 width [])
    (short : source.length < width) (granted : width ≤ maxLen) : Overruns part source maxLen :=
  ⟨0,width,[],source,opens,List.prefix_rfl,by rw [List.length_nil]; omega,by rw [List.length_nil]; omega⟩

/-- The walks of payloads with this much fuel, which is enough for the buffer, read outside of it only so. -/
def Accounted (fuel : Nat) : Prop := ∀ source type maxLen, source.length < fuel → maxLen < 2^31 →
  walkUnnamedNbt fuel source type maxLen = none → Overruns (.payload type) source maxLen

section Faulted
variable {fuel : Nat}

theorem walkNbtListLoop_overruns (deeper : Accounted fuel) {type : UInt8} {count : Nat} {source : List UInt8} {maxLen : Nat} {size : Int}
    (room : source.length < fuel) (small : maxLen < 2^31)
    (faulted : walkNbtListLoop (walkUnnamedNbt fuel) type count source maxLen size = none) :
    Overruns (.elements type count) source maxLen := by
  induction count generalizing source maxLen size with
  | zero => cases faulted
  | succ count ih =>
    rcases walk_none faulted with faulted | ⟨step,walked,accepted,faulted⟩
    · exact .first (deeper source type maxLen room small faulted)
    · obtain ⟨first,rfl,fits,agree,head⟩ := walkUnnamedNbt_passed walked accepted small
      rw [Int.toNat_natCast,sizeSub_natCast fits (by omega)] at faulted
      exact .next head fits agree (ih (by rw [List.length_drop]; omega) (by omega) faulted)

theorem walkNbtCompoundLoop_overruns (deeper : Accounted fuel) {rounds : Nat} {source : List UInt8} {maxLen : Nat} {total : Int}
    (enough : source.length < rounds) (room : source.length ≤ fuel) (small : maxLen < 2^31)
    (faulted : walkNbtCompoundLoop (walkUnnamedNbt fuel) rounds source maxLen total = none) :
    Overruns .members source maxLen := by
  induction rounds generalizing source maxLen total with
  | zero => omega
  | succ rounds ih =>
    by_cases closed : maxLen = 0
    · rw [walkNbtCompoundLoop,if_pos closed] at faulted
      cases faulted
    cases source with
    | nil => exact .header .tag (by decide) (by omega)
    | cons type source =>
      rw [List.length_cons] at enough room
      by_cases live : type = 0
      · rw [walkNbtCompoundLoop,if_neg closed,decByte_cons] at faulted
        simp [live] at faulted
      rw [walkNbtCompoundLoop_live live source rounds total (by omega) small] at faulted
      rcases walk_none faulted with faulted | ⟨step,walked,accepted,faulted⟩
      · obtain ⟨short,granted⟩ := walkNbtString_none.mp faulted
        refine ⟨0,2,[type],source,.name live,List.prefix_rfl,?_,?_⟩
        · simp only [List.length_cons,List.length_nil]
          omega
        · simp only [List.length_cons,List.length_nil]
          omega
      · obtain ⟨name,rfl,named,agree,text⟩ := walkNbtString_passed walked accepted
        rw [Int.toNat_natCast,sizeSub_natCast named (by omega)] at faulted
        rcases walk_none faulted with faulted | ⟨step,walked,accepted,faulted⟩
        · exact .value live text (by omega) agree
            (deeper _ type _ (by rw [List.length_drop]; omega) (by omega) faulted)
        · obtain ⟨first,rfl,fits,follow,head⟩ := walkUnnamedNbt_passed walked accepted (by omega)
          rw [Int.toNat_natCast,sizeSub_natCast fits (by omega)] at faulted
          exact .member live text head (by omega) agree follow
            (ih (by simp only [List.length_drop]; omega) (by simp only [List.length_drop]; omega) (by omega) faulted)

theorem walkNbtList_overruns (deeper : Accounted fuel) {source : List UInt8} {maxLen : Nat}
    (room : source.length ≤ fuel) (small : maxLen < 2^31)
    (faulted : walkNbtList (walkUnnamedNbt fuel) source maxLen = none) : Overruns (.payload tagList) source maxLen := by
  obtain ⟨granted,short | ⟨type,header,rest,rfl,four,looped⟩⟩ := walkNbtList_none.mp faulted
  · exact .header .list short granted
  · simp only [List.length_cons,List.length_append,four] at room
    exact .elements four (walkNbtListLoop_overruns deeper (by omega) small looped)

end Faulted

theorem walkUnnamedNbt_overruns (fuel : Nat) : Accounted fuel := by
  induction fuel with
  | zero => intro source type maxLen room; omega
  | succ fuel ih =>
    intro source type maxLen room small faulted
    rw [walkUnnamedNbt] at faulted
    have array (unit : Nat) (kind : arrayUnit walkDialect type = some unit)
        (faulted : walkNbtArray source maxLen unit = none) : Overruns (.payload type) source maxLen := by
      obtain ⟨short,granted⟩ := walkNbtArray_none.mp faulted
      exact .header (.array kind) short granted
    rcases walk_none faulted with faulted | ⟨size,_,_,checked⟩
    · unfold walkNbtSwitch at faulted
      split at faulted
      · cases faulted
      · cases faulted
      · cases faulted
      · cases faulted
      · cases faulted
      · cases faulted
      · exact array 1 rfl faulted
      · exact array 4 rfl faulted
      · exact array 8 rfl faulted
      · obtain ⟨short,granted⟩ := walkNbtString_none.mp faulted
        exact .header .string short granted
      · exact walkNbtList_overruns ih (by omega) small faulted
      · exact .compound (walkNbtCompoundLoop_overruns ih (by omega) (by omega) small faulted)
      · cases faulted
    · split at checked <;> cases checked

/-- The buffer may go on to a document that is not finished, whose next header lies in lists that begin in the buffer
and ends behind the buffer by no more than five bytes for each of them. -/
def Overreads (source : List UInt8) : Prop :=
  ∃ type name lists width front back, Text walkDialect name ∧
    Opens (.payload type) (source.length - 1 - name.length) lists width front ∧
    source <+: type::(name ++ (front ++ back)) ∧ source.length < 1 + name.length + front.length + width ∧
    1 + name.length + front.length + width ≤ source.length + 5 * lists

theorem walkNbt_faults {source : List UInt8} (small : source.length < 2^31) (overreads : Overreads source) :
    walkNbt source source.length = none := by
  obtain ⟨type,name,lists,width,front,back,text,opens,same,behind,granted⟩ := overreads
  have charged := opens.lists_le
  obtain ⟨rest,rfl,agree⟩ := cons_continued same (by omega)
  simp only [List.length_cons] at *
  have one : sizeSub (rest.length+1) 1 = rest.length := sizeSub_natCast (by omega : 1 ≤ rest.length+1) (by omega)
  rw [walkNbt,if_neg (by omega)]
  simp only [decByte_cons,one]
  rcases walkNbtString_finished text agree (by omega : name.length ≤ rest.length) with faulted | walked
  · rw [faulted]
    rfl
  · have faulted := opens.faults (by rw [List.length_drop]; omega) (drop_continued agree) (by omega)
      (by omega : front.length + width ≤ rest.length - name.length + 5 * lists) (by omega) (by omega)
      ((rest.drop name.length).length + 1)
    rw [walked,walk_natCast,Int.toNat_natCast,sizeSub_natCast (by omega) (by omega),faulted]
    rfl

theorem walkNbt_overreads {source : List UInt8} (small : source.length < 2^31) (faulted : walkNbt source source.length = none) :
    Overreads source := by
  cases source with
  | nil => cases faulted
  | cons type rest =>
    simp only [List.length_cons] at small faulted
    have one : sizeSub (rest.length+1) 1 = rest.length := sizeSub_natCast (by omega : 1 ≤ rest.length+1) (by omega)
    rw [walkNbt,if_neg (by omega)] at faulted
    simp only [decByte_cons,one] at faulted
    rcases walk_none faulted with faulted | ⟨step,walked,accepted,faulted⟩
    · have := walkNbtString_none.mp faulted
      omega
    · obtain ⟨name,rfl,named,agree,text⟩ := walkNbtString_passed walked accepted
      rw [Int.toNat_natCast,sizeSub_natCast named (by omega)] at faulted
      rcases walk_none faulted with faulted | ⟨step,walked,accepted,faulted⟩
      · obtain ⟨lists,width,front,back,opens,same,behind,granted⟩ :=
          walkUnnamedNbt_overruns _ _ type _ (by omega) (by omega) faulted
        rw [List.length_drop] at opens behind
        refine ⟨type,name,lists,width,front,back,text,?_,?_,?_,?_⟩
        · exact opens
        · exact List.cons_prefix_cons.mpr ⟨rfl,continued_append agree same⟩
        · rw [List.length_cons]
          omega
        · rw [List.length_cons]
          omega
      · cases faulted

/-- Given the whole buffer, the walker reads outside of it in the case of these documents and in no other. -/
theorem walkNbt_inside_iff {source : List UInt8} (small : source.length < 2^31) :
    walkNbt source source.length ≠ none ↔ ¬Overreads source :=
  not_congr ⟨walkNbt_overreads small,walkNbt_faults small⟩

/-- A compound with a list of one string, cut off behind the list's count. -/
def cutList : List UInt8 := [10,0,0,9,0,0,8,0,0,0,1]

theorem walkNbt_inside_iff_cutList : walkNbt cutList cutList.length ≠ none ↔ ¬Overreads cutList :=
  walkNbt_inside_iff (by decide)

theorem walkNbt_inside_fails : ¬∀ (source : List UInt8), source.length < 2^31 → walkNbt source source.length ≠ none := by
  intro inside
  exact inside cutList (by decide) (by decide +kernel)

end CSpock.Nbt
