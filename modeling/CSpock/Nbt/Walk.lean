import CSpock.Library.Refusal
import CSpock.Nbt.Grammar

/-! The NBT walkers of `datautils.c`. A walk is given the bytes from `source` to
the end of the buffer and `max_len`; `none` is a read outside the buffer. The
mutual recursion of `walk_unnamed_nbt` with the list and compound walkers goes
through the `walk` argument of these two, one level of `fuel` for each level of
nesting. -/
namespace CSpock.Nbt
open CSpock.Library.Cursor CSpock.Library.Endian CSpock.Library.Refusal CSpock.Numeric

def walkNbtString (source : List UInt8) (maxLen : Nat) : Option Int :=
  if maxLen < 2 then some (-1) else
    match decBe16 source with
    | .ok len _ => if maxLen < 2 + len.toNat then some (-1) else some (2 + len.toNat)
    | _ => none

def walkNbtArray (source : List UInt8) (maxLen typeLen : Nat) : Option Int :=
  if maxLen < 4 then some (-1) else
    match decBe32 source with
    | .ok len _ =>
      if maxLen < 4 + len.toNat * typeLen then some (-1) else some (cInt (4 + len.toNat * typeLen))
    | _ => none

def walkNbtListLoop (walk : List UInt8 → UInt8 → Nat → Option Int) (type : UInt8) :
    Nat → List UInt8 → Nat → Int → Option Int
  | 0,_,_,size => some size
  | count+1,source,maxLen,size => do
    let step ← walk source type maxLen
    if step < 0 then some (-1) else
      walkNbtListLoop walk type count (source.drop step.toNat) (sizeSub maxLen step) (cInt (size + step))

/-- `max_len` is not reduced by the list's header before the elements are walked. -/
def walkNbtList (walk : List UInt8 → UInt8 → Nat → Option Int) (source : List UInt8) (maxLen : Nat) :
    Option Int :=
  if maxLen < 5 then some (-1) else
    match decByte source with
    | .ok type source =>
      match decBe32 source with
      | .ok count source => walkNbtListLoop walk type count.toInt32.toInt.toNat source maxLen 5
      | _ => none
    | _ => none

/-- The loop of `walk_nbt_compound`; each round takes a byte of the buffer. -/
def walkNbtCompoundLoop (walk : List UInt8 → UInt8 → Nat → Option Int) :
    Nat → List UInt8 → Nat → Int → Option Int
  | 0,_,_,_ => none
  | rounds+1,source,maxLen,totalSize =>
    if maxLen = 0 then some (-1) else
      match decByte source with
      | .ok type source =>
        if type = 0 then some (cInt (totalSize + 1)) else do
          let maxLen := sizeSub maxLen 1
          let tagSize ← walkNbtString source maxLen
          if tagSize < 0 then some (-1) else do
            let totalSize := cInt (cInt (totalSize + 1) + tagSize)
            let source := source.drop tagSize.toNat
            let maxLen := sizeSub maxLen tagSize
            let tagSize ← walk source type maxLen
            if tagSize < 0 then some (-1) else
              walkNbtCompoundLoop walk rounds (source.drop tagSize.toNat) (sizeSub maxLen tagSize)
                (cInt (totalSize + tagSize))
      | _ => none

def walkNbtCompound (walk : List UInt8 → UInt8 → Nat → Option Int) (source : List UInt8) (maxLen : Nat) :
    Option Int := walkNbtCompoundLoop walk (source.length+1) source maxLen 0

def walkNbtSwitch (walk : List UInt8 → UInt8 → Nat → Option Int) (source : List UInt8) (type : UInt8)
    (maxLen : Nat) : Option Int :=
  match type with
  | tagByte => some 1
  | tagShort => some 2
  | tagInt => some 4
  | tagLong => some 8
  | tagFloat => some 4
  | tagDouble => some 8
  | tagByteArray => walkNbtArray source maxLen 1
  | tagIntArray => walkNbtArray source maxLen 4
  | tagLongArray => walkNbtArray source maxLen 8
  | tagString => walkNbtString source maxLen
  | tagList => walkNbtList walk source maxLen
  | tagCompound => walkNbtCompound walk source maxLen
  | _ => some (-1)

def walkUnnamedNbt : Nat → List UInt8 → UInt8 → Nat → Option Int
  | 0,_,_,_ => none
  | fuel+1,source,type,maxLen => do
    let size ← walkNbtSwitch (walkUnnamedNbt fuel) source type maxLen
    if size < 0 then some (-1) else if maxLen < sizeT size then some (-1) else some size

def walkNbt (source : List UInt8) (maxLen : Nat) : Option Int :=
  if maxLen = 0 then some (-1) else
    match decByte source with
    | .ok type source => do
      let maxLen := sizeSub maxLen 1
      let size ← walkNbtString source maxLen
      if size < 0 then some (-1) else do
        let source := source.drop size.toNat
        let total := 1 + size
        let maxLen := sizeSub maxLen size
        let size ← walkUnnamedNbt (source.length+1) source type maxLen
        if size < 0 then some (-1) else some (cInt (total + size))
    | _ => none

theorem walkNbt_int {source : List UInt8} {maxLen : Nat} {ret : Int} (walked : walkNbt source maxLen = some ret) :
    ret < 2^31 := by
  unfold walkNbt at walked
  split at walked
  next => cases walked; decide
  next =>
    split at walked
    next =>
      rcases walk_cases walked with rfl | ⟨name,_,_,walked⟩
      · decide
      · rcases walk_cases walked with rfl | ⟨body,_,_,walked⟩
        · decide
        · cases walked
          exact cInt_lt _
    next => cases walked

/-- What an exact walk over `len` bytes answers under the bound `maxLen`. -/
def verdict (len maxLen : Nat) : Int := if len ≤ maxLen then len else -1

theorem verdict_of_le {len maxLen : Nat} (fits : len ≤ maxLen) : verdict len maxLen = len := if_pos fits

theorem verdict_of_lt {len maxLen : Nat} (beyond : maxLen < len) : verdict len maxLen = -1 :=
  if_neg (by omega)

theorem walk_passed {len maxLen : Nat} (fits : len ≤ maxLen) (next : Int → Option Int) :
    (some (verdict len maxLen) >>= fun ret => if ret < 0 then some (-1) else next ret) = next len := by
  rw [verdict_of_le fits,Option.bind_eq_bind,Option.bind_some,if_neg (by omega)]

theorem walk_refused {len maxLen : Nat} (beyond : maxLen < len) (next : Int → Option Int) :
    (some (verdict len maxLen) >>= fun ret => if ret < 0 then some (-1) else next ret) = some (-1) := by
  rw [verdict_of_lt beyond,Option.bind_eq_bind,Option.bind_some,if_pos (by decide)]

theorem final_check (size maxLen : Nat) (small : size < 2^31) :
    (if (size : Int) < 0 then some (-1)
      else if maxLen < sizeT (size : Int) then some (-1) else some (size : Int)) =
      some (verdict size maxLen) := by
  rw [if_neg (by omega),sizeT_natCast (by omega)]
  unfold verdict
  split <;> split <;> first | rfl | omega

theorem walkNbtString_text {d : Dialect} {bytes : List UInt8} (text : Text d bytes) (rest : List UInt8)
    (maxLen : Nat) : walkNbtString (bytes ++ rest) maxLen = some (verdict bytes.length maxLen) := by
  obtain @⟨header,body,width,size,_⟩ := text
  have bound := value_lt header
  have read : (UInt16.ofNat (value header)).toNat = value header := by
    rw [UInt16.toNat_ofNat']
    rw [width] at bound
    omega
  unfold walkNbtString verdict
  simp only [List.length_append,width]
  split
  next => rw [if_neg (by omega)]
  next =>
    rw [List.append_assoc,decBe16_reads header width (body ++ rest)]
    simp only [read,size]
    split
    next => rw [if_neg (by omega)]
    next => rw [if_pos (by omega)]; push_cast; rfl

theorem walkNbtArray_bytes {header body : List UInt8} {unit : Nat} (width : header.length = 4)
    (size : body.length = value header * unit) (rest : List UInt8) (maxLen : Nat) (small : maxLen < 2^31) :
    walkNbtArray (header ++ body ++ rest) maxLen unit = some (verdict (header ++ body).length maxLen) := by
  have bound := value_lt header
  have read : (UInt32.ofNat (value header)).toNat = value header := by
    rw [UInt32.toNat_ofNat']
    rw [width] at bound
    omega
  unfold walkNbtArray verdict
  simp only [List.length_append,width]
  split
  next => rw [if_neg (by omega)]
  next =>
    rw [List.append_assoc,decBe32_reads header width (body ++ rest)]
    simp only [read,size]
    split
    next => rw [if_neg (by omega)]
    next =>
      rw [if_pos (by omega)]
      have exact : cInt ((4 + value header * unit : Nat) : Int) = _ := cInt_natCast (by omega)
      push_cast at exact ⊢
      rw [exact]

theorem walkUnnamedNbt_scalar {type : UInt8} {width : Nat} (kind : scalarWidth type = some width)
    (fuel : Nat) (source : List UInt8) (maxLen : Nat) :
    walkUnnamedNbt (fuel+1) source type maxLen = some (verdict width maxLen) := by
  unfold scalarWidth at kind
  split at kind <;> cases kind <;> exact final_check _ maxLen (by decide)

/-- The check at the end of `walk_unnamed_nbt` changes nothing for a walker that
already keeps to its bound. -/
theorem bounded_check (size : Nat) {maxLen : Nat} (small : maxLen < 2^31) :
    (do
      let ret ← some (verdict size maxLen)
      if ret < 0 then some (-1) else if maxLen < sizeT ret then some (-1) else some ret) =
      some (verdict size maxLen) := by
  by_cases fits : size ≤ maxLen
  · rw [verdict_of_le fits]
    simpa [verdict_of_le fits] using final_check size maxLen (by omega)
  · rw [verdict_of_lt (by omega)]
    rfl

theorem walkUnnamedNbt_array {d : Dialect} {type : UInt8} {unit : Nat} {header body : List UInt8}
    (kind : arrayUnit d type = some unit) (width : header.length = 4)
    (size : body.length = value header * unit) (fuel : Nat) (rest : List UInt8) (maxLen : Nat)
    (small : maxLen < 2^31) :
    walkUnnamedNbt (fuel+1) (header ++ body ++ rest) type maxLen =
      some (verdict (header ++ body).length maxLen) := by
  have walked := walkNbtArray_bytes width size rest maxLen small
  have checked := bounded_check (header ++ body).length small
  unfold arrayUnit at kind
  split at kind
  · cases kind
    rw [← walked] at checked
    exact checked.trans walked
  · cases kind
    rw [← walked] at checked
    exact checked.trans walked
  · split at kind
    · cases kind
      rw [← walked] at checked
      exact checked.trans walked
    · cases kind
  · cases kind

theorem walkUnnamedNbt_string (fuel : Nat) (source : List UInt8) (maxLen size : Nat) (small : maxLen < 2^31)
    (walked : walkNbtString source maxLen = some (verdict size maxLen)) :
    walkUnnamedNbt (fuel+1) source tagString maxLen = some (verdict size maxLen) := by
  have checked := bounded_check size small
  rw [← walked] at checked
  exact checked.trans walked

/-- What the walkers answer on the bytes of a part, whatever the bound: exactly
the number of bytes when they fit and a refusal when they do not. The list loop
runs on a running `size` and the compound loop on a running `total`. -/
def Exact : Part → List UInt8 → Prop
  | .payload type,bytes => ∀ fuel rest maxLen, bytes.length < fuel → maxLen < 2^31 →
      walkUnnamedNbt fuel (bytes ++ rest) type maxLen = some (verdict bytes.length maxLen)
  | .elements type count,bytes => ∀ fuel rest maxLen size, bytes.length < fuel → maxLen < 2^31 →
      cInt size = size →
      walkNbtListLoop (walkUnnamedNbt fuel) type count (bytes ++ rest) maxLen size =
        some (if bytes.length ≤ maxLen then cInt (size + bytes.length) else -1)
  | .members,bytes => ∀ fuel rounds rest maxLen total, bytes.length ≤ fuel → bytes.length ≤ rounds →
      maxLen < 2^31 →
      walkNbtCompoundLoop (walkUnnamedNbt fuel) rounds (bytes ++ rest) maxLen total =
        some (if bytes.length ≤ maxLen then cInt (total + bytes.length) else -1)

theorem walkUnnamedNbt_list (fuel : Nat) (source : List UInt8) (maxLen : Nat) :
    walkUnnamedNbt (fuel+1) source tagList maxLen = (do
      let size ← walkNbtList (walkUnnamedNbt fuel) source maxLen
      if size < 0 then some (-1) else if maxLen < sizeT size then some (-1) else some size) := rfl

theorem exact_list {type : UInt8} {header body : List UInt8} (width : header.length = 4)
    (elements : Exact (.elements type (listCount header)) body) :
    Exact (.payload tagList) (type :: (header ++ body)) := by
  intro fuel rest maxLen deep small
  simp only [List.length_cons,List.length_append,width] at deep ⊢
  obtain ⟨fuel,rfl⟩ : ∃ more, fuel = more+1 := ⟨fuel-1,by omega⟩
  rw [walkUnnamedNbt_list]
  have looped := elements fuel rest maxLen 5 (by omega) small (by decide)
  unfold walkNbtList
  by_cases room : maxLen < 5
  · rw [if_pos room,verdict_of_lt (by omega)]
    rfl
  · rw [if_neg room]
    simp only [List.cons_append,decByte_cons,List.append_assoc,decBe32_reads header width (body ++ rest)]
    rw [listCount] at looped
    rw [looped]
    by_cases inner : body.length ≤ maxLen
    · -- the loop let five bytes too many pass; the final check takes them back
      rw [if_pos inner]
      by_cases fits : 5 + body.length < 2^31
      · have whole : cInt (5 + (body.length : Int)) = ((4 + body.length + 1 : Nat) : Int) := by
          rw [cInt_of_small (by omega) (by omega)]
          omega
        rw [whole,Option.bind_eq_bind,Option.bind_some]
        exact final_check _ maxLen (by omega)
      · have negative : cInt (5 + (body.length : Int)) < 0 := cInt_of_large (by omega) (by omega)
        rw [Option.bind_eq_bind,Option.bind_some,if_pos negative,verdict_of_lt (by omega)]
    · rw [if_neg inner,verdict_of_lt (by omega)]
      rfl

theorem exact_compound {bytes : List UInt8} (members : Exact .members bytes) :
    Exact (.payload tagCompound) bytes := by
  intro fuel rest maxLen deep small
  obtain ⟨fuel,rfl⟩ : ∃ more, fuel = more+1 := ⟨fuel-1,by omega⟩
  have looped := members fuel ((bytes ++ rest).length+1) rest maxLen 0 (by omega) (by simp; omega) small
  have walked : walkNbtCompound (walkUnnamedNbt fuel) (bytes ++ rest) maxLen =
      some (verdict bytes.length maxLen) := by
    unfold walkNbtCompound verdict
    rw [looped]
    split
    next fits => rw [Int.zero_add,cInt_natCast (by omega)]
    next => rfl
  have checked := bounded_check bytes.length small
  rw [← walked] at checked
  exact checked.trans walked

theorem exact_element {type : UInt8} {count : Nat} {first rest : List UInt8}
    (head : Exact (.payload type) first) (tail : Exact (.elements type count) rest) :
    Exact (.elements type (count+1)) (first ++ rest) := by
  intro fuel after maxLen size deep small stored
  simp only [List.length_append] at deep ⊢
  rw [walkNbtListLoop,List.append_assoc,head fuel (rest ++ after) maxLen (by omega) small]
  by_cases fits : first.length ≤ maxLen
  · rw [walk_passed fits,Int.toNat_natCast,List.drop_left,sizeSub_natCast fits (by omega),
      tail fuel after (maxLen - first.length) _ (by omega) (by omega) (cInt_idem _),cInt_add]
    by_cases room : first.length + rest.length ≤ maxLen
    · rw [if_pos (by omega),if_pos room]
      push_cast
      rw [Int.add_assoc]
    · rw [if_neg (by omega),if_neg room]
  · rw [walk_refused (by omega),if_neg (by omega)]

theorem exact_member {d : Dialect} {type : UInt8} {name first rest : List UInt8} (live : type ≠ 0)
    (text : Text d name) (head : Exact (.payload type) first) (tail : Exact .members rest) :
    Exact .members (type :: (name ++ (first ++ rest))) := by
  intro fuel rounds after maxLen total deep enough small
  simp only [List.length_cons,List.length_append] at deep enough ⊢
  have named := text.length_ge
  obtain ⟨rounds,rfl⟩ : ∃ more, rounds = more+1 := ⟨rounds-1,by omega⟩
  rw [walkNbtCompoundLoop]
  by_cases none : maxLen = 0
  · rw [if_pos none,if_neg (by omega)]
  · have one : sizeSub maxLen 1 = maxLen - 1 := sizeSub_natCast (by omega : 1 ≤ maxLen) (by omega)
    simp only [if_neg none,List.cons_append,decByte_cons,if_neg live,one,List.append_assoc,
      walkNbtString_text text (first ++ (rest ++ after)) (maxLen-1)]
    by_cases inside : name.length ≤ maxLen - 1
    · rw [walk_passed inside,Int.toNat_natCast,List.drop_left,sizeSub_natCast inside (by omega),
        head fuel (rest ++ after) (maxLen - 1 - name.length) (by omega) (by omega)]
      by_cases fits : first.length ≤ maxLen - 1 - name.length
      · rw [walk_passed fits,Int.toNat_natCast,List.drop_left,sizeSub_natCast fits (by omega),
          tail fuel rounds after _ _ (by omega) (by omega) (by omega)]
        simp only [cInt_add]
        by_cases room : name.length + (first.length + rest.length) + 1 ≤ maxLen
        · rw [if_pos (by omega),if_pos room]
          congr 2
          omega
        · rw [if_neg (by omega),if_neg room]
      · rw [walk_refused (by omega),if_neg (by omega)]
    · rw [walk_refused (by omega),if_neg (by omega)]

/-- The walkers pass over every part of a document by exactly its bytes, and
refuse it under every smaller bound. -/
theorem walk_exact {d : Dialect} {part : Part} {bytes : List UInt8} (parses : Parses d part bytes) :
    Exact part bytes := by
  induction parses with
  | @scalar type bytes width =>
    intro fuel rest maxLen deep _
    obtain ⟨fuel,rfl⟩ : ∃ more, fuel = more+1 := ⟨fuel-1,by omega⟩
    exact walkUnnamedNbt_scalar width fuel (bytes ++ rest) maxLen
  | @array type unit header body kind width size =>
    intro fuel rest maxLen deep small
    obtain ⟨fuel,rfl⟩ : ∃ more, fuel = more+1 := ⟨fuel-1,by omega⟩
    exact walkUnnamedNbt_array kind width size fuel rest maxLen small
  | @string bytes text =>
    intro fuel rest maxLen deep small
    obtain ⟨fuel,rfl⟩ : ∃ more, fuel = more+1 := ⟨fuel-1,by omega⟩
    exact walkUnnamedNbt_string fuel (bytes ++ rest) maxLen _ small (walkNbtString_text text rest maxLen)
  | list width _ ih => exact exact_list width ih
  | compound _ ih => exact exact_compound ih
  | none =>
    intro fuel rest maxLen size _ _ stored
    simp [walkNbtListLoop,stored]
  | element _ _ head tail => exact exact_element head tail
  | close =>
    intro fuel rounds rest maxLen total _ enough small
    obtain ⟨rounds,rfl⟩ : ∃ more, rounds = more+1 := ⟨rounds-1,by simp at enough; omega⟩
    rw [walkNbtCompoundLoop]
    by_cases none : maxLen = 0
    · simp [none]
    · simp [none,decByte,Nat.one_le_iff_ne_zero]
  | member live text _ _ head tail => exact exact_member live text head tail

theorem walkNbt_document {d : Dialect} {bytes : List UInt8} (document : Document d bytes)
    (rest : List UInt8) (maxLen : Nat) (small : maxLen < 2^31) :
    walkNbt (bytes ++ rest) maxLen = some (verdict bytes.length maxLen) := by
  obtain @⟨type,name,body,text,payload⟩ := document
  have exact := walk_exact payload
  simp only [List.length_cons,List.length_append]
  unfold walkNbt
  by_cases none : maxLen = 0
  · rw [if_pos none,verdict_of_lt (by omega)]
  · have one : sizeSub maxLen 1 = maxLen - 1 := sizeSub_natCast (by omega : 1 ≤ maxLen) (by omega)
    simp only [if_neg none,List.cons_append,decByte_cons,one,List.append_assoc,
      walkNbtString_text text (body ++ rest) (maxLen-1)]
    by_cases inside : name.length ≤ maxLen - 1
    · rw [walk_passed inside,Int.toNat_natCast,List.drop_left,sizeSub_natCast inside (by omega),
        exact ((body ++ rest).length+1) rest (maxLen - 1 - name.length) (by rw [List.length_append]; omega) (by omega)]
      by_cases fits : body.length ≤ maxLen - 1 - name.length
      · rw [walk_passed fits,verdict_of_le (by omega),cInt_of_small (by omega) (by omega)]
        congr 1
        omega
      · rw [walk_refused (by omega),verdict_of_lt (by omega)]
    · rw [walk_refused (by omega),verdict_of_lt (by omega)]

theorem take_header {header rest : List UInt8} {width : Nat} (length : header.length = width) (size : Nat) :
    (header ++ rest).take (width + size) = header ++ rest.take size := by
  rw [← length]
  exact List.take_length_add_append size

theorem walkNbtString_sound {source : List UInt8} {maxLen : Nat} {n : Int} (accepted : 0 ≤ n)
    (walked : walkNbtString source maxLen = some n) :
    ∃ len : Nat, n = len ∧ len ≤ maxLen ∧ (len ≤ source.length → Text walkDialect (source.take len)) := by
  unfold walkNbtString at walked
  split at walked
  next => cases walked; contradiction
  next =>
    split at walked
    next len rest read =>
      obtain ⟨header,rfl,width,_,size⟩ := decBe16_eq_ok read
      split at walked
      next => cases walked; contradiction
      next fits =>
        cases walked
        refine ⟨2 + len.toNat,by push_cast; rfl,by omega,?_⟩
        intro inside
        rw [List.length_append,width] at inside
        rw [take_header width,size]
        have whole : (rest.take (value header)).length = value header := by
          rw [List.length_take]
          omega
        have small := len.toNat_lt
        exact .mk width whole (by rw [whole]; change _ ≤ 65535; omega)
    next => cases walked

theorem walkNbtArray_sound {source : List UInt8} {maxLen unit : Nat} {n : Int} (accepted : 0 ≤ n)
    (small : maxLen < 2^31) (walked : walkNbtArray source maxLen unit = some n) :
    ∃ len : Nat, n = len ∧ len ≤ maxLen ∧ (len ≤ source.length →
      ∃ header body, source.take len = header ++ body ∧ header.length = 4 ∧
        body.length = value header * unit) := by
  unfold walkNbtArray at walked
  split at walked
  next => cases walked; contradiction
  next =>
    split at walked
    next len rest read =>
      obtain ⟨header,rfl,width,_,size⟩ := decBe32_eq_ok read
      split at walked
      next => cases walked; contradiction
      next fits =>
        have same := Option.some.inj walked
        refine ⟨4 + len.toNat * unit,?_,by omega,?_⟩
        · rw [← same,← cInt_natCast (by omega : 4 + len.toNat * unit < 2^31)]
          push_cast
          rfl
        intro inside
        rw [List.length_append,width] at inside
        refine ⟨header,rest.take (len.toNat * unit),take_header width _,width,?_⟩
        rw [List.length_take,← size]
        omega
    next => cases walked

/-- A walker of payloads that accepts only payloads of its dialect, inside the bound. -/
def Sound (walk : List UInt8 → UInt8 → Nat → Option Int) : Prop :=
  ∀ source type maxLen n, walk source type maxLen = some n → 0 ≤ n → maxLen < 2^31 →
    ∃ len : Nat, n = len ∧ len ≤ maxLen ∧
      (len ≤ source.length → Parses walkDialect (.payload type) (source.take len))

theorem walkNbtListLoop_sound {walk : List UInt8 → UInt8 → Nat → Option Int} (sound : Sound walk)
    {type : UInt8} {count : Nat} {source : List UInt8} {maxLen : Nat} {size n : Int} (accepted : 0 ≤ n)
    (small : maxLen < 2^31) (stored : cInt size = size)
    (walked : walkNbtListLoop walk type count source maxLen size = some n) :
    ∃ len : Nat, n = cInt (size + len) ∧ len ≤ maxLen ∧
      (len ≤ source.length → Parses walkDialect (.elements type count) (source.take len)) := by
  induction count generalizing source maxLen size with
  | zero =>
    cases walked
    exact ⟨0,by simpa using stored.symm,by omega,fun _ => .none⟩
  | succ count ih =>
    obtain ⟨step,first,nonneg,walked⟩ := walk_step accepted walked
    obtain ⟨head,rfl,fits,headParses⟩ := sound _ _ _ _ first nonneg small
    rw [Int.toNat_natCast,sizeSub_natCast fits (by omega)] at walked
    obtain ⟨tail,total,room,tailParses⟩ := ih (by omega) (cInt_idem _) walked
    refine ⟨head + tail,?_,by omega,?_⟩
    · rw [total,cInt_add]
      push_cast
      rw [Int.add_assoc]
    · intro inside
      rw [List.take_add]
      exact .element (headParses (by omega)) (tailParses (by rw [List.length_drop]; omega))

theorem walkNbtCompoundLoop_sound {walk : List UInt8 → UInt8 → Nat → Option Int} (sound : Sound walk)
    {rounds : Nat} {source : List UInt8} {maxLen : Nat} {total n : Int} (accepted : 0 ≤ n)
    (small : maxLen < 2^31) (walked : walkNbtCompoundLoop walk rounds source maxLen total = some n) :
    ∃ len : Nat, n = cInt (total + len) ∧ len ≤ maxLen ∧
      (len ≤ source.length → Parses walkDialect .members (source.take len)) := by
  induction rounds generalizing source maxLen total with
  | zero => cases walked
  | succ rounds ih =>
    rw [walkNbtCompoundLoop] at walked
    split at walked
    next => cases walked; contradiction
    next room =>
      split at walked
      next type rest read =>
        cases decByte_eq_ok read
        split at walked
        next close =>
          cases walked
          subst close
          exact ⟨1,rfl,by omega,fun _ => .close⟩
        next live =>
          have one : sizeSub maxLen 1 = maxLen - 1 := sizeSub_natCast (by omega : 1 ≤ maxLen) (by omega)
          obtain ⟨step,first,nonneg,walked⟩ := walk_step accepted walked
          obtain ⟨name,rfl,named,text⟩ := walkNbtString_sound nonneg first
          obtain ⟨step,second,nonneg,walked⟩ := walk_step accepted walked
          rw [one] at named
          rw [one,Int.toNat_natCast,sizeSub_natCast named (by omega)] at second walked
          obtain ⟨head,rfl,fits,headParses⟩ := sound _ _ _ _ second nonneg (by omega)
          rw [Int.toNat_natCast,sizeSub_natCast fits (by omega)] at walked
          obtain ⟨tail,sum,room,tailParses⟩ := ih (by omega) walked
          refine ⟨name + (head + tail) + 1,?_,by omega,?_⟩
          · rw [sum]
            simp only [cInt_add]
            congr 1
            push_cast
            omega
          · intro inside
            simp only [List.length_cons] at inside
            rw [List.take_succ_cons,List.take_add,List.take_add]
            exact .member live (text (by omega)) (headParses (by rw [List.length_drop]; omega))
              (tailParses (by simp only [List.length_drop]; omega))
      next => cases walked

/-- The header was not taken off the bound of the elements; the final check of
`walk_unnamed_nbt` makes up for it. -/
theorem walkNbtList_sound {walk : List UInt8 → UInt8 → Nat → Option Int} (sound : Sound walk)
    {source : List UInt8} {maxLen : Nat} {n : Int} (accepted : 0 ≤ n) (small : maxLen < 2^31)
    (fits : ¬maxLen < sizeT n) (walked : walkNbtList walk source maxLen = some n) :
    ∃ len : Nat, n = len ∧ len ≤ maxLen ∧
      (len ≤ source.length → Parses walkDialect (.payload tagList) (source.take len)) := by
  unfold walkNbtList at walked
  split at walked
  next => cases walked; contradiction
  next =>
    split at walked
    next type rest read =>
      cases decByte_eq_ok read
      split at walked
      next count rest read =>
        obtain ⟨header,rfl,width,rfl,_⟩ := decBe32_eq_ok read
        obtain ⟨len,total,room,elements⟩ := walkNbtListLoop_sound sound accepted small (by decide) walked
        have exact : n = (4 + len + 1 : Nat) := by
          by_cases whole : 5 + len < 2^31
          · rw [total,cInt_of_small (by omega) (by omega)]
            omega
          · have negative : cInt (5 + (len : Int)) < 0 := cInt_of_large (by omega) (by omega)
            omega
        rw [exact,sizeT_natCast (by omega)] at fits
        refine ⟨4 + len + 1,exact,by omega,fun inside => ?_⟩
        simp only [List.length_cons,List.length_append,width] at inside
        rw [List.take_succ_cons,take_header width]
        exact .list width (elements (by omega))
      next => cases walked
    next => cases walked

theorem walkUnnamedNbt_sound (fuel : Nat) : Sound (walkUnnamedNbt fuel) := by
  induction fuel with
  | zero => intro _ _ _ _ walked; cases walked
  | succ fuel ih =>
    intro source type maxLen n walked accepted small
    rw [walkUnnamedNbt] at walked
    obtain ⟨size,switch,nonneg,checked⟩ := walk_step accepted walked
    split at checked
    next => cases checked; contradiction
    next fits =>
      cases checked
      have scalar (width : Nat) (kind : scalarWidth type = some width) (same : n = width) :
          ∃ len : Nat, n = len ∧ len ≤ maxLen ∧
            (len ≤ source.length → Parses walkDialect (.payload type) (source.take len)) := by
        have range := scalarWidth_pos kind
        subst same
        rw [sizeT_natCast (by omega)] at fits
        refine ⟨width,rfl,by omega,fun inside => .scalar ?_⟩
        rw [List.length_take,Nat.min_eq_left inside,kind]
      have array (unit : Nat) (kind : arrayUnit walkDialect type = some unit)
          (switch : walkNbtArray source maxLen unit = some n) :
          ∃ len : Nat, n = len ∧ len ≤ maxLen ∧
            (len ≤ source.length → Parses walkDialect (.payload type) (source.take len)) := by
        obtain ⟨len,same,bound,bytes⟩ := walkNbtArray_sound nonneg small switch
        refine ⟨len,same,bound,fun inside => ?_⟩
        obtain ⟨header,body,split,width,count⟩ := bytes inside
        rw [split]
        exact .array kind width count
      unfold walkNbtSwitch at switch
      split at switch
      · cases switch; exact scalar 1 rfl rfl
      · cases switch; exact scalar 2 rfl rfl
      · cases switch; exact scalar 4 rfl rfl
      · cases switch; exact scalar 8 rfl rfl
      · cases switch; exact scalar 4 rfl rfl
      · cases switch; exact scalar 8 rfl rfl
      · exact array 1 rfl switch
      · exact array 4 rfl switch
      · exact array 8 rfl switch
      · obtain ⟨len,same,bound,text⟩ := walkNbtString_sound nonneg switch
        exact ⟨len,same,bound,fun inside => .string (text inside)⟩
      · exact walkNbtList_sound ih nonneg small fits switch
      · obtain ⟨len,same,bound,members⟩ := walkNbtCompoundLoop_sound ih nonneg small switch
        rw [Int.zero_add,cInt_natCast (by omega)] at same
        exact ⟨len,same,bound,fun inside => .compound (members inside)⟩
      · cases switch; contradiction

/-- An accepted walk passes over a whole document of the walker's dialect. -/
theorem walkNbt_sound {source : List UInt8} {maxLen : Nat} {n : Int} (accepted : 0 ≤ n)
    (small : maxLen < 2^31) (walked : walkNbt source maxLen = some n) :
    ∃ len : Nat, n = len ∧ len ≤ maxLen ∧
      (len ≤ source.length → Document walkDialect (source.take len)) := by
  unfold walkNbt at walked
  split at walked
  next => cases walked; contradiction
  next room =>
    split at walked
    next type rest read =>
      cases decByte_eq_ok read
      have one : sizeSub maxLen 1 = maxLen - 1 := sizeSub_natCast (by omega : 1 ≤ maxLen) (by omega)
      obtain ⟨step,first,nonneg,walked⟩ := walk_step accepted walked
      obtain ⟨name,rfl,named,text⟩ := walkNbtString_sound nonneg first
      obtain ⟨step,second,nonneg,walked⟩ := walk_step accepted walked
      rw [one] at named
      rw [one,Int.toNat_natCast,sizeSub_natCast named (by omega)] at second
      obtain ⟨body,rfl,fits,payload⟩ := walkUnnamedNbt_sound _ _ _ _ _ second nonneg (by omega)
      refine ⟨name + body + 1,?_,by omega,fun inside => ?_⟩
      · rw [← Option.some.inj walked,cInt_of_small (by omega) (by omega)]
        push_cast
        omega
      · simp only [List.length_cons] at inside
        rw [List.take_succ_cons,List.take_add]
        exact .mk (text (by omega)) (payload (by rw [List.length_drop]; omega))
    next => cases walked

end CSpock.Nbt
