import CSpock.Slot

/-! Cooking recipes: the array of slots that an ingredient is, and the smelting recipe. -/
namespace CSpock.Recipe
open CSpock.Library.Cursor CSpock.Library.Refusal CSpock.Numeric CSpock.Varnum CSpock.Strings CSpock.Slot

structure McIngredient where
  count : Int32
  items : List McSlot

structure McSmelting where
  group : Option (List UInt8)
  ingredient : McIngredient
  result : McSlot
  experience : UInt32
  cookingTime : Int32

/-- The loop of `size_ingredient`, for the slots that are left; a result of `none` is a read behind the array. -/
def sizeItems : Nat → List McSlot → Option Nat
  | 0,_ => some 0
  | _+1,[] => none
  | left+1,item::items => (sizeItems left items).map (sizeSlot item + ·)

def sizeIngredient (ingredient : McIngredient) : Option Nat :=
  (sizeItems ingredient.count.toInt.toNat ingredient.items).map (sizeVarint ingredient.count.toUInt32 + ·)

def encItems : Nat → List McSlot → Option (List UInt8)
  | 0,_ => some []
  | _+1,[] => none
  | left+1,item::items => do
    let first ← encSlot item
    let rest ← encItems left items
    some (first ++ rest)

def encIngredient (source : McIngredient) : Option (List UInt8) :=
  (encItems source.count.toInt.toNat source.items).map (encVarint source.count.toUInt32 ++ ·)

def decItems (heap : Heap) : Nat → List UInt8 → Decoded (List McSlot)
  | 0,source => .ok [] source
  | left+1,source => (decSlot heap source).checked fun item source => (decItems heap left source).map (item :: ·)

/-- The slots are stored where `items` already points to, which has room for them. -/
def decIngredient (heap : Heap) (source : List UInt8) : Decoded McIngredient :=
  (decVarint source).andThen fun count source =>
    (decItems heap count.toInt.toNat source).map fun items => ⟨count,items⟩

/-- No cursor is looked at on the way. -/
def decSmelting (heap : Heap) (source : List UInt8) : Decoded McSmelting :=
  (decString heap source).andThen fun group source => (decIngredient heap source).andThen fun ingredient source =>
    (decSlot heap source).andThen fun result source => (decBef32 source).andThen fun experience source =>
      (decVarint source).map fun cookingTime => ⟨group,ingredient,result,experience,cookingTime⟩

/-- The loop of `walk_ingredient`. The cursor stays where it is. -/
def walkItems (source : List UInt8) : Nat → Nat → Int → Option Int
  | 0,_,size => some size
  | left+1,maxLen,size => do
    let ret ← walkSlot source maxLen
    if ret < 0 then some ret else walkItems source left (sizeSub maxLen ret) (cInt (size + ret))

def walkIngredient (source : List UInt8) (maxLen : Nat) : Option Int := do
  let ret ← walkVarint source maxLen
  if ret < 0 then some ret else
    match decVarint source with
    | .ok len source => walkItems source len.toInt.toNat (sizeSub maxLen ret) ret
    | _ => none

/-- The four bytes of `experience` are taken off the bound, and the size of the slot in front is added once more. -/
def walkSmelting (source : List UInt8) (maxLen : Nat) : Option Int := do
  let ret ← walkString source maxLen
  if ret < 0 then some ret else do
    let size := ret
    let source := source.drop ret.toNat
    let maxLen := sizeSub maxLen ret
    let ret ← walkIngredient source maxLen
    if ret < 0 then some ret else do
      let size := cInt (size + ret)
      let source := source.drop ret.toNat
      let maxLen := sizeSub maxLen ret
      let ret ← walkSlot source maxLen
      if ret < 0 then some ret else
        let size := cInt (size + ret)
        let source := source.drop ret.toNat
        let maxLen := sizeSub maxLen ret
        if maxLen < 4 then some (-1) else do
          let size := cInt (size + ret)
          let ret ← walkVarint (source.drop 4) (sizeSub maxLen 4)
          if ret < 0 then some ret else some (cInt (size + ret))

/-! The size function against the encoder. Each slot that is present without a tree is counted a byte short. -/

theorem length_encItems {left : Nat} {items : List McSlot} {bytes : List UInt8}
    (sized : ∀ item ∈ items.take left, item.Sized) (written : encItems left items = some bytes) :
    ∃ size, sizeItems left items = some size ∧ bytes.length = size + (items.take left).countP Flagged.bare := by
  induction left generalizing items bytes with
  | zero =>
    cases written
    exact ⟨0,rfl,rfl⟩
  | succ left ih =>
    cases items with
    | nil => cases written
    | cons item items =>
      rw [List.take_succ_cons] at sized ⊢
      obtain ⟨first,head,written⟩ := Option.bind_eq_some_iff.mp written
      obtain ⟨rest,tail,written⟩ := Option.bind_eq_some_iff.mp written
      cases written
      have one := length_encSlot (sized item List.mem_cons_self) head
      obtain ⟨size,sum,more⟩ := ih (fun item member => sized item (List.mem_cons_of_mem _ member)) tail
      refine ⟨sizeSlot item + size,by simp [sizeItems,sum],?_⟩
      rw [List.length_append,one,more,List.countP_cons]
      cases item.bare <;> simp <;> omega

theorem length_encIngredient {ingredient : McIngredient} {bytes : List UInt8}
    (counted : sizeVarint ingredient.count.toUInt32 = (encVarint ingredient.count.toUInt32).length)
    (sized : ∀ item ∈ ingredient.items.take ingredient.count.toInt.toNat, item.Sized)
    (written : encIngredient ingredient = some bytes) :
    ∃ size, sizeIngredient ingredient = some size ∧
      bytes.length = size + (ingredient.items.take ingredient.count.toInt.toNat).countP Flagged.bare := by
  obtain ⟨body,looped,rfl⟩ := Option.map_eq_some_iff.mp written
  obtain ⟨size,sum,length⟩ := length_encItems sized looped
  refine ⟨_,by rw [sizeIngredient,sum,Option.map_some],?_⟩
  rw [List.length_append,length,counted]
  omega

/-- A slot is sized right unless it is present without a tree, and an ingredient is counted short if it has such a slot. -/
theorem slot_sizes_iff {slot : McSlot} {bytes : List UInt8} (sized : slot.Sized) (written : encSlot slot = some bytes)
    {ingredient : McIngredient} {run : List UInt8}
    (counted : sizeVarint ingredient.count.toUInt32 = (encVarint ingredient.count.toUInt32).length)
    (each : ∀ item ∈ ingredient.items.take ingredient.count.toInt.toNat, item.Sized)
    (listed : encIngredient ingredient = some run) :
    (sizeSlot slot = bytes.length ↔ slot.bare = false) ∧
    ∃ size, sizeIngredient ingredient = some size ∧
      (run.length ≤ size ↔ ∀ item ∈ ingredient.items.take ingredient.count.toInt.toNat, item.bare = false) := by
  constructor
  · rw [length_encSlot sized written]
    cases slot.bare <;> simp
  · obtain ⟨size,sum,length⟩ := length_encIngredient counted each listed
    refine ⟨size,sum,?_⟩
    have dressed := @List.countP_eq_zero _ (ingredient.items.take ingredient.count.toInt.toNat) Flagged.bare
    simp only [Bool.not_eq_true] at dressed
    rw [← dressed,length]
    omega

theorem stoneSlot_sized : stoneSlot.Sized := by
  refine ⟨?_,fun tree bytes written => by cases written⟩
  rw [encVarint_one]
  rfl

def stoneIngredient : McIngredient := ⟨1,[stoneSlot]⟩

theorem encIngredient_stone : encIngredient stoneIngredient = some [1,1,1,1,0] := by
  have loop : encItems 1 [stoneSlot] = some [1,1,1,0] := by simp [encItems,encSlot_stone]
  simp [encIngredient,stoneIngredient,loop,encVarint_one]

theorem slot_sizes_iff_stone : (sizeSlot stoneSlot = 4 ↔ stoneSlot.bare = false) ∧
    ∃ size, sizeIngredient stoneIngredient = some size ∧
      (5 ≤ size ↔ ∀ item ∈ [stoneSlot], item.bare = false) :=
  slot_sizes_iff stoneSlot_sized encSlot_stone (by rw [stoneIngredient,encVarint_one]; rfl)
    (fun item member => by
      rw [show item = stoneSlot by simpa [stoneIngredient] using List.mem_of_mem_take member]
      exact stoneSlot_sized)
    encIngredient_stone

theorem slot_sizes_fails : ¬((∀ slot bytes, slot.Sized → encSlot slot = some bytes → sizeSlot slot = bytes.length) ∧
    ∀ (ingredient : McIngredient) bytes,
      sizeVarint ingredient.count.toUInt32 = (encVarint ingredient.count.toUInt32).length →
      (∀ item ∈ ingredient.items.take ingredient.count.toInt.toNat, item.Sized) → encIngredient ingredient = some bytes →
      ∃ size, sizeIngredient ingredient = some size ∧ bytes.length ≤ size) := by
  rintro ⟨sizes,_⟩
  have size := sizes stoneSlot [1,1,1,0] stoneSlot_sized encSlot_stone
  have three : sizeSlot stoneSlot = 3 := by decide
  rw [three] at size
  contradiction

/-! The walkers against the decoders. -/

theorem walkItems_accepts {source : List UInt8} {left maxLen : Nat} {size ret : Int} (low : 0 ≤ size)
    (small : size + maxLen < 2^31) (walked : walkItems source left maxLen size = some ret) (accepted : 0 ≤ ret) :
    ret = size + left ∧ left ≤ maxLen ∧ (left ≠ 0 → ∃ rest, source = 0::rest) := by
  induction left generalizing maxLen size with
  | zero =>
    cases walked
    simp
  | succ left ih =>
    obtain ⟨step,first,nonneg,walked⟩ := walk_handed accepted walked
    obtain ⟨rfl,room,absent⟩ := walkSlot_accepts first nonneg
    have one : sizeSub maxLen 1 = maxLen - 1 := sizeSub_natCast room (by omega)
    rw [one,cInt_of_small (by omega) (by omega)] at walked
    obtain ⟨total,room,_⟩ := ih (by omega) (by omega) walked
    exact ⟨by omega,by omega,fun _ => absent⟩

theorem walkItems_absent (rest : List UInt8) {left maxLen : Nat} (fits : left ≤ maxLen) {size : Int} (low : 0 ≤ size)
    (small : size + maxLen < 2^31) : walkItems (0::rest) left maxLen size = some (size + left) := by
  induction left generalizing maxLen size with
  | zero => simp [walkItems]
  | succ left ih =>
    have one : sizeSub maxLen 1 = maxLen - 1 := sizeSub_natCast (by omega : 1 ≤ maxLen) (by omega)
    simp only [walkItems,walkSlot_absent rest (show 1 ≤ maxLen by omega),Option.bind_eq_bind,Option.bind_some,one]
    rw [if_neg (by decide),cInt_of_small (by omega) (by omega),ih (by omega) (by omega) (by omega)]
    congr 1
    omega

/-- What `walk_ingredient` passes over: a count, and as many bytes, of which it has seen the first to be zero. -/
structure Listed (header slots : List UInt8) : Prop where
  number : Varint header
  count : slots.length = (varintValue header).toInt.toNat
  first : ∀ byte ∈ slots.head?, byte = 0

theorem walkIngredient_accepts {source : List UInt8} {maxLen : Nat} {ret : Int} (inside : maxLen ≤ source.length)
    (small : maxLen < 2^31) (walked : walkIngredient source maxLen = some ret) (accepted : 0 ≤ ret) :
    ∃ header slots rest, source = header ++ (slots ++ rest) ∧ Listed header slots ∧
      ret = header.length + slots.length ∧ header.length + slots.length ≤ maxLen := by
  obtain ⟨size,first,nonneg,walked⟩ := walk_handed accepted walked
  obtain ⟨header,behind,rfl,number,rfl,fits⟩ := walkVarint_accepts first nonneg
  simp only [decVarint_varint number behind,sizeSub_natCast fits (show maxLen < 2^64 by omega)] at walked
  obtain ⟨total,room,absent⟩ := walkItems_accepts (by omega) (by omega) walked accepted
  rw [List.length_append] at inside
  have count : (behind.take (varintValue header).toInt.toNat).length = (varintValue header).toInt.toNat := by
    rw [List.length_take]
    omega
  refine ⟨header,behind.take _,behind.drop _,by rw [List.take_append_drop],⟨number,count,?_⟩,by omega,by omega⟩
  intro byte head
  cases left : (varintValue header).toInt.toNat with
  | zero =>
    rw [left] at head
    cases head
  | succ left' =>
    obtain ⟨rest,rfl⟩ := absent (by omega)
    rw [left] at head
    simpa using head.symm

theorem Listed.walked {header slots : List UInt8} (listed : Listed header slots) (rest : List UInt8) {maxLen : Nat}
    (fits : header.length + slots.length ≤ maxLen) (small : maxLen < 2^31) :
    walkIngredient (header ++ (slots ++ rest)) maxLen = some ((header.length + slots.length : Nat) : Int) := by
  have inside : header.length ≤ maxLen := by omega
  simp only [walkIngredient,walkVarint_varint listed.number (slots ++ rest) maxLen inside,handed_natCast,
    decVarint_varint listed.number (slots ++ rest),sizeSub_natCast inside (show maxLen < 2^64 by omega),
    ← listed.count]
  cases slots with
  | nil => simp [walkItems]
  | cons byte slots =>
    obtain rfl := listed.first byte rfl
    rw [List.cons_append,walkItems_absent _ (by omega) (by omega) (by omega)]
    push_cast
    rfl

theorem decItems_cases {heap : Heap} {left : Nat} {source rest : List UInt8} {items : List McSlot}
    (ran : decItems heap left source = .ok items rest) :
    (∃ slots, source = slots ++ rest ∧ slots.length = left ∧ ∀ byte ∈ slots, byte = 0) ∨
      rest.length + left + 3 ≤ source.length := by
  induction left generalizing source items with
  | zero =>
    cases ran
    exact .inl ⟨[],rfl,rfl,by simp⟩
  | succ left ih =>
    obtain ⟨item,middle,head,ran⟩ := Decoded.checked_eq_ok ran
    obtain ⟨others,tail,_⟩ := Decoded.map_eq_ok ran
    rcases decSlot_shortens head with rfl | more
    · rcases ih tail with ⟨slots,rfl,length,absent⟩ | more
      · refine .inl ⟨0::slots,rfl,by rw [List.length_cons,length],fun byte member => ?_⟩
        rcases List.mem_cons.mp member with same | other
        · exact same
        · exact absent byte other
      · refine .inr ?_
        rw [List.length_cons]
        omega
    · refine .inr ?_
      rcases ih tail with ⟨slots,rfl,length,_⟩ | _
      · rw [List.length_append] at more
        omega
      · omega

theorem decItems_absent (heap : Heap) {slots : List UInt8} (absent : ∀ byte ∈ slots, byte = 0) :
    ∃ items, Reads (decItems heap slots.length) slots items := by
  induction slots with
  | nil => exact ⟨[],fun _ => rfl⟩
  | cons byte slots ih =>
    obtain rfl := absent byte List.mem_cons_self
    obtain ⟨items,reads⟩ := ih fun other member => absent other (List.mem_cons_of_mem _ member)
    exact ⟨_,(decSlot_absent heap).checked (reads.map _)⟩

/-- The walker is right where the bytes that it takes for absent slots are. -/
theorem walkIngredient_iff {heap : Heap} {source : List UInt8} {maxLen : Nat} (inside : maxLen ≤ source.length)
    (small : maxLen < 2^31) :
    (∀ ret, walkIngredient source maxLen = some ret → 0 ≤ ret → ret ≤ maxLen ∧
        ∃ ingredient, decIngredient heap source = .ok ingredient (source.drop ret.toNat)) ↔
      ∀ header slots rest, source = header ++ (slots ++ rest) → Listed header slots →
        header.length + slots.length ≤ maxLen → ∀ byte ∈ slots, byte = 0 := by
  constructor
  · rintro agrees header slots rest rfl listed fits
    obtain ⟨_,ingredient,read⟩ := agrees _ (listed.walked rest fits small) (by omega)
    rw [Int.toNat_natCast,List.drop_length_add_append,List.drop_left] at read
    simp only [decIngredient,decVarint_varint listed.number (slots ++ rest),Decoded.andThen_ok,← listed.count] at read
    obtain ⟨items,looped,_⟩ := Decoded.map_eq_ok read
    rcases decItems_cases looped with ⟨others,same,_,absent⟩ | more
    · rwa [List.append_cancel_right same]
    · rw [List.length_append] at more
      omega
  · intro absent ret walked accepted
    obtain ⟨header,slots,rest,rfl,listed,rfl,fits⟩ := walkIngredient_accepts inside small walked accepted
    obtain ⟨items,reads⟩ := decItems_absent heap (absent header slots rest rfl listed fits)
    refine ⟨by exact_mod_cast fits,⟨varintValue header,items⟩,?_⟩
    have behind : (header ++ (slots ++ rest)).drop ((header.length : Int) + slots.length).toNat = rest := by
      rw [← Nat.cast_add,Int.toNat_natCast,List.drop_length_add_append,List.drop_left]
    simp only [decIngredient,decVarint_varint listed.number (slots ++ rest),Decoded.andThen_ok,← listed.count,
      reads rest,Decoded.map_ok,behind]

theorem walkIngredient_iff_absent :
    (∀ ret, walkIngredient [2,0,0] 3 = some ret → 0 ≤ ret → ret ≤ (3 : Nat) ∧
        ∃ ingredient, decIngredient .plenty [2,0,0] = .ok ingredient (([2,0,0] : List UInt8).drop ret.toNat)) ↔
      ∀ header slots rest, ([2,0,0] : List UInt8) = header ++ (slots ++ rest) → Listed header slots →
        header.length + slots.length ≤ 3 → ∀ byte ∈ slots, byte = 0 :=
  walkIngredient_iff (by decide) (by decide)

/-- An absent slot, and a stone that the walker takes for a second one. -/
theorem walkIngredient_fails : ¬∀ (heap : Heap) (source : List UInt8) (maxLen : Nat), maxLen ≤ source.length →
    maxLen < 2^31 → ∀ ret, walkIngredient source maxLen = some ret → 0 ≤ ret → ret ≤ maxLen ∧
      ∃ ingredient, decIngredient heap source = .ok ingredient (source.drop ret.toNat) := by
  intro agrees
  have walked : walkIngredient [2,0,1,1,1,0] 6 = some 3 := by decide +kernel
  obtain ⟨_,ingredient,read⟩ := agrees .plenty [2,0,1,1,1,0] 6 (by decide) (by decide) 3 walked (by decide)
  have all : ∃ whole, decIngredient .plenty [2,0,1,1,1,0] = .ok whole [] := ⟨_,rfl⟩
  obtain ⟨whole,same⟩ := all
  have ends := (Decoded.ok.inj (same.symm.trans read)).2
  contradiction

/-- What `walk_smelting` passes over inside its bound, five fields in all. -/
inductive WalkedSmelting (maxLen : Nat) : List UInt8 → Prop where
  | mk {group body header slots experience time rest : List UInt8} (text : Prefixed body group)
      (listed : Listed header slots) (width : experience.length = 4) (number : Varint time)
      (fits : group.length + (header.length + slots.length) + 5 + time.length ≤ maxLen) :
      WalkedSmelting maxLen (group ++ (header ++ (slots ++ 0::(experience ++ (time ++ rest)))))

/-- The decoders of the five fields get through, one behind the other. -/
inductive NestedDecodes (heap : Heap) : List UInt8 → Prop where
  | mk {source ingredientSource slotSource floatSource timeSource rest : List UInt8} {group : Option (List UInt8)}
      {ingredient : McIngredient} {result : McSlot} {experience : UInt32} {time : Int32}
      (text : decString heap source = .ok group ingredientSource)
      (slots : decIngredient heap ingredientSource = .ok ingredient slotSource)
      (slot : decSlot heap slotSource = .ok result floatSource)
      (float : decBef32 floatSource = .ok experience timeSource) (number : decVarint timeSource = .ok time rest) :
      NestedDecodes heap source

theorem walkSmelting_accepts {source : List UInt8} {maxLen : Nat} {ret : Int} (inside : maxLen ≤ source.length)
    (small : maxLen < 2^31) (walked : walkSmelting source maxLen = some ret) (accepted : 0 ≤ ret) :
    ∃ (group : Nat) (header slots experience time rest : List UInt8), walkString source maxLen = some (group : Int) ∧
      source.drop group = header ++ (slots ++ 0::(experience ++ (time ++ rest))) ∧ Listed header slots ∧
      experience.length = 4 ∧ Varint time ∧
      group + (header.length + slots.length) + 5 + time.length ≤ maxLen ∧
      ret = (group + (header.length + slots.length) + 2 + time.length : Nat) := by
  obtain ⟨size,first,nonneg,walked⟩ := walk_handed accepted walked
  obtain ⟨group,rfl⟩ := Int.eq_ofNat_of_zero_le nonneg
  obtain ⟨_,_,_,_,_,bound,_⟩ := walkString_accepts first nonneg
  have bound : group ≤ maxLen := by omega
  have within : maxLen - group ≤ (source.drop group).length := by
    rw [List.length_drop]
    omega
  rw [Int.toNat_natCast,sizeSub_natCast bound (by omega)] at walked
  obtain ⟨size,second,nonneg,walked⟩ := walk_handed accepted walked
  obtain ⟨header,slots,behind,split,listed,rfl,fits⟩ := walkIngredient_accepts within (by omega) second nonneg
  have after : (source.drop group).drop ((header.length : Int) + slots.length).toNat = behind := by
    rw [split,← Nat.cast_add,Int.toNat_natCast,List.drop_length_add_append,List.drop_left]
  rw [← Nat.cast_add] at walked after
  rw [after,sizeSub_natCast fits (by omega),cInt_of_small (by omega) (by omega)] at walked
  obtain ⟨size,third,nonneg,walked⟩ := walk_handed accepted walked
  obtain ⟨rfl,room,tail,rfl⟩ := walkSlot_accepts third nonneg
  have one : sizeSub (maxLen - group - (header.length + slots.length)) 1 =
      maxLen - group - (header.length + slots.length) - 1 := sizeSub_natCast room (by omega)
  rw [one,cInt_of_small (by omega) (by omega)] at walked
  dsimp only at walked
  split at walked
  next => cases walked; contradiction
  next wide =>
    have four : sizeSub (maxLen - group - (header.length + slots.length) - 1) 4 =
        maxLen - group - (header.length + slots.length) - 1 - 4 := sizeSub_natCast (by omega : 4 ≤ _) (by omega)
    obtain ⟨size,fourth,nonneg,total⟩ := walk_handed accepted walked
    rw [four] at fourth
    obtain ⟨time,rest,last,number,rfl,narrow⟩ := walkVarint_accepts fourth nonneg
    have short := number.length_le
    rw [cInt_add,cInt_of_small (by omega) (by omega)] at total
    have length := congrArg List.length split
    simp only [List.length_append,List.length_cons,List.length_drop] at length
    have last : tail.drop 4 = time ++ rest := last
    refine ⟨group,header,slots,tail.take 4,time,rest,first,?_,listed,?_,number,by omega,?_⟩
    · rw [split,← last,List.take_append_drop]
    · rw [List.length_take]
      omega
    · rw [← Option.some.inj total]
      push_cast
      omega

section Smelting
variable {heap : Heap} {group body header slots experience time rest : List UInt8} {maxLen : Nat}

/-- The walker comes out three bytes in front of the end of the five fields. -/
theorem walkSmelting_walked (text : Prefixed body group) (listed : Listed header slots) (width : experience.length = 4)
    (number : Varint time) (fits : group.length + (header.length + slots.length) + 5 + time.length ≤ maxLen)
    (small : maxLen < 2^31) :
    walkSmelting (group ++ (header ++ (slots ++ 0::(experience ++ (time ++ rest))))) maxLen =
      some ((group.length + (header.length + slots.length) + 2 + time.length : Nat) : Int) := by
  have short := number.length_le
  have behind : (header ++ (slots ++ 0::(experience ++ (time ++ rest)))).drop (header.length + slots.length) =
      0::(experience ++ (time ++ rest)) := by rw [List.drop_length_add_append,List.drop_left]
  have last : (experience ++ (time ++ rest)).drop 4 = time ++ rest := by rw [← width,List.drop_left]
  have left : sizeSub (maxLen - group.length) ((header.length + slots.length : Nat) : Int) =
      maxLen - group.length - (header.length + slots.length) := sizeSub_natCast (by omega) (by omega)
  have one : sizeSub (maxLen - group.length - (header.length + slots.length)) ((1 : Nat) : Int) =
      maxLen - group.length - (header.length + slots.length) - 1 := sizeSub_natCast (by omega) (by omega)
  have four : sizeSub (maxLen - group.length - (header.length + slots.length) - 1) 4 =
      maxLen - group.length - (header.length + slots.length) - 1 - 4 := sizeSub_natCast (by omega : 4 ≤ _) (by omega)
  have absent : walkSlot (0::(experience ++ (time ++ rest))) (maxLen - group.length - (header.length + slots.length)) =
      some ((1 : Nat) : Int) := walkSlot_absent _ (by omega)
  simp only [walkSmelting,walkString_prefixed text _ maxLen (by omega) small,handed_natCast,Int.toNat_natCast,List.drop_left,
    sizeSub_natCast (show group.length ≤ maxLen by omega) (show maxLen < 2^64 by omega),
    listed.walked (0::(experience ++ (time ++ rest))) (show _ ≤ maxLen - group.length by omega) (by omega),
    behind,left,absent,one,List.drop_succ_cons,List.drop_zero,last,four]
  rw [if_neg (by omega),walkVarint_varint number rest _ (by omega),handed_natCast]
  simp only [cInt_add]
  rw [cInt_of_small (by omega) (by omega)]
  congr 1

theorem decSmelting_beyond (text : Prefixed body group) (listed : Listed header slots) (width : experience.length = 4)
    (number : Varint time) {recipe : McSmelting} {last : List UInt8}
    (ran : decSmelting heap (group ++ (header ++ (slots ++ 0::(experience ++ (time ++ rest))))) = .ok recipe last) :
    last.length < rest.length + 3 := by
  have short := number.length_le
  obtain @⟨prefixed,varint,size⟩ := text
  obtain ⟨_,_,named,ran⟩ := Decoded.andThen_eq_ok ran
  obtain ⟨len,behind,read,_,rfl⟩ := decString_eq_ok named
  rw [List.append_assoc,decVarint_varint varint] at read
  obtain ⟨rfl,rfl⟩ := Decoded.ok.inj read
  rw [size,Int.toNat_natCast,List.drop_left] at ran
  obtain ⟨_,_,slotted,ran⟩ := Decoded.andThen_eq_ok ran
  simp only [decIngredient,decVarint_varint listed.number (slots ++ 0::(experience ++ (time ++ rest))),
    Decoded.andThen_ok,← listed.count] at slotted
  obtain ⟨items,looped,_⟩ := Decoded.map_eq_ok slotted
  obtain ⟨_,_,result,ran⟩ := Decoded.andThen_eq_ok ran
  obtain ⟨_,_,float,ran⟩ := Decoded.andThen_eq_ok ran
  obtain ⟨_,timed,_⟩ := Decoded.map_eq_ok ran
  obtain ⟨bits,rfl,four,_⟩ := decBe32_eq_ok float
  rcases decItems_cases looped with ⟨others,same,length,_⟩ | more
  · obtain ⟨_,rfl⟩ := List.append_inj same length.symm
    rw [← List.singleton_append,decSlot_absent] at result
    have same := (Decoded.ok.inj result).2
    obtain ⟨_,rfl⟩ := List.append_inj same (by rw [width,four])
    rw [decVarint_varint number] at timed
    obtain ⟨_,rfl⟩ := Decoded.ok.inj timed
    omega
  · obtain ⟨bytes,rfl,nonempty,_⟩ := decVarint_eq_ok timed
    rcases decSlot_shortens result with rfl | shorter
    · simp only [List.length_append,List.length_cons] at more
      omega
    · simp only [List.length_append,List.length_cons] at more shorter
      omega

end Smelting

/-- The walker is right on the buffers that it refuses or that do not decode. -/
theorem walkSmelting_iff {heap : Heap} {source : List UInt8} {maxLen : Nat} (inside : maxLen ≤ source.length)
    (small : maxLen < 2^31) :
    (∀ ret, walkSmelting source maxLen = some ret → 0 ≤ ret → ret ≤ maxLen ∧
        (NestedDecodes heap source → ∃ recipe, decSmelting heap source = .ok recipe (source.drop ret.toNat))) ↔
      ¬(WalkedSmelting maxLen source ∧ NestedDecodes heap source) := by
  constructor
  · rintro agrees ⟨walked,decodes⟩
    obtain @⟨group,body,header,slots,experience,time,rest,text,listed,width,number,fits⟩ := walked
    obtain ⟨_,decoded⟩ := agrees _ (walkSmelting_walked text listed width number fits small) (by omega)
    obtain ⟨recipe,read⟩ := decoded decodes
    have short := decSmelting_beyond text listed width number read
    rw [Int.toNat_natCast] at short
    simp only [List.length_drop,List.length_append,List.length_cons] at short
    omega
  · intro apart ret walked accepted
    obtain ⟨group,header,slots,experience,time,rest,named,split,listed,width,number,fits,rfl⟩ :=
      walkSmelting_accepts inside small walked accepted
    refine ⟨by omega,fun decodes => absurd ⟨?_,decodes⟩ apart⟩
    obtain ⟨text,_,_,_,_⟩ := decodes
    obtain ⟨prefixed,behind,rfl,varint,total,_,_⟩ := walkString_accepts named (by omega)
    obtain ⟨len,_,read,natural,_⟩ := decString_eq_ok text
    rw [decVarint_varint varint] at read
    obtain ⟨rfl,rfl⟩ := Decoded.ok.inj read
    obtain ⟨length,size⟩ := Int.eq_ofNat_of_zero_le natural
    obtain rfl : group = prefixed.length + length := by omega
    rw [List.drop_length_add_append] at split
    have body : (behind.take length).length = length := by
      have whole := congrArg List.length split
      simp only [List.length_drop,List.length_append,List.length_cons] at whole
      rw [List.length_take]
      omega
    have text : Prefixed (behind.take length) (prefixed ++ behind.take length) := .mk varint (by rw [size,body])
    have recovered : WalkedSmelting maxLen ((prefixed ++ behind.take length) ++
        (header ++ (slots ++ 0::(experience ++ (time ++ rest))))) :=
      .mk text listed width number (by rw [List.length_append,body]; omega)
    rwa [List.append_assoc,← split,List.take_append_drop] at recovered

def blankSmelting : List UInt8 := [0,0,0,0,0,0,0,0]

theorem walkSmelting_iff_blank : walkSmelting blankSmelting 8 = some 5 ∧
    ((∀ ret, walkSmelting blankSmelting 8 = some ret → 0 ≤ ret → ret ≤ (8 : Nat) ∧
        (NestedDecodes .plenty blankSmelting →
          ∃ recipe, decSmelting .plenty blankSmelting = .ok recipe (blankSmelting.drop ret.toNat))) ↔
      ¬(WalkedSmelting 8 blankSmelting ∧ NestedDecodes .plenty blankSmelting)) :=
  ⟨by decide +kernel,walkSmelting_iff (by decide) (by decide)⟩

theorem walkSmelting_fails : ¬∀ (heap : Heap) (source : List UInt8) (maxLen : Nat), maxLen ≤ source.length →
    maxLen < 2^31 → ∀ ret, walkSmelting source maxLen = some ret → 0 ≤ ret → ret ≤ maxLen ∧
      (NestedDecodes heap source → ∃ recipe, decSmelting heap source = .ok recipe (source.drop ret.toNat)) := by
  intro agrees
  have walked : walkSmelting blankSmelting 8 = some 5 := by decide +kernel
  obtain ⟨_,decoded⟩ := agrees .plenty blankSmelting 8 (by decide) (by decide) 5 walked (by decide)
  have decodes : NestedDecodes .plenty blankSmelting := .mk rfl rfl rfl rfl rfl
  obtain ⟨recipe,read⟩ := decoded decodes
  have all : ∃ whole, decSmelting .plenty blankSmelting = .ok whole [] := ⟨_,rfl⟩
  obtain ⟨whole,same⟩ := all
  have ends := (Decoded.ok.inj (same.symm.trans read)).2
  contradiction

end CSpock.Recipe
