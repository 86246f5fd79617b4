import CSpock.Itemtag
import CSpock.Library.Failures
import CSpock.Metadata.Codec
import CSpock.Recipe

/-! Where the decoders of arrays store their elements. Each has a copy that keeps a list of the elements
it stores, in the way that a traced decoder keeps its failures, and whose outcome is the decoder's own. -/
namespace CSpock.Storage
open CSpock.Library.Cursor CSpock.Library.Failures CSpock.Library.Failures.Traced
open CSpock.Numeric CSpock.Varnum CSpock.Strings CSpock.Slot CSpock.Metadata CSpock.Recipe CSpock.Itemtag

/-- Where an array lies: where the destination already pointed to, or in bytes that `malloc` granted. -/
inductive Pointer where
  | found (address : Nat)
  | obtained (site : Site) (cursor : List UInt8) (bytes : Nat)
  deriving Repr, DecidableEq

structure Store where
  array : Pointer
  index : Nat
  width : Nat
  deriving Repr, DecidableEq

def Store.Owned (store : Store) : Prop :=
  ∃ site cursor bytes, store.array = .obtained site cursor bytes ∧ (store.index+1) * store.width ≤ bytes

abbrev Storing (α : Type) := Traced Store α

def slotSize : Nat := 24

/-- `decItems`, from the slot with index `i` on. -/
def storeItems (heap : Heap) (items : Pointer) : Nat → Nat → List UInt8 → Storing (List McSlot)
  | 0,_,source => quiet (.ok [] source)
  | left+1,i,source => after ⟨items,i,slotSize⟩ <| (quiet (decSlot heap source)).checked fun item source =>
    (storeItems heap items left (i+1) source).map (item :: ·)

/-- `items` is what the destination holds when `dec_ingredient` is called. -/
def storeIngredient (heap : Heap) (items : Pointer) (source : List UInt8) : Storing McIngredient :=
  (quiet (decVarint source)).andThen fun count source =>
    (storeItems heap items count.toInt.toNat 0 source).map fun items => ⟨count,items⟩

def storeEntries (entries : Pointer) : Nat → Nat → List UInt8 → Storing (List Int32)
  | 0,_,source => quiet (.ok [] source)
  | left+1,i,source => after ⟨entries,i,entrySize⟩ <| (quiet (decVarint source)).andThen fun entry source =>
    (storeEntries entries left (i+1) source).map (entry :: ·)

def storeItemtags (heap : Heap) (tags : Pointer) : Nat → Nat → List UInt8 → Storing (List McItemtag)
  | 0,_,source => quiet (.ok [] source)
  | left+1,i,source => after ⟨tags,i,itemtagSize⟩ <| (quiet (decString heap source)).andThen fun name source =>
    (quiet (decVarint source)).andThen fun len source =>
      let size := sizeT (len.toInt * entrySize)
      if heap.malloc .itemtagEntries source size then
        (storeEntries (.obtained .itemtagEntries source size) len.toInt.toNat 0 source).andThen fun entries source =>
          (storeItemtags heap tags left (i+1) source).map (⟨name,len,entries⟩ :: ·)
      else quiet .null

def storeItemtagArray (heap : Heap) (source : List UInt8) : Storing McItemtagArray :=
  (quiet (decVarint source)).andThen fun len source =>
    let size := sizeT (len.toInt * itemtagSize)
    if heap.malloc .itemtags source size then
      (storeItemtags heap (.obtained .itemtags source size) len.toInt.toNat 0 source).map fun tags => ⟨len,tags⟩
    else quiet .null

def storeMetatags (heap : Heap) (tags : Pointer) : Nat → Nat → List UInt8 → Storing (List McMetatag)
  | 0,_,source => quiet (.ok [] source)
  | left+1,i,source => after ⟨tags,i,metatagSize⟩ <| (quiet (decMetatag heap source)).andThen fun tag source =>
    (storeMetatags heap tags left (i+1) source).map (tag :: ·)

def storeMetadata (heap : Heap) (source : List UInt8) : Storing (List McMetatag) :=
  match countMetatags source with
  | none => quiet .fault
  | some len =>
    if heap.malloc .metatags source (len * metatagSize) then
      (storeMetatags heap (.obtained .metatags source (len * metatagSize)) len 0 source).andThen fun tags source =>
        quiet (.ok tags (source.drop 1))
    else quiet .null

section Erasure
variable {heap : Heap} {array : Pointer}

@[simp] theorem decoded_storeItems (left i : Nat) (source : List UInt8) :
    (storeItems heap array left i source).decoded = decItems heap left source := by
  induction left generalizing i source with
  | zero => rfl
  | succ left ih => simp [storeItems,decItems,ih]

@[simp] theorem decoded_storeIngredient (source : List UInt8) :
    (storeIngredient heap array source).decoded = decIngredient heap source := by
  simp [storeIngredient,decIngredient]

@[simp] theorem decoded_storeEntries (left i : Nat) (source : List UInt8) :
    (storeEntries array left i source).decoded = decEntries left source := by
  induction left generalizing i source with
  | zero => rfl
  | succ left ih => simp [storeEntries,decEntries,ih]

@[simp] theorem decoded_storeItemtags (left i : Nat) (source : List UInt8) :
    (storeItemtags heap array left i source).decoded = decItemtags heap left source := by
  induction left generalizing i source with
  | zero => rfl
  | succ left ih =>
    simp only [storeItemtags,decItemtags,decoded_after,decoded_andThen,decoded_quiet]
    congr 1
    funext name source
    congr 1
    funext len source
    split <;> simp [ih]

@[simp] theorem decoded_storeItemtagArray (source : List UInt8) :
    (storeItemtagArray heap source).decoded = decItemtagArray heap source := by
  simp only [storeItemtagArray,decItemtagArray,decoded_andThen,decoded_quiet]
  congr 1
  funext len source
  split <;> simp

@[simp] theorem decoded_storeMetatags (left i : Nat) (source : List UInt8) :
    (storeMetatags heap array left i source).decoded = decMetatags heap left source := by
  induction left generalizing i source with
  | zero => rfl
  | succ left ih => simp [storeMetatags,decMetatags,ih]

@[simp] theorem decoded_storeMetadata (source : List UInt8) :
    (storeMetadata heap source).decoded = decMetadata heap source := by
  unfold storeMetadata decMetadata
  cases countMetatags source with
  | none => rfl
  | some len =>
    dsimp only
    split <;> simp

end Erasure

section Owned
variable {heap : Heap} {site : Site} {cursor : List UInt8} {bytes : Nat}

theorem owned_element {left i width : Nat} (fits : (i + (left+1)) * width ≤ bytes) :
    Store.Owned ⟨.obtained site cursor bytes,i,width⟩ :=
  ⟨site,cursor,bytes,rfl,(Nat.mul_le_mul_right width (show i + 1 ≤ i + (left+1) by omega)).trans fits⟩

theorem size_granted (len : Int32) {width : Nat} (narrow : width < 2^32) :
    (0 + len.toInt.toNat) * width ≤ sizeT (len.toInt * width) := by
  have range := toInt_lt len
  rcases Int.lt_or_le len.toInt 0 with negative | natural
  · rw [Int.toNat_of_nonpos (by omega),Nat.zero_add,Nat.zero_mul]
    exact Nat.zero_le _
  · obtain ⟨count,same⟩ := Int.eq_ofNat_of_zero_le natural
    rw [same,Int.toNat_natCast,Nat.zero_add,← Nat.cast_mul]
    have product : count * width ≤ 2^31 * 2^32 := Nat.mul_le_mul (by omega) (by omega)
    rw [sizeT_natCast (by omega)]

theorem storeEntries_owned {left i : Nat} (fits : (i + left) * entrySize ≤ bytes) (source : List UInt8) :
    (storeEntries (.obtained site cursor bytes) left i source).Only Store.Owned := by
  induction left generalizing i source with
  | zero => exact quiet_only _
  | succ left ih =>
    refine Only.after ((quiet_only _).andThen fun entry source => (ih ?_ source).map _) (owned_element fits)
    rwa [Nat.add_right_comm,Nat.add_assoc]

theorem storeItemtags_owned {left i : Nat} (fits : (i + left) * itemtagSize ≤ bytes) (source : List UInt8) :
    (storeItemtags heap (.obtained site cursor bytes) left i source).Only Store.Owned := by
  induction left generalizing i source with
  | zero => exact quiet_only _
  | succ left ih =>
    refine Only.after ((quiet_only _).andThen fun name source => (quiet_only _).andThen fun len source => ?_)
      (owned_element fits)
    dsimp only
    split
    next =>
      refine (storeEntries_owned (size_granted len (by decide)) source).andThen fun entries source =>
        (ih ?_ source).map _
      rwa [Nat.add_right_comm,Nat.add_assoc]
    next => exact quiet_only _

theorem storeMetatags_owned {left i : Nat} (fits : (i + left) * metatagSize ≤ bytes) (source : List UInt8) :
    (storeMetatags heap (.obtained site cursor bytes) left i source).Only Store.Owned := by
  induction left generalizing i source with
  | zero => exact quiet_only _
  | succ left ih =>
    refine Only.after ((quiet_only _).andThen fun tag source => (ih ?_ source).map _) (owned_element fits)
    rwa [Nat.add_right_comm,Nat.add_assoc]

/-- The other decoders of arrays store into what they obtain, whatever they read. -/
theorem siblings_owned (source : List UInt8) :
    (storeItemtagArray heap source).Only Store.Owned ∧ (storeMetadata heap source).Only Store.Owned := by
  constructor
  · refine (quiet_only _).andThen fun len source => ?_
    dsimp only
    split
    next => exact (storeItemtags_owned (size_granted len (by decide)) source).map _
    next => exact quiet_only _
  · unfold storeMetadata
    split
    next => exact quiet_only _
    next len _ =>
      split
      next => exact (storeMetatags_owned (by rw [Nat.zero_add]) source).andThen fun _ _ => quiet_only _
      next => exact quiet_only _

end Owned

/-! The round trip of an ingredient, and where its slots end up. -/

theorem decItems_encItems {heap : Heap} {items : List McSlot} (survive : ∀ item ∈ items, item.Survives heap) :
    ∃ bytes, encItems items.length items = some bytes ∧ Reads (decItems heap items.length) bytes items := by
  induction items with
  | nil => exact ⟨[],rfl,fun _ => rfl⟩
  | cons item items ih =>
    obtain ⟨first,head,one⟩ := decSlot_encSlot (survive item List.mem_cons_self)
    obtain ⟨rest,tail,others⟩ := ih fun other member => survive other (List.mem_cons_of_mem _ member)
    exact ⟨first ++ rest,by simp [encItems,head,tail],one.checked (others.map _)⟩

theorem decIngredient_encIngredient {heap : Heap} {ingredient : McIngredient}
    (len : ingredient.count.toInt = ingredient.items.length) (survive : ∀ item ∈ ingredient.items, item.Survives heap) :
    ∃ bytes, encIngredient ingredient = some bytes ∧ Reads (decIngredient heap) bytes ingredient := by
  obtain ⟨items,written,reads⟩ := decItems_encItems survive
  have count : ingredient.count.toInt.toNat = ingredient.items.length := by omega
  refine ⟨encVarint ingredient.count.toUInt32 ++ items,by rw [encIngredient,count,written,Option.map_some],?_⟩
  refine (int32_encVarint ingredient.count).andThen fun rest => ?_
  rw [count]
  exact reads.map _ rest

theorem storeItems_found (heap : Heap) (address left i : Nat) (source : List UInt8) :
    (storeItems heap (.found address) left i source).Only Store.Owned ↔ left = 0 := by
  cases left with
  | zero => exact ⟨fun _ => rfl,fun _ => quiet_only _⟩
  | succ left =>
    refine ⟨fun owned => ?_,fun nothing => by omega⟩
    obtain ⟨_,_,_,obtained,_⟩ := owned ⟨.found address,i,slotSize⟩ List.mem_cons_self
    cases obtained

/-- An ingredient comes back whole, and in storage of its own if it has no slots. -/
theorem decIngredient_owned_iff {heap : Heap} {ingredient : McIngredient}
    (len : ingredient.count.toInt = ingredient.items.length) (survive : ∀ item ∈ ingredient.items, item.Survives heap)
    (address : Nat) : ∃ bytes, encIngredient ingredient = some bytes ∧ ∀ rest,
      ((storeIngredient heap (.found address) (bytes ++ rest)).decoded = .ok ingredient rest ∧
        (storeIngredient heap (.found address) (bytes ++ rest)).Only Store.Owned) ↔ ingredient.count = 0 := by
  obtain ⟨bytes,written,reads⟩ := decIngredient_encIngredient len survive
  refine ⟨bytes,written,fun rest => ?_⟩
  rw [decoded_storeIngredient,reads rest,eq_self,true_and]
  obtain ⟨count,behind,number,ran⟩ := Decoded.andThen_eq_ok (reads rest)
  obtain ⟨items,_,rfl⟩ := Decoded.map_eq_ok ran
  have stores : (storeIngredient heap (.found address) (bytes ++ rest)).failures =
      (storeItems heap (.found address) count.toInt.toNat 0 behind).failures := by
    simp [storeIngredient,Traced.andThen,number]
  have natural : count.toInt = items.length := len
  have zero : count.toInt.toNat = 0 ↔ count = 0 := by
    rw [← Int32.toInt_inj]
    simp only [Int32.toInt_zero]
    omega
  rw [Only,stores,← Only,storeItems_found,zero]

theorem stoneSlot_survives (heap : Heap) : stoneSlot.Survives heap := by
  intro flag live item tree present held
  cases present
  cases held

theorem decIngredient_owned_iff_stone : ∃ bytes, encIngredient stoneIngredient = some bytes ∧ ∀ rest,
    ((storeIngredient .plenty (.found 0) (bytes ++ rest)).decoded = .ok stoneIngredient rest ∧
      (storeIngredient .plenty (.found 0) (bytes ++ rest)).Only Store.Owned) ↔ stoneIngredient.count = 0 :=
  decIngredient_owned_iff (by decide)
    (fun item member => List.mem_singleton.mp member ▸ stoneSlot_survives _) 0

/-- One stone, stored through a pointer that nobody has set. -/
theorem decIngredient_owned_fails : ¬∀ (heap : Heap) (ingredient : McIngredient), heap.Succeeds →
    ingredient.count.toInt = ingredient.items.length → (∀ item ∈ ingredient.items, item.Survives heap) →
    ∀ address, ∃ bytes, encIngredient ingredient = some bytes ∧ ∀ rest,
      (storeIngredient heap (.found address) (bytes ++ rest)).decoded = .ok ingredient rest ∧
        (storeIngredient heap (.found address) (bytes ++ rest)).Only Store.Owned := by
  intro owned
  obtain ⟨bytes,written,each⟩ := owned .plenty stoneIngredient Heap.plenty_succeeds (by decide)
    (fun item member => List.mem_singleton.mp member ▸ stoneSlot_survives _) 0
  cases encIngredient_stone.symm.trans written
  have first : ⟨.found 0,0,slotSize⟩ ∈ (storeIngredient .plenty (.found 0) ([1,1,1,1,0] ++ [])).failures := by
    decide +kernel
  obtain ⟨_,_,_,obtained,_⟩ := (each []).2 _ first
  cases obtained

end CSpock.Storage
