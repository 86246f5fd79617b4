import CSpock.Nbt.Contract
import CSpock.Nbt.Size
import CSpock.Strings

/-! Optional values behind a flag byte, and the inventory slots built from them. -/
namespace CSpock.Slot
open CSpock.Library.Cursor CSpock.Library.Refusal CSpock.Numeric CSpock.Varnum CSpock.Nbt

/-- A flag byte and, when it is not zero, the value that it announces. The fields
behind a zero flag are neither read nor written. -/
inductive Flagged (α : Type) where
  | clear
  | set (flag : UInt8) (live : flag ≠ 0) (value : α)

def encFlagged {α : Type} (enc : α → Option (List UInt8)) : Flagged α → Option (List UInt8)
  | .clear => some (encByte 0)
  | .set flag _ value => (enc value).map (encByte flag ++ ·)

def decFlagged {α : Type} (dec : List UInt8 → Decoded α) (source : List UInt8) : Decoded (Flagged α) :=
  (decByte source).andThen fun flag source =>
    if live : flag ≠ 0 then (dec source).map (.set flag live) else .ok .clear source

/-- What stands in the buffer: a zero, or a flag and the bytes behind it. -/
inductive FlaggedBytes (inner : List UInt8 → Prop) : List UInt8 → Prop where
  | clear : FlaggedBytes inner [0]
  | set {flag : UInt8} {bytes : List UInt8} (live : flag ≠ 0) (content : inner bytes) :
      FlaggedBytes inner (flag::bytes)

theorem decFlagged_clear {α : Type} (dec : List UInt8 → Decoded α) : Reads (decFlagged dec) [0] .clear :=
  fun _ => rfl

theorem decFlagged_set {α : Type} {dec : List UInt8 → Decoded α} {flag : UInt8} (live : flag ≠ 0)
    {bytes : List UInt8} {value : α} (reads : Reads dec bytes value) :
    Reads (decFlagged dec) (flag::bytes) (.set flag live value) := by
  intro rest
  simp only [decFlagged,List.cons_append,decByte_cons,Decoded.andThen_ok,dif_pos live,reads rest,
    Decoded.map_ok]

theorem decFlagged_bytes {α : Type} {dec : List UInt8 → Decoded α} {inner : List UInt8 → Prop}
    (reads : ∀ bytes, inner bytes → ∃ value, Reads dec bytes value) {bytes : List UInt8}
    (flagged : FlaggedBytes inner bytes) : ∃ value, Reads (decFlagged dec) bytes value := by
  cases flagged with
  | clear => exact ⟨_,decFlagged_clear dec⟩
  | set live content =>
    obtain ⟨value,read⟩ := reads _ content
    exact ⟨_,decFlagged_set live read⟩

def encOptnbt : Option NbtNode → Option (List UInt8)
  | none => some (encByte 0)
  | some source => encNbt (some source)

def decOptnbt (heap : Heap) (source : List UInt8) : Decoded (Option NbtNode) :=
  match decByte source with
  | .ok type rest => if type ≠ tagCompound then .ok none rest else (decNbt heap source).map some
  | _ => .fault

structure SlotItem where
  id : Int32
  count : UInt8
  nbt : Option NbtNode

abbrev McSlot := Flagged SlotItem

/-- The condition of the second check parses as `max_len -= (ret < sizeof(slot.count))`. -/
def walkSlot (source : List UInt8) (maxLen : Nat) : Option Int :=
  if maxLen < 1 then some (-1) else
    match decByte source with
    | .ok present source =>
      if present = 0 then some 1 else do
        let maxLen := sizeSub maxLen 1
        let ret ← walkVarint source maxLen
        if ret < 0 then some (-1) else
          let maxLen := sizeSub maxLen (if sizeT ret < 1 then 1 else 0)
          if maxLen ≠ 0 then some (-1) else
            let maxLen := sizeSub maxLen 1
            let size := 1 + ret + 1
            match decByte (source.drop (ret.toNat+1)) with
            | .ok type _ =>
              if type ≠ tagCompound then some (cInt (size + 1)) else do
                let ret ← walkNbt (source.drop (ret.toNat+1)) maxLen
                if ret < 0 then some (-1) else some (cInt (size + ret))
            | _ => none
    | _ => none

def sizeSlot : McSlot → Nat
  | .clear => 1
  | .set _ _ item =>
    let size := 1 + 1 + sizeVarint item.id.toUInt32
    match item.nbt with
    | some nbt => size + sizeNbt nbt
    | none => size

def encSlot : McSlot → Option (List UInt8) :=
  encFlagged fun item => (encOptnbt item.nbt).map (encVarint item.id.toUInt32 ++ encByte item.count ++ ·)

/-- The end of `dec_slot` is `dec_optnbt` written out. -/
def decSlot (heap : Heap) : List UInt8 → Decoded McSlot :=
  decFlagged fun source => (decVarint source).andThen fun id source =>
    (decByte source).andThen fun count source =>
      (decOptnbt heap source).map fun nbt => ⟨id,count,nbt⟩

theorem walkSlot_live {flag : UInt8} (live : flag ≠ 0) (rest : List UInt8) (maxLen : Nat) :
    walkSlot (flag::rest) maxLen =
      if maxLen < 1 then some (-1) else (walkVarint rest (sizeSub maxLen 1)).map fun _ => -1 := by
  unfold walkSlot
  split
  next => rfl
  next =>
    have stored : sizeSub maxLen 1 < 2^64 := by
      unfold sizeSub sizeT
      omega
    simp only [decByte_cons,if_neg live]
    generalize sizeSub maxLen 1 = left at stored ⊢
    cases walked : walkVarint rest left with
    | none => rfl
    | some ret =>
      simp only [Option.bind_eq_bind,Option.bind_some,Option.map_some]
      rcases Int.lt_or_le ret 0 with negative | accepted
      · rw [if_pos negative]
      · -- the number took at least a byte, so the check does not find the length used up
        obtain ⟨header,_,_,number,rfl,inside⟩ := walkVarint_accepts walked accepted
        have nonempty := number.length_pos
        have short := number.length_le
        rw [if_neg (by omega),sizeT_natCast (by omega),if_neg (by omega : ¬header.length < 1),
          sizeSub_zero stored,if_pos (by omega)]

/-- The walker passes over absent slots only. -/
theorem walkSlot_accepts {source : List UInt8} {maxLen : Nat} {ret : Int}
    (walked : walkSlot source maxLen = some ret) (accepted : 0 ≤ ret) :
    ret = 1 ∧ 1 ≤ maxLen ∧ ∃ rest, source = 0::rest := by
  cases source with
  | nil =>
    unfold walkSlot at walked
    split at walked
    next => cases walked; contradiction
    next => cases walked
  | cons flag rest =>
    by_cases live : flag = 0
    · subst live
      unfold walkSlot at walked
      split at walked
      next => cases walked; contradiction
      next room => cases walked; exact ⟨rfl,by omega,rest,rfl⟩
    · rw [walkSlot_live live] at walked
      split at walked
      next => cases walked; contradiction
      next =>
        obtain ⟨_,_,rfl⟩ := Option.map_eq_some_iff.mp walked
        contradiction

theorem walkSlot_absent (rest : List UInt8) {maxLen : Nat} (room : 1 ≤ maxLen) :
    walkSlot (0::rest) maxLen = some 1 := by
  rw [walkSlot,if_neg (by omega)]
  rfl

theorem walkSlot_present {flag : UInt8} (live : flag ≠ 0) {header : List UInt8} (number : Varint header)
    (rest : List UInt8) (maxLen : Nat) : walkSlot (flag::(header ++ rest)) maxLen = some (-1) := by
  rw [walkSlot_live live]
  split
  next => rfl
  next =>
    rcases Nat.lt_or_ge (sizeSub maxLen 1) header.length with cut | fits
    · rw [walkVarint_eq,walkGroups_short number rest cut]
      rfl
    · rw [walkVarint_varint number rest _ fits]
      rfl

theorem walkSlot_int {source : List UInt8} {maxLen : Nat} {ret : Int} (walked : walkSlot source maxLen = some ret) :
    ret ≤ 1 := by
  rcases Int.lt_or_le ret 0 with negative | accepted
  · omega
  · exact (walkSlot_accepts walked accepted).1.le

theorem walkSlot_answers {source : List UInt8} {maxLen : Nat} {ret : Int} (walked : walkSlot source maxLen = some ret) :
    ret = -1 ∨ ret = 1 := by
  rcases Int.lt_or_le ret 0 with negative | accepted
  · cases source with
    | nil =>
      unfold walkSlot at walked
      split at walked
      next => exact .inl (Option.some.inj walked).symm
      next => cases walked
    | cons flag rest =>
      by_cases live : flag = 0
      · unfold walkSlot at walked
        split at walked
        next => exact .inl (Option.some.inj walked).symm
        next => simp [live] at walked; omega
      · rw [walkSlot_live live] at walked
        split at walked
        next => exact .inl (Option.some.inj walked).symm
        next =>
          obtain ⟨_,_,refused⟩ := Option.map_eq_some_iff.mp walked
          exact .inl refused.symm
  · exact .inr (walkSlot_accepts walked accepted).1

theorem walkSlot_bounded {source : List UInt8} {maxLen : Nat} (inside : maxLen ≤ source.length) :
    walkSlot source maxLen ≠ none := by
  rcases Nat.lt_or_ge maxLen 1 with empty | room
  · rw [walkSlot,if_pos empty]
    simp
  · cases source with
    | nil =>
      rw [List.length_nil] at inside
      omega
    | cons flag rest =>
      by_cases live : flag = 0
      · rw [live,walkSlot_absent rest room]
        simp
      · have left : sizeSub maxLen 1 ≤ rest.length := by
          rw [List.length_cons] at inside
          unfold sizeSub sizeT
          omega
        rw [walkSlot_live live,if_neg (by omega)]
        simpa using walkVarint_bounded left

theorem decSlot_absent (heap : Heap) : Reads (decSlot heap) [0] .clear := decFlagged_clear _

theorem decOptnbt_shortens {heap : Heap} {source rest : List UInt8} {nbt : Option NbtNode}
    (ran : decOptnbt heap source = .ok nbt rest) : rest.length < source.length := by
  unfold decOptnbt at ran
  cases source with
  | nil => cases ran
  | cons type tail =>
    rw [decByte_cons] at ran
    dsimp only at ran
    split at ran
    next =>
      cases ran
      simp
    next =>
      obtain ⟨tree,parsed,_⟩ := Decoded.map_eq_ok ran
      obtain ⟨bytes,split,document,_⟩ := decNbt_sound parsed
      obtain ⟨_,_⟩ := document
      rw [split]
      simp only [List.cons_append,List.length_cons,List.length_append]
      omega

theorem decSlot_live {heap : Heap} {flag : UInt8} (live : flag ≠ 0) {source rest : List UInt8} {slot : McSlot}
    (ran : decSlot heap (flag::source) = .ok slot rest) : ∃ id count tail nbt,
      decVarint source = .ok id (count::tail) ∧ decOptnbt heap tail = .ok nbt rest := by
  simp only [decSlot,decFlagged,decByte_cons,Decoded.andThen_ok,dif_pos live] at ran
  obtain ⟨item,ran,_⟩ := Decoded.map_eq_ok ran
  obtain ⟨id,middle,number,ran⟩ := Decoded.andThen_eq_ok ran
  obtain ⟨count,tail,byte,ran⟩ := Decoded.andThen_eq_ok ran
  obtain ⟨nbt,last,_⟩ := Decoded.map_eq_ok ran
  exact ⟨id,count,tail,nbt,by rw [number,decByte_eq_ok byte],last⟩

theorem decSlot_shortens {heap : Heap} {source rest : List UInt8} {slot : McSlot}
    (ran : decSlot heap source = .ok slot rest) :
    source = 0::rest ∨ rest.length + 4 ≤ source.length := by
  cases source with
  | nil => cases ran
  | cons flag source =>
    by_cases live : flag = 0
    · subst live
      rw [← List.singleton_append,decSlot_absent] at ran
      cases ran
      exact .inl rfl
    · obtain ⟨id,count,tail,nbt,number,last⟩ := decSlot_live live ran
      obtain ⟨bytes,rfl,nonempty,_⟩ := decVarint_eq_ok number
      have shorter := decOptnbt_shortens last
      simp only [List.length_cons,List.length_append]
      omega

/-- A number read as a slot takes the byte behind it as well, and more. -/
theorem decSlot_number {heap : Heap} {number : List UInt8} (varint : Varint number) {behind rest : List UInt8}
    {slot : McSlot} (ran : decSlot heap (number ++ 0::behind) = .ok slot rest) : rest ≠ behind := by
  rintro rfl
  obtain ⟨flag,more,rfl⟩ := List.exists_cons_of_length_pos varint.length_pos
  rw [List.cons_append] at ran
  by_cases live : flag = 0
  · subst live
    rw [← List.singleton_append,decSlot_absent] at ran
    have length := congrArg List.length (Decoded.ok.inj ran).2
    rw [List.length_append,List.length_cons] at length
    omega
  · obtain ⟨id,count,tail,nbt,read,last⟩ := decSlot_live live ran
    have shorter := decOptnbt_shortens last
    cases varint with
    | last clear =>
      have zero : Reads decVarint [0] (varintValue [0]) := decVarint_varint (.single (by decide))
      rw [List.nil_append,← List.singleton_append,zero] at read
      have length := congrArg List.length (Decoded.ok.inj read).2
      rw [List.length_cons] at length
      omega
    | more set inner =>
      rw [decVarint_groups inner (by decide)] at read
      have length := congrArg List.length (Decoded.ok.inj read).2
      rw [List.length_cons,List.length_cons] at length
      omega

/-- A tree that survives its dump, whatever follows it, and is told from an absent one. -/
structure SurvivesDump (heap : Heap) (tree : NbtNode) (bytes : List UInt8) : Prop where
  dumped : encNbt (some tree) = some bytes
  parsed : Reads (decNbt heap) bytes tree

/-- `SurvivesDump` for a tree whose root is a compound, as the optional trees have it. -/
structure CompoundSurvivesDump (heap : Heap) (tree : NbtNode) (bytes : List UInt8) : Prop
    extends SurvivesDump heap tree bytes where
  compound : tree.type = tagCompound

theorem dumpBinary_head (node : NbtNode) : ∃ tail, (dumpBinary true node).bytes = node.type :: tail := by
  obtain ⟨name,payload⟩ := node
  exact ⟨_,rfl⟩

theorem encNbt_head {tree : NbtNode} {bytes : List UInt8} (dumped : encNbt (some tree) = some bytes) :
    ∃ tail, bytes = tree.type :: tail := by
  simp only [encNbt] at dumped
  split at dumped
  next => cases dumped
  next =>
    cases dumped
    exact dumpBinary_head tree

theorem decOptnbt_encOptnbt {heap : Heap} {nbt : Option NbtNode}
    (survives : ∀ tree, nbt = some tree → ∃ bytes, CompoundSurvivesDump heap tree bytes) :
    ∃ bytes, encOptnbt nbt = some bytes ∧ Reads (decOptnbt heap) bytes nbt := by
  cases nbt with
  | none => exact ⟨_,rfl,fun _ => rfl⟩
  | some tree =>
    obtain ⟨bytes,dump⟩ := survives tree rfl
    refine ⟨bytes,dump.dumped,fun rest => ?_⟩
    obtain ⟨tail,rfl⟩ := encNbt_head dump.dumped
    have parsed := dump.parsed rest
    rw [dump.compound] at parsed ⊢
    simp only [decOptnbt,List.cons_append,decByte_cons] at parsed ⊢
    rw [if_neg (by simp),parsed]
    rfl

def Flagged.Survives (heap : Heap) (slot : McSlot) : Prop :=
  ∀ flag live item tree, slot = .set flag live item → item.nbt = some tree →
    ∃ bytes, CompoundSurvivesDump heap tree bytes

theorem decSlot_encSlot {heap : Heap} {slot : McSlot} (survives : slot.Survives heap) :
    ∃ bytes, encSlot slot = some bytes ∧ Reads (decSlot heap) bytes slot := by
  cases slot with
  | clear => exact ⟨_,rfl,decFlagged_clear _⟩
  | set flag live item =>
    obtain ⟨tail,written,reads⟩ := decOptnbt_encOptnbt fun tree => survives flag live item tree rfl
    refine ⟨encByte flag ++ (encVarint item.id.toUInt32 ++ (encByte item.count ++ tail)),
      by simp [encSlot,encFlagged,written],decFlagged_set live ?_⟩
    exact (int32_encVarint item.id).andThen ((decByte_encByte item.count).andThen (reads.map _))

theorem encSlot_live {flag : UInt8} {live : flag ≠ 0} {item : SlotItem} {bytes : List UInt8}
    (written : encSlot (.set flag live item) = some bytes) :
    ∃ tail, bytes = flag::(encVarint item.id.toUInt32 ++ tail) := by
  obtain ⟨_,inner,rfl⟩ := Option.map_eq_some_iff.mp written
  obtain ⟨tail,_,rfl⟩ := Option.map_eq_some_iff.mp inner
  exact ⟨encByte item.count ++ tail,by simp [encByte]⟩

/-- The walker passes over what the encoder writes for an absent slot, and over no other. -/
theorem walkSlot_iff {slot : McSlot} {bytes : List UInt8} (written : encSlot slot = some bytes) :
    (∀ rest maxLen, (bytes.length ≤ maxLen → maxLen < 2^31 →
        walkSlot (bytes ++ rest) maxLen = some (bytes.length : Int)) ∧
      (maxLen < bytes.length → ∃ ret < 0, walkSlot (bytes ++ rest) maxLen = some ret)) ↔
    slot = .clear ∨ 2^31 ≤ bytes.length := by
  cases slot with
  | clear =>
    cases written
    refine iff_of_true (fun rest maxLen => ⟨fun room _ => walkSlot_absent rest room,fun less => ⟨-1,by decide,?_⟩⟩) (.inl rfl)
    exact if_pos less
  | set flag live item =>
    obtain ⟨tail,rfl⟩ := encSlot_live written
    have refused (rest : List UInt8) (maxLen : Nat) :
        walkSlot (flag::(encVarint item.id.toUInt32 ++ tail) ++ rest) maxLen = some (-1) := by
      rw [List.cons_append,List.append_assoc]
      exact walkSlot_present live (encVarint_varint _) (tail ++ rest) maxLen
    constructor
    · intro accepts
      rcases Nat.lt_or_ge (flag::(encVarint item.id.toUInt32 ++ tail)).length (2^31) with short | long
      · have walked := (accepts [] _).1 (Nat.le_refl _) short
        rw [refused] at walked
        have := Option.some.inj walked
        omega
      · exact .inr long
    · rintro (absent | long)
      · cases absent
      · exact fun rest maxLen => ⟨fun fits small => by omega,fun _ => ⟨-1,by decide,refused rest maxLen⟩⟩

def stoneSlot : McSlot := .set 1 (by decide) ⟨1,1,none⟩

theorem encVarint_one : encVarint (1 : Int32).toUInt32 = [1] := by
  rw [encVarint_septets]
  exact Library.Septets.septets_small (by decide)

theorem encSlot_stone : encSlot stoneSlot = some [1,1,1,0] := by
  simp [encSlot,encFlagged,encOptnbt,encByte,stoneSlot,encVarint_one]

theorem walkSlot_iff_stone : (∀ rest maxLen, (([1,1,1,0] : List UInt8).length ≤ maxLen → maxLen < 2^31 →
        walkSlot ([1,1,1,0] ++ rest) maxLen = some ((([1,1,1,0] : List UInt8).length : Nat) : Int)) ∧
      (maxLen < ([1,1,1,0] : List UInt8).length → ∃ ret < 0, walkSlot ([1,1,1,0] ++ rest) maxLen = some ret)) ↔
    stoneSlot = .clear ∨ 2^31 ≤ ([1,1,1,0] : List UInt8).length :=
  walkSlot_iff encSlot_stone

theorem walkSlot_fails : ¬∀ (slot : McSlot) (bytes : List UInt8), encSlot slot = some bytes →
    ∀ rest maxLen, (bytes.length ≤ maxLen → maxLen < 2^31 →
        walkSlot (bytes ++ rest) maxLen = some (bytes.length : Int)) ∧
      (maxLen < bytes.length → ∃ ret < 0, walkSlot (bytes ++ rest) maxLen = some ret) := by
  intro accepts
  have walked := (accepts stoneSlot [1,1,1,0] encSlot_stone [] 4).1 (by decide) (by decide)
  have refused : walkSlot ([1,1,1,0] ++ []) 4 = some (-1) := by decide +kernel
  rw [refused] at walked
  contradiction

/-! The size function against the encoder. -/

/-- A present slot without a tree: its last byte is the zero that stands for one. -/
def Flagged.bare : McSlot → Bool
  | .clear => false
  | .set _ _ item => item.nbt.isNone

def Flagged.Sized : McSlot → Prop
  | .clear => True
  | .set _ _ item => sizeVarint item.id.toUInt32 = (encVarint item.id.toUInt32).length ∧
      ∀ tree bytes, item.nbt = some tree → encNbt (some tree) = some bytes → sizeNbt tree = bytes.length

theorem length_encSlot {slot : McSlot} {bytes : List UInt8} (sized : slot.Sized) (written : encSlot slot = some bytes) :
    bytes.length = sizeSlot slot + slot.bare.toNat := by
  cases slot with
  | clear =>
    cases written
    rfl
  | set flag live item =>
    obtain ⟨id,count,nbt⟩ := item
    obtain ⟨_,inner,rfl⟩ := Option.map_eq_some_iff.mp written
    obtain ⟨tail,last,rfl⟩ := Option.map_eq_some_iff.mp inner
    obtain ⟨number,tree⟩ := sized
    simp only [encByte,List.length_append,List.length_singleton,sizeSlot,Flagged.bare,number]
    cases nbt with
    | none =>
      cases last
      simp only [encByte,List.length_singleton,Option.isNone_none,Bool.toNat_true]
      omega
    | some nbt =>
      simp only [tree nbt tail rfl last,Option.isNone_some,Bool.toNat_false]
      omega

end CSpock.Slot
