import CSpock.Metadata.RoundTrip

/-! The sizes of metadata and of particles against what is written, where the sizes of the parts are right. -/
namespace CSpock.Metadata
open CSpock.Library.Cursor CSpock.Numeric CSpock.Varnum CSpock.Strings CSpock.Nbt CSpock.Slot CSpock.Particle

def sizeFlagged {α : Type} (size : α → Option Nat) : Flagged α → Option Nat
  | .clear => some 1
  | .set _ _ value => (size value).map (1 + ·)

/-- The switch of `size_metadata`; `none` is a null string or tree that is followed. -/
def sizeValue {shape : MetaShape} : MetaValue shape → Option Nat
  | .b _ => some 1
  | .varint value => some (sizeVarint value.toUInt32)
  | .f _ => some 4
  | .string value => sizeString value
  | .optString value => sizeFlagged sizeString value
  | .slot value => some (sizeSlot value)
  | .rot .. => some (4 * 3)
  | .pos _ => some 8
  | .optPos value => sizeFlagged (fun _ => some 8) value
  | .optUuid value => sizeFlagged (fun _ => some (8 * 2)) value
  | .nbt tree => tree.map sizeNbt
  | .particle value => some (sizeParticle value)
  | .villagerdata first second third =>
    some (sizeVarint first.toUInt32 + sizeVarint second.toUInt32 + sizeVarint third.toUInt32)
  | .optVarint value => sizeFlagged (fun number => some (sizeVarint number.toUInt32)) value
  | .unknown => some 0

/-- The loop of `size_metadata`, which gives up at a type that it does not know. -/
def sizeMetatags : List McMetatag → Nat → Option Nat
  | [],size => some (size + 1)
  | tag::tags,size => do
    let size := size + 1 + sizeVarint tag.type.toUInt32
    if metaShape tag.type = .unknown then some 0 else do
      let value ← sizeValue tag.value
      sizeMetatags tags (size + value)

def sizeMetadata (metadata : List McMetatag) : Option Nat := sizeMetatags metadata 0

/-! What the size functions of the parts are taken to get right. -/

def SizedVarint (number : UInt32) : Prop := sizeVarint number = (encVarint number).length

def SizedString (string : Option (List UInt8)) : Prop :=
  ∀ text ∈ string, SizedVarint (UInt32.ofNat text.length)

def SizedSlot (slot : McSlot) : Prop := ∀ bytes, encSlot slot = some bytes → sizeSlot slot = bytes.length

def SizedParticledata {shape : ParticleShape} : ParticleData shape → Prop
  | .state blockState => SizedVarint blockState.toUInt32
  | .item slot => SizedSlot slot
  | _ => True

def SizedParticle (particle : McParticle) : Prop :=
  SizedVarint particle.type.toUInt32 ∧ SizedParticledata particle.data

def SizedNbt (tree : Option NbtNode) : Prop :=
  ∃ node, tree = some node ∧ ∀ bytes, encNbt tree = some bytes → sizeNbt node = bytes.length

def MetaValue.Sized {shape : MetaShape} : MetaValue shape → Prop
  | .varint value => SizedVarint value.toUInt32
  | .string value => SizedString value
  | .optString value => Flagged.Holds SizedString value
  | .slot value => SizedSlot value
  | .nbt tree => SizedNbt tree
  | .particle value => SizedParticle value
  | .villagerdata first second third =>
    SizedVarint first.toUInt32 ∧ SizedVarint second.toUInt32 ∧ SizedVarint third.toUInt32
  | .optVarint value => Flagged.Holds (fun number => SizedVarint number.toUInt32) value
  | _ => True

structure McMetatag.Sized (tag : McMetatag) : Prop where
  known : 0 ≤ tag.type.toInt ∧ tag.type.toInt ≤ 18
  type : SizedVarint tag.type.toUInt32
  value : tag.value.Sized

def ShortString (string : Option (List UInt8)) : Prop := ∀ text ∈ string, text.length < 2^32

def MetaValue.Short {shape : MetaShape} : MetaValue shape → Prop
  | .string value => ShortString value
  | .optString value => Flagged.Holds ShortString value
  | _ => True

/-- A size is large enough, and right on a condition. -/
def Bounds (size : Option Nat) (bytes : List UInt8) (right : Prop) : Prop :=
  ∃ n, size = some n ∧ bytes.length ≤ n ∧ (n = bytes.length ↔ right)

theorem bounds_exact {size : Nat} {bytes : List UInt8} (exact : size = bytes.length) : Bounds (some size) bytes True :=
  ⟨size,rfl,exact.ge,iff_true_intro exact⟩

theorem sizeString_bounds {string : Option (List UInt8)} {bytes : List UInt8} (sized : SizedString string)
    (written : encString string = some bytes) : Bounds (sizeString string) bytes (ShortString string) := by
  cases string with
  | none => cases written
  | some text =>
    have number := sized text rfl
    have length := length_encString written
    refine ⟨_,rfl,?_,?_⟩
    · rw [length,number]
      have := Nat.mod_le text.length (2^32)
      omega
    · rw [length,number]
      simp only [ShortString,Option.mem_def,Option.some.injEq,forall_eq']
      omega

section Flagged
variable {α : Type} {enc : α → Option (List UInt8)} {size : α → Option Nat} {sized right : α → Prop}

theorem sizeFlagged_bounds
    (each : ∀ value bytes, sized value → enc value = some bytes → Bounds (size value) bytes (right value))
    {flagged : Flagged α} {bytes : List UInt8} (holds : Flagged.Holds sized flagged) (written : encFlagged enc flagged = some bytes) :
    Bounds (sizeFlagged size flagged) bytes (Flagged.Holds right flagged) := by
  cases flagged with
  | clear =>
    cases written
    exact bounds_exact rfl
  | set flag live value =>
    obtain ⟨inner,behind,rfl⟩ := Option.map_eq_some_iff.mp written
    obtain ⟨n,same,enough,exact⟩ := each value inner holds behind
    refine ⟨1 + n,by rw [sizeFlagged,same,Option.map_some],?_,?_⟩
    · rw [encByte,List.singleton_append,List.length_cons]
      omega
    · rw [encByte,List.singleton_append,List.length_cons,Flagged.Holds,← exact]
      omega

theorem sizeFlagged_exact (each : ∀ value bytes, sized value → enc value = some bytes → size value = some bytes.length)
    {flagged : Flagged α} {bytes : List UInt8} (holds : Flagged.Holds sized flagged) (written : encFlagged enc flagged = some bytes) :
    Bounds (sizeFlagged size flagged) bytes True := by
  cases flagged with
  | clear =>
    cases written
    exact bounds_exact rfl
  | set flag live value =>
    obtain ⟨inner,behind,rfl⟩ := Option.map_eq_some_iff.mp written
    rw [sizeFlagged,each value inner holds behind,Option.map_some]
    refine bounds_exact ?_
    rw [encByte,List.singleton_append,List.length_cons,Nat.add_comm]

end Flagged

theorem length_encParticledata {shape : ParticleShape} {data : ParticleData shape} (sized : SizedParticledata data)
    {bytes : List UInt8} (written : encParticledata data = some bytes) : sizeParticledata data = bytes.length := by
  cases data with
  | state blockState =>
    cases written
    exact sized
  | color red green blue scale =>
    cases written
    simp [sizeParticledata,encBef32]
  | item slot => exact sized bytes written
  | plain =>
    cases written
    rfl

theorem length_encParticle {particle : McParticle} (sized : SizedParticle particle) {bytes : List UInt8}
    (written : encParticle particle = some bytes) : sizeParticle particle = bytes.length := by
  obtain ⟨inner,behind,rfl⟩ := Option.map_eq_some_iff.mp written
  rw [List.length_append,sizeParticle,sized.1,length_encParticledata sized.2 behind]

theorem sizeValue_bounds {shape : MetaShape} {value : MetaValue shape} (sized : value.Sized) {bytes : List UInt8}
    (written : encValue value = some bytes) : Bounds (sizeValue value) bytes value.Short := by
  cases value with
  | b value =>
    cases written
    exact bounds_exact rfl
  | varint value =>
    cases written
    exact bounds_exact sized
  | f pattern =>
    cases written
    exact bounds_exact (by simp [encBef32])
  | string value => exact sizeString_bounds sized written
  | optString value => exact sizeFlagged_bounds (fun value bytes => sizeString_bounds) sized written
  | slot value => exact bounds_exact (sized bytes written)
  | rot x y z =>
    cases written
    exact bounds_exact (by simp [encBef32])
  | pos value =>
    cases written
    exact bounds_exact (by simp [encPosition])
  | optPos value =>
    refine sizeFlagged_exact (fun pos bytes _ written => ?_) (Flagged.holds_any value) written
    cases written
    simp [encPosition]
  | optUuid value =>
    refine sizeFlagged_exact (fun uuid bytes _ written => ?_) (Flagged.holds_any value) written
    cases written
    simp [encUuid]
  | nbt tree =>
    obtain ⟨node,rfl,exact⟩ := sized
    exact bounds_exact (exact bytes written)
  | particle value => exact bounds_exact (length_encParticle sized written)
  | villagerdata first second third =>
    cases written
    obtain ⟨one,two,three⟩ := sized
    exact bounds_exact (by rw [one,two,three,List.length_append,List.length_append,Nat.add_assoc])
  | optVarint value =>
    refine sizeFlagged_exact (fun value bytes sized written => ?_) sized written
    cases written
    exact congrArg some sized
  | unknown =>
    cases written
    exact bounds_exact rfl

theorem metaShape_known {type : Int32} (known : 0 ≤ type.toInt ∧ type.toInt ≤ 18) : metaShape type ≠ .unknown := by
  unfold metaShape
  generalize type.toInt = number at known
  obtain ⟨low,high⟩ := known
  interval_cases number <;> simp

theorem sizeMetatags_bounds {tags : List McMetatag} (sized : ∀ tag ∈ tags, tag.Sized) {bytes : List UInt8}
    (written : encMetatags tags = some bytes) (size : Nat) : ∃ n, sizeMetatags tags size = some (size + n + 1) ∧
      bytes.length ≤ n ∧ (n = bytes.length ↔ ∀ tag ∈ tags, tag.value.Short) := by
  induction tags generalizing bytes size with
  | nil =>
    cases written
    exact ⟨0,rfl,le_rfl,by simp⟩
  | cons tag tags ih =>
    obtain ⟨first,head,written⟩ := Option.bind_eq_some_iff.mp written
    obtain ⟨rest,tail,same⟩ := Option.bind_eq_some_iff.mp written
    cases same
    obtain ⟨inner,behind,rfl⟩ := Option.map_eq_some_iff.mp head
    have one := sized tag List.mem_cons_self
    obtain ⟨value,valued,enough,exact⟩ := sizeValue_bounds one.value behind
    obtain ⟨n,summed,more,all⟩ := ih (fun other member => sized other (List.mem_cons_of_mem _ member)) tail
      (size + 1 + sizeVarint tag.type.toUInt32 + value)
    have type := one.type
    refine ⟨1 + sizeVarint tag.type.toUInt32 + value + n,?_,?_,?_⟩
    · simp only [sizeMetatags,if_neg (metaShape_known one.known),valued,Option.bind_eq_bind,Option.bind_some,summed]
      congr 1
      omega
    · simp only [List.length_append,encByte,List.length_singleton]
      rw [← type]
      omega
    · simp only [List.length_append,encByte,List.length_singleton,List.forall_mem_cons,← exact,← all]
      rw [← type]
      omega

theorem sizeMetadata_eq_iff {metadata : List McMetatag} (sized : ∀ tag ∈ metadata, tag.Sized) {bytes : List UInt8}
    (written : encMetadata metadata = some bytes) :
    sizeMetadata metadata = some bytes.length ↔ ∀ tag ∈ metadata, tag.value.Short := by
  obtain ⟨body,looped,rfl⟩ := Option.map_eq_some_iff.mp written
  obtain ⟨n,summed,_,exact⟩ := sizeMetatags_bounds sized looped 0
  rw [sizeMetadata,summed,← exact,Option.some.injEq]
  simp only [List.length_append,encByte,List.length_singleton]
  omega

/-- The sizes are right, but for strings of 2^32 bytes and more, which are not written whole. -/
theorem sizeMetadata_iff {metadata : List McMetatag} (sized : ∀ tag ∈ metadata, tag.Sized) {bytes : List UInt8}
    (written : encMetadata metadata = some bytes) {particle : McParticle} (part : SizedParticle particle)
    {run : List UInt8} (put : encParticle particle = some run) :
    (sizeMetadata metadata = some bytes.length ↔ ∀ tag ∈ metadata, tag.value.Short) ∧
      sizeParticle particle = run.length :=
  ⟨sizeMetadata_eq_iff sized written,length_encParticle part put⟩

theorem sizedVarint_small {number : UInt32} (small : number < 0x80) : SizedVarint number := by
  have below : number.toNat < 128 := small
  rw [SizedVarint,sizeVarint,if_pos (by omega),encVarint,if_neg (UInt32.not_le.mpr small),List.length_singleton]

def severalTags : List McMetatag := [nameTag,⟨3,6,.slot taggedSlot⟩,byteTag]

def severalBytes : List UInt8 := [2,5,1,1,97,3,6,1,1,1,10,0,0,0,0,0,7,0]

theorem severalTags_sized : ∀ tag ∈ severalTags, tag.Sized := by
  have slot : SizedSlot taggedSlot := by
    intro bytes written
    have seven : encSlot taggedSlot = some [1,1,1,10,0,0,0] := by decide +kernel
    rw [seven] at written
    cases written
    decide
  have name : SizedString (some [97]) := by
    rintro text same
    cases same
    exact sizedVarint_small (by decide)
  simp only [severalTags,List.forall_mem_cons]
  exact ⟨⟨by decide,sizedVarint_small (by decide),name⟩,⟨by decide,sizedVarint_small (by decide),slot⟩,
    ⟨by decide,sizedVarint_small (by decide),trivial⟩,List.forall_mem_nil _⟩

theorem sizeMetadata_iff_several : sizeMetadata severalTags = some severalBytes.length ∧
    sizeParticle bubble = ([4] : List UInt8).length := by
  have written : encMetadata severalTags = some severalBytes := by decide +kernel
  have part : SizedParticle bubble := ⟨sizedVarint_small (by decide),trivial⟩
  have right := sizeMetadata_iff severalTags_sized written part encParticle_bubble
  refine ⟨right.1.mpr ?_,right.2⟩
  simp only [severalTags,List.forall_mem_cons]
  refine ⟨?_,trivial,trivial,List.forall_mem_nil _⟩
  rintro text same
  cases same
  decide

/-- A string of 2^32 bytes is written as an empty one. -/
theorem sizeMetadata_fails : ¬((∀ (metadata : List McMetatag), (∀ tag ∈ metadata, tag.Sized) →
      ∀ bytes, encMetadata metadata = some bytes → sizeMetadata metadata = some bytes.length) ∧
    ∀ particle, SizedParticle particle → ∀ bytes, encParticle particle = some bytes →
      sizeParticle particle = bytes.length) := by
  rintro ⟨sizes,_⟩
  obtain ⟨text,length⟩ : ∃ text : List UInt8, text.length = 2^32 := ⟨List.replicate (2^32) 0,List.length_replicate⟩
  have empty : UInt32.ofNat text.length = 0 := by
    rw [length]
    decide
  have sized : ∀ tag ∈ [(⟨0,3,MetaValue.string (some text)⟩ : McMetatag)], tag.Sized := by
    intro tag member
    rw [List.mem_singleton.mp member]
    have type : SizedVarint (3 : Int32).toUInt32 := sizedVarint_small (by decide)
    refine ⟨(by decide : 0 ≤ (3 : Int32).toInt ∧ (3 : Int32).toInt ≤ 18),type,fun other same => ?_⟩
    cases same
    rw [empty]
    exact sizedVarint_small (by decide)
  have string : encString (some text) = some (encVarint 0) := by simp [encString,empty]
  have written : encMetadata [⟨0,3,MetaValue.string (some text)⟩] =
      some (encByte 0 ++ encVarint (3 : Int32).toUInt32 ++ encVarint 0 ++ encByte 0) := by
    simp [encMetadata,encMetatags,encMetatag,encValue,string]
  have short := (sizeMetadata_eq_iff sized written).mp (sizes _ sized _ written) _ List.mem_cons_self text rfl
  omega

end CSpock.Metadata
