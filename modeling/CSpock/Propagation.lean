import CSpock.Itemtag
import CSpock.Library.Failures
import CSpock.Metadata.Codec
import CSpock.Nbt.Sentinel
import CSpock.Recipe

/-! What the decoders make of a failure further down. Each has its traced copy, which
notes every allocation that is refused and every NBT tree that comes out null, and
whose outcome is the decoder's own. A null cursor that is stepped over, as `dec_metadata`
does with that of its last tag, counts as read through. -/
namespace CSpock.Propagation
open CSpock.Library.Cursor CSpock.Library.Failures CSpock.Library.Failures.Traced
open CSpock.Numeric CSpock.Varnum CSpock.Strings CSpock.Nbt CSpock.Slot CSpock.Particle CSpock.Metadata
open CSpock.Recipe CSpock.Itemtag

/-- What can fail: the bytes of a string, a parse of NBT, something in such a parse that crashes then, and the three
kinds of arrays. -/
inductive Failure where
  | string
  | nbt
  | crash
  | metatags
  | itemtags
  | entries
  deriving Repr, DecidableEq

abbrev Trace (α : Type) := Traced Failure α

def traceString (heap : Heap) (source : List UInt8) : Trace (Option (List UInt8)) :=
  (quiet (decVarint source)).andThen fun len source =>
    let moved (dest : Option (List UInt8)) : Trace (Option (List UInt8)) :=
      quiet (if len.toInt < 0 then .fault else .ok dest (source.drop len.toInt.toNat))
    match sdsnewlen heap source (sizeT len.toInt) with
    | none => quiet .fault
    | some none => after .string (moved none)
    | some (some text) => moved (some text)

def traceFlagged {α : Type} (trace : List UInt8 → Trace α) (source : List UInt8) : Trace (Flagged α) :=
  (quiet (decByte source)).andThen fun flag source =>
    if live : flag ≠ 0 then (trace source).map (.set flag live) else quiet (.ok .clear source)

def traceNbt (heap : Heap) (source : List UInt8) : Trace NbtNode :=
  if parseCrashes heap source noOverflow then after .crash (quiet .fault) else call .nbt (decNbt heap source)

def traceOptnbt (heap : Heap) (source : List UInt8) : Trace (Option NbtNode) :=
  match decByte source with
  | .ok type rest =>
    if type ≠ tagCompound then quiet (.ok none rest) else (traceNbt heap source).map some
  | _ => quiet .fault

def traceSlot (heap : Heap) : List UInt8 → Trace McSlot :=
  traceFlagged fun source => (quiet (decVarint source)).andThen fun id source =>
    (quiet (decByte source)).andThen fun count source =>
      (traceOptnbt heap source).map fun nbt => ⟨id,count,nbt⟩

def traceItems (heap : Heap) : Nat → List UInt8 → Trace (List McSlot)
  | 0,source => quiet (.ok [] source)
  | left+1,source =>
    (traceSlot heap source).checked fun item source => (traceItems heap left source).map (item :: ·)

def traceIngredient (heap : Heap) (source : List UInt8) : Trace McIngredient :=
  (quiet (decVarint source)).andThen fun count source =>
    (traceItems heap count.toInt.toNat source).map fun items => ⟨count,items⟩

def traceSmelting (heap : Heap) (source : List UInt8) : Trace McSmelting :=
  (traceString heap source).andThen fun group source => (traceIngredient heap source).andThen fun ingredient source =>
    (traceSlot heap source).andThen fun result source => quiet <|
      (decBef32 source).andThen fun experience source =>
        (decVarint source).map fun cookingTime => ⟨group,ingredient,result,experience,cookingTime⟩

def traceParticledata (heap : Heap) (shape : ParticleShape) (source : List UInt8) : Trace (ParticleData shape) :=
  match shape with
  | .item => (traceSlot heap source).map .item
  | shape => quiet (decParticledata heap shape source)

def traceParticle (heap : Heap) (source : List UInt8) : Trace McParticle :=
  (quiet (decVarint source)).andThen fun type source =>
    (traceParticledata heap (particleShape type) source).map fun data => ⟨type,data⟩

def traceValue (heap : Heap) (shape : MetaShape) (source : List UInt8) : Trace (MetaValue shape) :=
  match shape with
  | .string => (traceString heap source).map .string
  | .optString => (traceFlagged (traceString heap) source).map .optString
  | .slot => (traceSlot heap source).map .slot
  | .nbt => (traceNbt heap source).map fun tree => .nbt (some tree)
  | .particle => (traceParticle heap source).map .particle
  | shape => quiet (decValue heap shape source)

def traceMetatag (heap : Heap) (source : List UInt8) : Trace McMetatag :=
  (quiet (decByte source)).andThen fun index source => (quiet (decVarint source)).andThen fun type source =>
    (traceValue heap (metaShape type) source).map fun value => ⟨index,type,value⟩

def traceMetatags (heap : Heap) : Nat → List UInt8 → Trace (List McMetatag)
  | 0,source => quiet (.ok [] source)
  | left+1,source =>
    (traceMetatag heap source).andThen fun tag source => (traceMetatags heap left source).map (tag :: ·)

def traceMetadata (heap : Heap) (source : List UInt8) : Trace (List McMetatag) :=
  match countMetatags source with
  | none => quiet .fault
  | some len =>
    if heap.malloc .metatags source (len * metatagSize) then
      (traceMetatags heap len source).andThen fun tags source => quiet (.ok tags (source.drop 1))
    else after .metatags (quiet .null)

def traceItemtags (heap : Heap) : Nat → List UInt8 → Trace (List McItemtag)
  | 0,source => quiet (.ok [] source)
  | left+1,source => (traceString heap source).andThen fun name source =>
    (quiet (decVarint source)).andThen fun len source =>
      if heap.malloc .itemtagEntries source (sizeT (len.toInt * entrySize)) then
        (quiet (decEntries len.toInt.toNat source)).andThen fun entries source =>
          (traceItemtags heap left source).map (⟨name,len,entries⟩ :: ·)
      else after .entries (quiet .null)

def traceItemtagArray (heap : Heap) (source : List UInt8) : Trace McItemtagArray :=
  (quiet (decVarint source)).andThen fun len source =>
    if heap.malloc .itemtags source (sizeT (len.toInt * itemtagSize)) then
      (traceItemtags heap len.toInt.toNat source).map fun tags => ⟨len,tags⟩
    else after .itemtags (quiet .null)

section Erasure
variable {heap : Heap} {source : List UInt8}

@[simp] theorem decoded_traceString : (traceString heap source).decoded = decString heap source := by
  rw [traceString,decoded_andThen,decoded_quiet]
  unfold decString
  congr 1
  funext len source
  cases sdsnewlen heap source (sizeT len.toInt) with
  | none => rfl
  | some dest => cases dest <;> rfl

@[simp] theorem decoded_traceFlagged {α : Type} {trace : List UInt8 → Trace α} :
    (traceFlagged trace source).decoded = decFlagged (fun source => (trace source).decoded) source := by
  rw [traceFlagged,decoded_andThen,decoded_quiet]
  unfold decFlagged
  congr 1
  funext flag source
  split <;> rfl

@[simp] theorem decoded_traceNbt : (traceNbt heap source).decoded = decNbt heap source := by
  unfold traceNbt
  split
  next crashes => exact (parseCrashes_fault crashes).symm
  next => exact decoded_call _ _

@[simp] theorem decoded_traceOptnbt : (traceOptnbt heap source).decoded = decOptnbt heap source := by
  unfold traceOptnbt decOptnbt
  cases decByte source with
  | ok type rest =>
    dsimp only
    split <;> simp
  | null => rfl
  | fault => rfl

@[simp] theorem decoded_traceSlot : (traceSlot heap source).decoded = decSlot heap source := by
  simp [traceSlot,decSlot]

@[simp] theorem decoded_traceItems (left : Nat) :
    (traceItems heap left source).decoded = decItems heap left source := by
  induction left generalizing source with
  | zero => rfl
  | succ left ih => simp [traceItems,decItems,ih]

@[simp] theorem decoded_traceIngredient : (traceIngredient heap source).decoded = decIngredient heap source := by
  simp [traceIngredient,decIngredient]

@[simp] theorem decoded_traceSmelting : (traceSmelting heap source).decoded = decSmelting heap source := by
  simp [traceSmelting,decSmelting]

@[simp] theorem decoded_traceParticledata {shape : ParticleShape} :
    (traceParticledata heap shape source).decoded = decParticledata heap shape source := by
  cases shape <;> simp [traceParticledata,decParticledata]

@[simp] theorem decoded_traceParticle : (traceParticle heap source).decoded = decParticle heap source := by
  simp [traceParticle,decParticle]

@[simp] theorem decoded_traceValue {shape : MetaShape} :
    (traceValue heap shape source).decoded = decValue heap shape source := by
  cases shape <;> simp [traceValue,decValue]

@[simp] theorem decoded_traceMetatag : (traceMetatag heap source).decoded = decMetatag heap source := by
  simp [traceMetatag,decMetatag]

@[simp] theorem decoded_traceMetatags (left : Nat) :
    (traceMetatags heap left source).decoded = decMetatags heap left source := by
  induction left generalizing source with
  | zero => rfl
  | succ left ih => simp [traceMetatags,decMetatags,ih]

@[simp] theorem decoded_traceMetadata : (traceMetadata heap source).decoded = decMetadata heap source := by
  unfold traceMetadata decMetadata
  cases countMetatags source with
  | none => rfl
  | some len =>
    dsimp only
    split <;> simp

@[simp] theorem decoded_traceItemtags (left : Nat) :
    (traceItemtags heap left source).decoded = decItemtags heap left source := by
  induction left generalizing source with
  | zero => rfl
  | succ left ih =>
    simp only [traceItemtags,decItemtags,decoded_andThen,decoded_traceString,decoded_quiet]
    congr 1
    funext name source
    congr 1
    funext len source
    split <;> simp [ih]

@[simp] theorem decoded_traceItemtagArray :
    (traceItemtagArray heap source).decoded = decItemtagArray heap source := by
  simp only [traceItemtagArray,decItemtagArray,decoded_andThen,decoded_quiet]
  congr 1
  funext len source
  split <;> simp

end Erasure

/-- The decoders in which something can fail. -/
inductive Decoder where
  | slot
  | ingredient
  | smelting
  | particle
  | metadata
  | itemtagArray
  deriving Repr, DecidableEq

namespace Decoder

def Value : Decoder → Type
  | slot => McSlot
  | ingredient => McIngredient
  | smelting => McSmelting
  | particle => McParticle
  | metadata => List McMetatag
  | itemtagArray => McItemtagArray

def decode (heap : Heap) (source : List UInt8) : (decoder : Decoder) → Decoded decoder.Value
  | slot => decSlot heap source
  | ingredient => decIngredient heap source
  | smelting => decSmelting heap source
  | particle => decParticle heap source
  | metadata => decMetadata heap source
  | itemtagArray => decItemtagArray heap source

def trace (heap : Heap) (source : List UInt8) : (decoder : Decoder) → Trace decoder.Value
  | slot => traceSlot heap source
  | ingredient => traceIngredient heap source
  | smelting => traceSmelting heap source
  | particle => traceParticle heap source
  | metadata => traceMetadata heap source
  | itemtagArray => traceItemtagArray heap source

/-- The trace follows the decoder: forgetting the failures gives the decoder back. -/
theorem decoded_trace (heap : Heap) (source : List UInt8) (decoder : Decoder) :
    (decoder.trace heap source).decoded = decoder.decode heap source := by
  cases decoder with
  | slot => exact decoded_traceSlot
  | ingredient => exact decoded_traceIngredient
  | smelting => exact decoded_traceSmelting
  | particle => exact decoded_traceParticle
  | metadata => exact decoded_traceMetadata
  | itemtagArray => exact decoded_traceItemtagArray

/-- The patterns of failures of which the decoder tells its caller. -/
def Reports (failures : List Failure) : Decoder → Prop
  | slot => .crash ∉ failures
  | ingredient => .crash ∉ failures
  | particle => .crash ∉ failures
  | smelting => failures = []
  | metadata => .string ∉ failures ∧ .nbt ∉ failures ∧ .crash ∉ failures
  | itemtagArray => .string ∈ failures → .entries ∈ failures

end Decoder

section Propagation
variable (heap : Heap) (source : List UInt8)

theorem quiet_tells {α : Type} (decoded : Decoded α) : TellsBut Failure.crash (quiet decoded) :=
  (quiet_propagates _).tellsBut List.not_mem_nil

theorem traceNbt_tells : TellsBut .crash (traceNbt heap source) := by
  unfold traceNbt
  split
  · exact after_fault_tellsBut
  · refine (call_propagates _ _).tellsBut fun member => ?_
    have parsed : (call .nbt (decNbt heap source)).Only (· = Failure.nbt) := call_only (by rfl) _
    cases parsed _ member

theorem traceFlagged_tells {α : Type} {trace : List UInt8 → Trace α}
    (tells : ∀ source, TellsBut .crash (trace source)) : TellsBut .crash (traceFlagged trace source) := by
  refine quiet_andThen_tellsBut _ fun flag source => ?_
  split
  · exact (tells source).map _
  · exact quiet_tells _

theorem traceOptnbt_tells : TellsBut .crash (traceOptnbt heap source) := by
  unfold traceOptnbt
  split
  next =>
    split
    · exact quiet_tells _
    · exact (traceNbt_tells heap source).map _
  next => exact quiet_tells _

theorem traceSlot_tells : TellsBut .crash (traceSlot heap source) :=
  traceFlagged_tells source fun _ => quiet_andThen_tellsBut _ fun _ _ =>
    quiet_andThen_tellsBut _ fun _ source => (traceOptnbt_tells heap source).map _

theorem traceItems_tells (left : Nat) : TellsBut .crash (traceItems heap left source) := by
  induction left generalizing source with
  | zero => exact quiet_tells _
  | succ left ih => exact (traceSlot_tells heap source).checked fun _ source => (ih source).map _

theorem traceIngredient_tells : TellsBut .crash (traceIngredient heap source) :=
  quiet_andThen_tellsBut _ fun _ source => (traceItems_tells heap source _).map _

theorem traceParticledata_tells (shape : ParticleShape) : TellsBut .crash (traceParticledata heap shape source) := by
  cases shape with
  | item => exact (traceSlot_tells heap source).map _
  | state => exact quiet_tells _
  | color => exact quiet_tells _
  | plain => exact quiet_tells _

theorem traceParticle_tells : TellsBut .crash (traceParticle heap source) :=
  quiet_andThen_tellsBut _ fun _ source => (traceParticledata_tells heap source _).map _

theorem decVarint_ne_null : decVarint source ≠ .null := by
  unfold decVarint
  refine Decoded.map_ne_null ?_ _
  generalize (0 : UInt32) = dest
  generalize 0 = i
  induction source generalizing dest i with
  | nil => simp [decVarintLoop]
  | cons byte source ih =>
    unfold decVarintLoop
    dsimp only
    split
    · exact ih _ _
    · simp

/-- After the first string there is no way for `dec_smelting` to return null. -/
theorem decSmelting_ne_null : decSmelting heap source ≠ .null :=
  Decoded.andThen_ne_null _ fun _ _ => Decoded.andThen_ne_null _ fun _ _ => Decoded.andThen_ne_null _ fun _ _ =>
    Decoded.andThen_ne_null _ fun _ source => Decoded.map_ne_null (decVarint_ne_null source) _

end Propagation

def OfTag (failure : Failure) : Prop := failure = .string ∨ failure = .nbt ∨ failure = .crash

def OfTree (failure : Failure) : Prop := failure = .nbt ∨ failure = .crash

section Metadata
variable (heap : Heap) (source : List UInt8)

theorem traceString_only : (traceString heap source).Only (· = .string) := by
  refine (quiet_only _).andThen fun len source => ?_
  dsimp only
  split
  · exact quiet_only _
  · exact (quiet_only _).after rfl
  · exact quiet_only _

theorem traceFlagged_only {α : Type} {kinds : Failure → Prop} {trace : List UInt8 → Trace α}
    (only : ∀ source, (trace source).Only kinds) : (traceFlagged trace source).Only kinds := by
  refine (quiet_only _).andThen fun flag source => ?_
  split
  · exact (only source).map _
  · exact quiet_only _

theorem traceNbt_only : (traceNbt heap source).Only OfTree := by
  unfold traceNbt
  split
  · exact (quiet_only _).after (.inr rfl)
  · exact call_only (.inl rfl) _

theorem traceOptnbt_only : (traceOptnbt heap source).Only OfTree := by
  unfold traceOptnbt
  split
  next =>
    split
    · exact quiet_only _
    · exact (traceNbt_only heap source).map _
  next => exact quiet_only _

theorem traceSlot_only : (traceSlot heap source).Only OfTree :=
  traceFlagged_only source fun _ => (quiet_only _).andThen fun _ _ =>
    (quiet_only _).andThen fun _ source => (traceOptnbt_only heap source).map _

theorem traceParticle_only : (traceParticle heap source).Only OfTree := by
  refine (quiet_only _).andThen fun type source => Only.map ?_ _
  generalize particleShape type = shape
  cases shape with
  | item => exact (traceSlot_only heap source).map _
  | state => exact quiet_only _
  | color => exact quiet_only _
  | plain => exact quiet_only _

theorem traceValue_only (shape : MetaShape) : (traceValue heap shape source).Only OfTag := by
  have string (source : List UInt8) : (traceString heap source).Only OfTag :=
    (traceString_only heap source).mono fun _ => .inl
  have slot (source : List UInt8) : (traceSlot heap source).Only OfTag :=
    (traceSlot_only heap source).mono fun _ => .inr
  unfold traceValue
  split
  · exact (string source).map _
  · exact (traceFlagged_only source string).map _
  · exact (slot source).map _
  · exact ((traceNbt_only heap source).mono fun _ => .inr).map _
  · exact ((traceParticle_only heap source).mono fun _ => .inr).map _
  · exact quiet_only _

theorem traceMetatags_only (left : Nat) : (traceMetatags heap left source).Only OfTag := by
  induction left generalizing source with
  | zero => exact quiet_only _
  | succ left ih =>
    refine Only.andThen ?_ fun _ source => (ih source).map _
    exact (quiet_only _).andThen fun _ _ => (quiet_only _).andThen fun _ source =>
      (traceValue_only heap source _).map _

theorem only_ofTag_nil {α : Type} {ran : Trace α} (only : ran.Only OfTag) :
    ran.failures = [] ↔ .string ∉ ran.failures ∧ .nbt ∉ ran.failures ∧ .crash ∉ ran.failures := by
  constructor
  · intro clean
    simp [clean]
  · rintro ⟨string,nbt,crash⟩
    refine List.eq_nil_iff_forall_not_mem.mpr fun failure member => ?_
    rcases only failure member with rfl | rfl | rfl
    · exact string member
    · exact nbt member
    · exact crash member

theorem traceMetadata_propagates_iff : (traceMetadata heap source).Propagates ↔
    .string ∉ (traceMetadata heap source).failures ∧ .nbt ∉ (traceMetadata heap source).failures ∧
      .crash ∉ (traceMetadata heap source).failures := by
  unfold traceMetadata
  cases countMetatags source with
  | none => simp [quiet_propagates]
  | some len =>
    dsimp only
    split
    next =>
      have only := (traceMetatags_only heap source len).andThen
        (fun tags rest => (quiet_only (.ok tags (rest.drop 1)) : (quiet (.ok tags (rest.drop 1)) : Trace _).Only OfTag))
      rw [← only_ofTag_nil only]
      refine propagates_iff_of_ne_null ?_
      rw [decoded_andThen,decoded_traceMetatags]
      exact Decoded.andThen_ne_null _ fun _ _ => by simp
    next => simp [Propagates]

end Metadata

section Itemtag
variable (heap : Heap) (source : List UInt8)

theorem traceItemtags_signals (left : Nat) : (traceItemtags heap left source).Signals .entries := by
  induction left generalizing source with
  | zero => exact quiet_signals (by simp)
  | succ left ih =>
    have named : Failure.entries ∉ (traceString heap source).failures := by
      intro member
      cases traceString_only heap source _ member
    refine Signals.andThen named fun name source => Signals.andThen (by simp) fun len source => ?_
    split
    · exact Signals.andThen (by simp) fun _ source => (ih source).map _
    · exact after_signals

theorem traceItemtags_only (left : Nat) :
    (traceItemtags heap left source).Only fun failure => failure = .string ∨ failure = .entries := by
  induction left generalizing source with
  | zero => exact quiet_only _
  | succ left ih =>
    refine ((traceString_only heap source).mono fun _ => .inl).andThen fun name source =>
      (quiet_only _).andThen fun len source => ?_
    split
    · exact (quiet_only _).andThen fun _ source => (ih source).map _
    · exact (quiet_only _).after (.inr rfl)

theorem traceItemtagArray_propagates_iff : (traceItemtagArray heap source).Propagates ↔
    (.string ∈ (traceItemtagArray heap source).failures → .entries ∈ (traceItemtagArray heap source).failures) := by
  unfold traceItemtagArray
  cases read : decVarint source with
  | fault => simp [Traced.andThen,Propagates]
  | null => exact absurd read (decVarint_ne_null source)
  | ok len rest =>
    simp only [Traced.andThen,decoded_quiet,failures_quiet,List.nil_append]
    split
    next =>
      have signals := (traceItemtags_signals heap rest len.toInt.toNat).map fun tags => (⟨len,tags⟩ : McItemtagArray)
      have only := traceItemtags_only heap rest len.toInt.toNat
      constructor
      · exact fun propagates string => signals.mp (propagates (List.ne_nil_of_mem string))
      · intro entries failed
        obtain ⟨failure,member⟩ := List.exists_mem_of_ne_nil _ failed
        rcases only failure member with rfl | rfl
        · exact signals.mpr (entries member)
        · exact signals.mpr member
    next => simp [Propagates]

end Itemtag

section Accounts
variable (heap : Heap) (source : List UInt8)

theorem traceNbt_accounts : (traceNbt heap source).Accounts := by
  unfold traceNbt
  split
  · exact accounts_of_ne_null (by simp)
  · exact call_accounts _ _

theorem traceSlot_accounts : (traceSlot heap source).Accounts := by
  refine Accounts.andThen _ fun flag source => ?_
  split
  next =>
    refine Accounts.map (Accounts.andThen _ fun id source => Accounts.andThen _ fun count source => ?_) _
    refine Accounts.map ?_ _
    unfold traceOptnbt
    split
    next =>
      split
      · exact accounts_of_ne_null (by simp)
      · exact (traceNbt_accounts heap source).map _
    next => exact accounts_of_ne_null (by simp)
  next => exact accounts_of_ne_null (by simp)

theorem traceItems_accounts (left : Nat) : (traceItems heap left source).Accounts := by
  induction left generalizing source with
  | zero => exact accounts_of_ne_null (by simp [traceItems])
  | succ left ih => exact (traceSlot_accounts heap source).checked fun _ source => (ih source).map _

theorem decBef32_ne_null : decBef32 source ≠ .null := by
  refine Decoded.map_ne_null (Decoded.map_ne_null ?_ _) _
  unfold Library.Endian.scan
  split <;> simp

theorem traceParticledata_accounts (shape : ParticleShape) : (traceParticledata heap shape source).Accounts := by
  cases shape with
  | item => exact (traceSlot_accounts heap source).map _
  | state => exact accounts_of_ne_null (Decoded.map_ne_null (decVarint_ne_null source) _)
  | color =>
    exact accounts_of_ne_null (Decoded.andThen_ne_null _ fun _ _ => Decoded.andThen_ne_null _ fun _ _ =>
      Decoded.andThen_ne_null _ fun _ source => Decoded.map_ne_null (decBef32_ne_null source) _)
  | plain => exact accounts_of_ne_null (by simp [traceParticledata,decParticledata])

theorem traceMetadata_accounts : (traceMetadata heap source).Accounts := by
  unfold traceMetadata
  cases countMetatags source with
  | none => exact accounts_of_ne_null (by simp)
  | some len =>
    dsimp only
    split
    · exact Accounts.andThen _ fun _ _ => accounts_of_ne_null (by simp)
    · exact fun _ => by simp

theorem traceItemtagArray_accounts : (traceItemtagArray heap source).Accounts := by
  refine Accounts.andThen _ fun len source => ?_
  split
  · exact Accounts.map (fun null => List.ne_nil_of_mem ((traceItemtags_signals heap source _).mp null)) _
  · exact fun _ => by simp

end Accounts

/-- No decoder returns null of its own accord, so the null of a nested decoder is always one
of the failures that are noted. -/
theorem decode_null_failed (heap : Heap) (source : List UInt8) (decoder : Decoder)
    (null : decoder.decode heap source = .null) : (decoder.trace heap source).failures ≠ [] := by
  rw [← decoder.decoded_trace] at null
  revert null
  change (decoder.trace heap source).Accounts
  cases decoder with
  | slot => exact traceSlot_accounts heap source
  | ingredient => exact Accounts.andThen _ fun _ source => (traceItems_accounts heap source _).map _
  | smelting =>
    refine accounts_of_ne_null ?_
    rw [Decoder.trace,decoded_traceSmelting]
    exact decSmelting_ne_null heap source
  | particle => exact Accounts.andThen _ fun _ source => (traceParticledata_accounts heap source _).map _
  | metadata => exact traceMetadata_accounts heap source
  | itemtagArray => exact traceItemtagArray_accounts heap source

end CSpock.Propagation
