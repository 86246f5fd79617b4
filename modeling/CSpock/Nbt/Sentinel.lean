import CSpock.Nbt.Parse

/-! Lists without a sentinel. When the request for one is refused `read_list` frees a list
that is not set up; a parser that sets it up first returns null instead, and does nothing
else in another way. -/
namespace CSpock.Nbt
open CSpock.Library.Endian CSpock.Numeric

/-- `read_list` with `INIT_LIST_HEAD` in front of the sentinel. -/
def spareList (heap : Heap) (parse : TagParser) (stream : Stream) : Parsed NbtPayload :=
  checkedMalloc heap .nbtList 24 stream .null fun stream =>
    checkedMalloc heap .nbtSentinel 32 stream .null fun stream =>
      (readSwapped 1 stream).orFail fun type stream =>
        (readSwapped 4 stream).orFail fun elems stream =>
          let type := UInt8.ofNat type
          (readListLoop heap parse type (UInt32.ofNat elems).toInt32.toInt.toNat stream).map
            (.tagList (if type = tagInvalid then tagCompound else type))

def sparePayload (heap : Heap) (parse : TagParser) (type : UInt8) (stream : Stream) : Parsed NbtPayload :=
  if type = tagList then spareList heap parse stream else parsePayload heap parse type stream

def spareUnnamedTag (heap : Heap) : Nat → TagParser
  | 0,_,_,_ => .fault
  | fuel+1,type,name,stream => checkedMalloc heap .nbtNode 32 stream .null fun stream =>
    (sparePayload heap (spareUnnamedTag heap fuel) type stream).orFail fun payload stream =>
      if stream.errno ≠ .ok then .null stream else .done (.mk name payload) stream

def spareNamedTag (heap : Heap) (stream : Stream) : Parsed NbtNode :=
  (readSwapped 1 stream).orFail fun type stream =>
    let parse := spareUnnamedTag heap (stream.memory.length+1) (UInt8.ofNat type)
    match readString heap stream with
    | .fault => .fault
    | .null stream => (parse none stream).orFail .done
    | .done name stream => (parse (some name) stream).orFail .done

def spareParse2 (heap : Heap) (memory : List UInt8) (length : Nat) : Parsed NbtNode :=
  spareNamedTag heap ⟨memory,length,.ok⟩

/-- The same, or a crash against a null, with a sentinel that was refused. -/
def Spares {α : Type} (heap : Heap) (real spare : Parsed α) : Prop :=
  real = spare ∨ (real = .fault ∧ (∃ stream, spare = .null stream) ∧ ∃ cursor, heap.malloc .nbtSentinel cursor 32 = false)

namespace Spares
variable {α β : Type} {heap : Heap}

theorem same (parsed : Parsed α) : Spares heap parsed parsed := .inl rfl

theorem orFail {real spare : Parsed α} {next other : α → Stream → Parsed β} (first : Spares heap real spare)
    (second : ∀ value stream, Spares heap (next value stream) (other value stream)) :
    Spares heap (real.orFail next) (spare.orFail other) := by
  rcases first with rfl | ⟨rfl,⟨stream,rfl⟩,refused⟩
  · cases real with
    | fault => exact same _
    | null stream => exact same _
    | done value stream => exact second value stream
  · exact .inr ⟨rfl,⟨_,rfl⟩,refused⟩

theorem map {real spare : Parsed α} (first : Spares heap real spare) (f : α → β) :
    Spares heap (real.map f) (spare.map f) := by
  rcases first with rfl | ⟨rfl,⟨stream,rfl⟩,refused⟩
  · exact same _
  · exact .inr ⟨rfl,⟨stream,rfl⟩,refused⟩

theorem malloc {site : Site} {size : Nat} {stream : Stream} {onError next other : Stream → Parsed α}
    (granted : Spares heap (next stream) (other stream)) :
    Spares heap (checkedMalloc heap site size stream onError next) (checkedMalloc heap site size stream onError other) := by
  unfold checkedMalloc
  split
  · exact granted
  · exact same _

end Spares

section
variable {heap : Heap} {parse spare : TagParser}
    (spares : ∀ type name stream, Spares heap (parse type name stream) (spare type name stream))
include spares

theorem readListLoop_spares (type : UInt8) (elems : Nat) (stream : Stream) :
    Spares heap (readListLoop heap parse type elems stream) (readListLoop heap spare type elems stream) := by
  induction elems generalizing stream with
  | zero => exact .same _
  | succ elems ih => exact .malloc ((spares type none _).orFail fun _ stream => (ih stream).map _)

theorem readCompoundLoop_spares (rounds : Nat) (stream : Stream) :
    Spares heap (readCompoundLoop heap parse rounds stream) (readCompoundLoop heap spare rounds stream) := by
  induction rounds generalizing stream with
  | zero => exact .same _
  | succ rounds ih =>
    refine .orFail (.same _) fun type stream => ?_
    dsimp only
    split
    · exact .same _
    · refine .orFail (.same _) fun name stream => .malloc ?_
      exact (spares _ (some name) _).orFail fun _ stream => (ih stream).map _

theorem readList_spares (stream : Stream) : Spares heap (readList heap parse stream) (spareList heap spare stream) := by
  refine .malloc ?_
  unfold checkedMalloc
  split
  next => exact .orFail (.same _) fun type stream => .orFail (.same _) fun elems stream =>
    (readListLoop_spares spares _ _ stream).map _
  next refused => exact .inr ⟨rfl,⟨_,rfl⟩,stream.memory,Bool.eq_false_iff.mpr refused⟩

theorem parsePayload_spares (type : UInt8) (stream : Stream) :
    Spares heap (parsePayload heap parse type stream) (sparePayload heap spare type stream) := by
  unfold sparePayload
  split
  next list =>
    subst list
    exact readList_spares spares stream
  next other =>
    unfold parsePayload
    split <;> first | exact .same _ | exact absurd rfl other | skip
    exact .malloc ((readCompoundLoop_spares spares _ _).map _)

end

theorem parseUnnamedTag_spares (heap : Heap) (fuel : Nat) (type : UInt8) (name : Option (List UInt8)) (stream : Stream) :
    Spares heap (parseUnnamedTag heap fuel type name stream) (spareUnnamedTag heap fuel type name stream) := by
  induction fuel generalizing type name stream with
  | zero => exact .same _
  | succ fuel ih => exact .malloc ((parsePayload_spares ih type _).orFail fun _ _ => .same _)

/-- The two parsers come to the same end unless a sentinel is refused: then one crashes and the other returns null. -/
theorem nbtParse2_spares (heap : Heap) (memory : List UInt8) (length : Nat) :
    Spares heap (nbtParse2 heap memory length) (spareParse2 heap memory length) := by
  refine .orFail (.same _) fun type stream => ?_
  dsimp only
  cases readString heap stream with
  | fault => exact .same _
  | null stream => exact (parseUnnamedTag_spares heap _ _ none stream).orFail fun _ _ => .same _
  | done name stream => exact (parseUnnamedTag_spares heap _ _ (some name) stream).orFail fun _ _ => .same _

def rootName (heap : Heap) (source : List UInt8) (length : Nat) : Parsed (List UInt8) :=
  (readSwapped 1 ⟨source,length,.ok⟩).orFail fun _ stream => readString heap stream

/-- Something fails in `nbt_parse2`, a sentinel or the name of the root, and it does not get to say so. -/
def parseCrashes (heap : Heap) (source : List UInt8) (length : Nat) : Bool :=
  match nbtParse2 heap source length,spareParse2 heap source length,rootName heap source length with
  | .fault,.null _,_ => true
  | .fault,_,.null _ => true
  | _,_,_ => false

theorem parseCrashes_fault {heap : Heap} {source : List UInt8} (crashes : parseCrashes heap source noOverflow = true) :
    decNbt heap source = .fault := by
  unfold parseCrashes at crashes
  unfold decNbt
  cases ran : nbtParse2 heap source noOverflow with
  | fault => rfl
  | null stream => simp [ran] at crashes
  | done node stream => simp [ran] at crashes

end CSpock.Nbt
