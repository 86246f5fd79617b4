import CSpock.Heap
import CSpock.Nbt.Grammar
import CSpock.Nbt.Tree

/-! The parser of cNBT. The three things its functions share by reference, the
memory pointer, the bytes that are left of the length and `errno`, are a `Stream`. -/
namespace CSpock.Nbt
open CSpock.Library.Cursor CSpock.Library.Endian CSpock.Numeric

inductive NbtStatus where
  | ok
  | err
  | emem
  deriving Repr, DecidableEq

structure Stream where
  memory : List UInt8
  length : Nat
  errno : NbtStatus
  deriving Repr, DecidableEq

/-- The label `parse_error`: an error that is already reported stays. -/
def Stream.parseError (stream : Stream) : Stream :=
  if stream.errno = .ok then { stream with errno := .err } else stream

inductive Parsed (α : Type) where
  | fault
  | null (stream : Stream)
  | done (value : α) (stream : Stream)

namespace Parsed
variable {α β : Type}

/-- `goto parse_error` on a null result. -/
def orFail : Parsed α → (α → Stream → Parsed β) → Parsed β
  | .done value stream,next => next value stream
  | .null stream,_ => .null stream.parseError
  | .fault,_ => .fault

def map (f : α → β) : Parsed α → Parsed β
  | .done value stream => .done (f value) stream
  | .null stream => .null stream
  | .fault => .fault

theorem orFail_eq_done {first : Parsed α} {next : α → Stream → Parsed β} {value : β} {after : Stream}
    (ran : first.orFail next = .done value after) :
    ∃ middle stream, first = .done middle stream ∧ next middle stream = .done value after := by
  cases first with
  | done middle stream => exact ⟨middle,stream,rfl,ran⟩
  | null => cases ran
  | fault => cases ran

theorem map_eq_done {f : α → β} {first : Parsed α} {value : β} {after : Stream}
    (ran : first.map f = .done value after) : ∃ before, first = .done before after ∧ f before = value := by
  cases first with
  | done before stream => cases ran; exact ⟨before,rfl,rfl⟩
  | null => cases ran
  | fault => cases ran

end Parsed

def checkedMalloc {α : Type} (heap : Heap) (site : Site) (size : Nat) (stream : Stream)
    (onError next : Stream → Parsed α) : Parsed α :=
  if heap.malloc site stream.memory size then next stream else onError { stream with errno := .emem }

/-- `READ_GENERIC` with `memscan`. -/
def readGeneric (n : Nat) (stream : Stream) : Parsed (List UInt8) :=
  if stream.length < n then .null stream.parseError else
    match scan n stream.memory with
    | .ok bytes memory => .done bytes ⟨memory,stream.length - n,stream.errno⟩
    | _ => .fault

/-- `READ_GENERIC` with `swapped_memscan`. -/
def readSwapped (n : Nat) (stream : Stream) : Parsed Nat := (readGeneric n stream).map value

def readString (heap : Heap) (stream : Stream) : Parsed (List UInt8) :=
  (readSwapped 2 stream).orFail fun size stream =>
    let stringLength := (UInt16.ofNat size).toInt16.toInt
    if stringLength < 0 then .null stream.parseError
    else if stream.length < stringLength.toNat then .null stream.parseError
    else checkedMalloc heap .nbtString (stringLength.toNat+1) stream .null fun stream =>
      readGeneric stringLength.toNat stream

def readByteArray (heap : Heap) (stream : Stream) : Parsed (List UInt8) :=
  (readSwapped 4 stream).orFail fun size stream =>
    let length := (UInt32.ofNat size).toInt32.toInt
    if length < 0 then .null stream.parseError
    else checkedMalloc heap .nbtArray length.toNat stream .null fun stream => readGeneric length.toNat stream

def swapInts : Nat → List UInt8 → List UInt32
  | 0,_ => []
  | count+1,bytes => UInt32.ofNat (value (bytes.take 4)) :: swapInts count (bytes.drop 4)

def readIntArray (heap : Heap) (stream : Stream) : Parsed (List UInt32) :=
  (readSwapped 4 stream).orFail fun size stream =>
    let length := (UInt32.ofNat size).toInt32.toInt
    if length < 0 then .null stream.parseError
    else checkedMalloc heap .nbtArray (length.toNat * 4) stream .null fun stream =>
      (readGeneric (length.toNat * 4) stream).map (swapInts length.toNat)

/-- `parse_unnamed_tag`, as `read_list` and `read_compound` call it. -/
abbrev TagParser := UInt8 → Option (List UInt8) → Stream → Parsed NbtNode

def readListLoop (heap : Heap) (parse : TagParser) (type : UInt8) : Nat → Stream → Parsed (List NbtNode)
  | 0,stream => .done [] stream
  | elems+1,stream => checkedMalloc heap .nbtEntry 24 stream .null fun stream =>
    (parse type none stream).orFail fun data stream =>
      (readListLoop heap parse type elems stream).map (data :: ·)

def readList (heap : Heap) (parse : TagParser) (stream : Stream) : Parsed NbtPayload :=
  checkedMalloc heap .nbtList 24 stream .null fun stream =>
    -- without the sentinel `nbt_free_list` follows the pointers of an entry that is not set up
    checkedMalloc heap .nbtSentinel 32 stream (fun _ => .fault) fun stream =>
      (readSwapped 1 stream).orFail fun type stream =>
        (readSwapped 4 stream).orFail fun elems stream =>
          let type := UInt8.ofNat type
          (readListLoop heap parse type (UInt32.ofNat elems).toInt32.toInt.toNat stream).map
            (.tagList (if type = tagInvalid then tagCompound else type))

/-- The loop of `read_compound`; each round takes a byte of the memory. -/
def readCompoundLoop (heap : Heap) (parse : TagParser) : Nat → Stream → Parsed (List NbtNode)
  | 0,_ => .fault
  | rounds+1,stream => (readSwapped 1 stream).orFail fun type stream =>
    let type := UInt8.ofNat type
    if type = 0 then .done [] stream else
      (readString heap stream).orFail fun name stream =>
        checkedMalloc heap .nbtEntry 24 stream .null fun stream =>
          (parse type (some name) stream).orFail fun data stream =>
            (readCompoundLoop heap parse rounds stream).map (data :: ·)

def readCompound (heap : Heap) (parse : TagParser) (stream : Stream) : Parsed NbtPayload :=
  checkedMalloc heap .nbtList 24 stream .null fun stream =>
    (readCompoundLoop heap parse (stream.memory.length+1) stream).map .tagCompound

def parsePayload (heap : Heap) (parse : TagParser) (type : UInt8) (stream : Stream) : Parsed NbtPayload :=
  match type with
  | tagByte => (readSwapped 1 stream).map fun n => .tagByte (UInt8.ofNat n)
  | tagShort => (readSwapped 2 stream).map fun n => .tagShort (UInt16.ofNat n)
  | tagInt => (readSwapped 4 stream).map fun n => .tagInt (UInt32.ofNat n)
  | tagLong => (readSwapped 8 stream).map fun n => .tagLong (UInt64.ofNat n)
  | tagFloat => (readSwapped 4 stream).map fun n => .tagFloat (UInt32.ofNat n)
  | tagDouble => (readSwapped 8 stream).map fun n => .tagDouble (UInt64.ofNat n)
  | tagByteArray => (readByteArray heap stream).map .tagByteArray
  | tagIntArray => (readIntArray heap stream).map .tagIntArray
  | tagString => (readString heap stream).map .tagString
  | tagList => readList heap parse stream
  | tagCompound => readCompound heap parse stream
  | _ => .null stream.parseError

def parseUnnamedTag (heap : Heap) : Nat → TagParser
  | 0,_,_,_ => .fault
  | fuel+1,type,name,stream => checkedMalloc heap .nbtNode 32 stream .null fun stream =>
    (parsePayload heap (parseUnnamedTag heap fuel) type stream).orFail fun payload stream =>
      if stream.errno ≠ .ok then .null stream else .done (.mk name payload) stream

/-- A name that cannot be read only shows in `errno`, which the parse of the tag looks at last. -/
def parseNamedTag (heap : Heap) (stream : Stream) : Parsed NbtNode :=
  (readSwapped 1 stream).orFail fun type stream =>
    let parse := parseUnnamedTag heap (stream.memory.length+1) (UInt8.ofNat type)
    match readString heap stream with
    | .fault => .fault
    | .null stream => (parse none stream).orFail .done
    | .done name stream => (parse (some name) stream).orFail .done

def nbtParse2 (heap : Heap) (memory : List UInt8) (length : Nat) : Parsed NbtNode :=
  parseNamedTag heap ⟨memory,length,.ok⟩

def noOverflow : Nat := 1073741824

def decNbt (heap : Heap) (source : List UInt8) : Decoded NbtNode :=
  match nbtParse2 heap source noOverflow with
  | .done node stream => .ok node stream.memory
  | .null _ => .null
  | .fault => .fault

/-- The parser takes exactly `bytes` off the memory and off the length. -/
def Fills {α : Type} (parse : Stream → Parsed α) (bytes : List UInt8) (value : α) : Prop :=
  ∀ rest length, bytes.length ≤ length → length < 2^31 →
    parse ⟨bytes ++ rest,length,.ok⟩ = .done value ⟨rest,length - bytes.length,.ok⟩

namespace Fills
variable {α β : Type}

theorem pure (value : α) : Fills (fun stream => .done value stream) [] value := fun _ _ _ _ => rfl

theorem orFail {first : Stream → Parsed α} {next : α → Stream → Parsed β} {front back : List UInt8}
    {value : α} {result : β} (head : Fills first front value) (tail : Fills (next value) back result) :
    Fills (fun stream => (first stream).orFail next) (front ++ back) result := by
  intro rest length fits small
  rw [List.length_append] at fits
  simp only [List.append_assoc,head (back ++ rest) length (by omega) small,Parsed.orFail,
    tail rest (length - front.length) (by omega) (by omega),List.length_append,Nat.sub_sub]

theorem map {parse : Stream → Parsed α} {bytes : List UInt8} {value : α} (f : α → β)
    (fills : Fills parse bytes value) : Fills (fun stream => (parse stream).map f) bytes (f value) := by
  intro rest length fits small
  simp only [fills rest length fits small,Parsed.map]

theorem malloc {heap : Heap} (succeeds : heap.Succeeds) {site : Site} {size : Nat}
    {onError next : Stream → Parsed α} {bytes : List UInt8} {value : α} (fills : Fills next bytes value) :
    Fills (fun stream => checkedMalloc heap site size stream onError next) bytes value := by
  intro rest length fits small
  exact (if_pos (succeeds site _ size)).trans (fills rest length fits small)

end Fills

theorem readGeneric_fills (bytes : List UInt8) : Fills (readGeneric bytes.length) bytes bytes := by
  intro rest length fits _
  rw [readGeneric,if_neg (Nat.not_lt.mpr fits)]
  simp only [scan_reads bytes rest]

theorem readSwapped_fills {bytes : List UInt8} {n : Nat} (width : bytes.length = n) :
    Fills (readSwapped n) bytes (value bytes) := by
  subst width
  exact (readGeneric_fills bytes).map value

theorem int16_value {size : Nat} (small : size ≤ 32767) : (UInt16.ofNat size).toInt16.toInt = size := by
  rw [toInt_toInt16,UInt16.toNat_ofNat',Nat.mod_eq_of_lt (by omega),Int.bmod_eq_of_le] <;> omega

theorem int32_value {size : Nat} (small : size < 2^31) : (UInt32.ofNat size).toInt32.toInt = size := by
  rw [toInt_toInt32,UInt32.toNat_ofNat',Nat.mod_eq_of_lt (by omega),cInt_natCast small]

section Completeness
variable {heap : Heap}

theorem readString_fills (succeeds : heap.Succeeds) {bytes : List UInt8} (text : Text cnbtDialect bytes) :
    ∃ body, Fills (readString heap) bytes body := by
  obtain @⟨header,body,width,size,short⟩ := text
  have read : (UInt16.ofNat (value header)).toInt16.toInt = body.length := by
    rw [← size]
    exact int16_value short
  refine ⟨body,(readSwapped_fills width).orFail ?_⟩
  intro rest length fits small
  simp only [read,Int.toNat_natCast]
  rw [if_neg (by omega),if_neg (by omega)]
  exact (readGeneric_fills body).malloc succeeds rest length fits small

theorem readByteArray_fills (succeeds : heap.Succeeds) {header body : List UInt8}
    (width : header.length = 4) (size : body.length = value header * 1) :
    Fills (readByteArray heap) (header ++ body) body := by
  refine (readSwapped_fills width).orFail ?_
  intro rest length fits small
  have read : (UInt32.ofNat (value header)).toInt32.toInt = value header := int32_value (by omega)
  have exact : value header = body.length := by omega
  simp only [read,Int.toNat_natCast]
  rw [if_neg (by omega),exact]
  exact (readGeneric_fills body).malloc succeeds rest length fits small

theorem readIntArray_fills (succeeds : heap.Succeeds) {header body : List UInt8}
    (width : header.length = 4) (size : body.length = value header * 4) :
    Fills (readIntArray heap) (header ++ body) (swapInts (value header) body) := by
  refine (readSwapped_fills width).orFail ?_
  intro rest length fits small
  have read : (UInt32.ofNat (value header)).toInt32.toInt = value header := int32_value (by omega)
  simp only [read,Int.toNat_natCast,← size]
  rw [if_neg (by omega)]
  exact ((readGeneric_fills body).map (swapInts (value header))).malloc succeeds rest length fits small

/-- What the parser makes of the bytes of a part, whatever follows them. -/
def Builds (heap : Heap) : Part → List UInt8 → Prop
  | .payload type,bytes => ∃ payload, ∀ fuel name, bytes.length < fuel →
      Fills (parseUnnamedTag heap fuel type name) bytes (.mk name payload)
  | .elements type count,bytes => ∃ entries, ∀ fuel, bytes.length < fuel →
      Fills (readListLoop heap (parseUnnamedTag heap fuel) type count) bytes entries
  | .members,bytes => ∃ entries, ∀ fuel rounds, bytes.length ≤ fuel → bytes.length ≤ rounds →
      Fills (readCompoundLoop heap (parseUnnamedTag heap fuel) rounds) bytes entries

theorem parseUnnamedTag_fills (succeeds : heap.Succeeds) {fuel : Nat} {type : UInt8}
    {name : Option (List UInt8)} {bytes : List UInt8} {payload : NbtPayload}
    (fills : Fills (parsePayload heap (parseUnnamedTag heap fuel) type) bytes payload) :
    Fills (parseUnnamedTag heap (fuel+1) type name) bytes (.mk name payload) := by
  refine Fills.malloc succeeds ?_
  intro rest length fits small
  simp only [fills rest length fits small,Parsed.orFail]
  rw [if_neg (by simp)]

theorem builds_payload (succeeds : heap.Succeeds) {type : UInt8} {bytes : List UInt8} (payload : NbtPayload)
    (fills : ∀ fuel, bytes.length ≤ fuel →
      Fills (parsePayload heap (parseUnnamedTag heap fuel) type) bytes payload) :
    Builds heap (.payload type) bytes := by
  refine ⟨payload,fun fuel name deep => ?_⟩
  obtain ⟨fuel,rfl⟩ : ∃ more, fuel = more+1 := ⟨fuel-1,by omega⟩
  exact parseUnnamedTag_fills succeeds (fills fuel (by omega))

theorem builds_scalar (succeeds : heap.Succeeds) {type : UInt8} {bytes : List UInt8}
    (width : scalarWidth type = some bytes.length) : Builds heap (.payload type) bytes := by
  have number {n : Nat} (exact : some n = some bytes.length) (wrap : Nat → NbtPayload) :
      Fills (fun stream => (readSwapped n stream).map wrap) bytes (wrap (value bytes)) :=
    (readSwapped_fills (Option.some.inj exact).symm).map wrap
  unfold scalarWidth at width
  split at width
  · exact builds_payload succeeds _ fun _ _ => number width _
  · exact builds_payload succeeds _ fun _ _ => number width _
  · exact builds_payload succeeds _ fun _ _ => number width _
  · exact builds_payload succeeds _ fun _ _ => number width _
  · exact builds_payload succeeds _ fun _ _ => number width _
  · exact builds_payload succeeds _ fun _ _ => number width _
  · cases width

theorem builds_array (succeeds : heap.Succeeds) {type : UInt8} {unit : Nat} {header body : List UInt8}
    (kind : arrayUnit cnbtDialect type = some unit) (width : header.length = 4)
    (size : body.length = value header * unit) : Builds heap (.payload type) (header ++ body) := by
  unfold arrayUnit at kind
  split at kind
  · cases kind
    exact builds_payload succeeds _ fun _ _ => (readByteArray_fills succeeds width size).map _
  · cases kind
    exact builds_payload succeeds _ fun _ _ => (readIntArray_fills succeeds width size).map _
  · cases kind
  · cases kind

theorem builds_list (succeeds : heap.Succeeds) {type : UInt8} {header body : List UInt8}
    (width : header.length = 4) (elements : Builds heap (.elements type (listCount header)) body) :
    Builds heap (.payload tagList) (type :: (header ++ body)) := by
  obtain ⟨entries,loop⟩ := elements
  refine builds_payload succeeds (.tagList (if type = tagInvalid then tagCompound else type) entries)
    fun fuel deep => ?_
  simp only [List.length_cons,List.length_append] at deep
  have typed : Fills (readSwapped 1) [type] (value [type]) := readSwapped_fills rfl
  have same : UInt8.ofNat (value [type]) = type := by simp [value]
  refine Fills.malloc succeeds (Fills.malloc succeeds (typed.orFail ((readSwapped_fills width).orFail ?_)))
  rw [same]
  exact (loop fuel (by omega)).map _

theorem builds_compound (succeeds : heap.Succeeds) {bytes : List UInt8} (members : Builds heap .members bytes) :
    Builds heap (.payload tagCompound) bytes := by
  obtain ⟨entries,loop⟩ := members
  refine builds_payload succeeds (.tagCompound entries) fun fuel deep => Fills.malloc succeeds ?_
  intro rest length fits small
  exact (loop fuel ((bytes ++ rest).length+1) deep (by simp; omega)).map _ rest length fits small

theorem builds_element (succeeds : heap.Succeeds) {type : UInt8} {count : Nat} {first rest : List UInt8}
    (head : Builds heap (.payload type) first) (tail : Builds heap (.elements type count) rest) :
    Builds heap (.elements type (count+1)) (first ++ rest) := by
  obtain ⟨payload,parse⟩ := head
  obtain ⟨entries,loop⟩ := tail
  refine ⟨.mk none payload :: entries,fun fuel deep => ?_⟩
  rw [List.length_append] at deep
  exact Fills.malloc succeeds ((parse fuel none (by omega)).orFail ((loop fuel (by omega)).map _))

theorem builds_close : Builds heap .members [0] := by
  refine ⟨[],fun fuel rounds _ enough => ?_⟩
  obtain ⟨rounds,rfl⟩ : ∃ more, rounds = more+1 := ⟨rounds-1,by simp at enough; omega⟩
  have typed : Fills (readSwapped 1) [0] 0 := @readSwapped_fills [0] 1 rfl
  exact @Fills.orFail _ _ _ _ [0] [] _ _ typed (Fills.pure [])

theorem builds_member (succeeds : heap.Succeeds) {type : UInt8} {name first rest : List UInt8}
    (live : type ≠ 0) (text : Text cnbtDialect name) (head : Builds heap (.payload type) first)
    (tail : Builds heap .members rest) :
    Builds heap .members (type :: (name ++ (first ++ rest))) := by
  obtain ⟨named,string⟩ := readString_fills succeeds text
  obtain ⟨payload,parse⟩ := head
  obtain ⟨entries,loop⟩ := tail
  refine ⟨.mk (some named) payload :: entries,fun fuel rounds deep enough => ?_⟩
  simp only [List.length_cons,List.length_append] at deep enough
  have long := text.length_ge
  obtain ⟨rounds,rfl⟩ : ∃ more, rounds = more+1 := ⟨rounds-1,by omega⟩
  have typed : Fills (readSwapped 1) [type] (value [type]) := readSwapped_fills rfl
  have same : UInt8.ofNat (value [type]) = type := by simp [value]
  refine typed.orFail ?_
  simp only [same,if_neg live]
  exact string.orFail (Fills.malloc succeeds ((parse fuel (some named) (by omega)).orFail
    ((loop fuel rounds (by omega) (by omega)).map _)))

/-- The parser takes the bytes of every part of its dialect. -/
theorem parser_builds (succeeds : heap.Succeeds) {part : Part} {bytes : List UInt8}
    (parses : Parses cnbtDialect part bytes) : Builds heap part bytes := by
  induction parses with
  | scalar width => exact builds_scalar succeeds width
  | array kind width size => exact builds_array succeeds kind width size
  | string text =>
    obtain ⟨body,fills⟩ := readString_fills succeeds text
    exact builds_payload succeeds _ fun _ _ => fills.map NbtPayload.tagString
  | list width _ elements => exact builds_list succeeds width elements
  | compound _ members => exact builds_compound succeeds members
  | none => exact ⟨[],fun _ _ => Fills.pure []⟩
  | element _ _ head tail => exact builds_element succeeds head tail
  | close => exact builds_close
  | member live text _ _ head tail => exact builds_member succeeds live text head tail

/-- The cNBT parser reads every document of its dialect, and reads exactly that. -/
theorem decNbt_document (succeeds : heap.Succeeds) {bytes : List UInt8}
    (document : Document cnbtDialect bytes) (small : bytes.length ≤ noOverflow) :
    ∃ node, Reads (decNbt heap) bytes node := by
  obtain @⟨type,name,body,text,payload⟩ := document
  obtain ⟨named,string⟩ := readString_fills succeeds text
  obtain ⟨built,parse⟩ := parser_builds succeeds payload
  refine ⟨.mk (some named) built,fun rest => ?_⟩
  have typed : Fills (readSwapped 1) [type] (value [type]) := readSwapped_fills rfl
  have same : UInt8.ofNat (value [type]) = type := by simp [value]
  have fills : Fills (parseNamedTag heap) ([type] ++ (name ++ body)) (.mk (some named) built) := by
    refine typed.orFail ?_
    intro after length fits small
    rw [List.length_append] at fits
    simp only [same,List.append_assoc,string (body ++ after) length (by omega) small]
    have deep : body.length < (name ++ (body ++ after)).length + 1 := by simp; omega
    rw [parse _ (some named) deep after (length - name.length) (by omega) (by omega)]
    simp only [Parsed.orFail,List.length_append,Nat.sub_sub]
  have limit : noOverflow < 2^31 := by decide
  simp only [decNbt,nbtParse2]
  rw [show type :: (name ++ body) ++ rest = [type] ++ (name ++ body) ++ rest by simp,
    fills rest noOverflow (by simpa using small) limit]

end Completeness

/-- The parser has taken `bytes` off the memory and off the length, and has not
lost an error on the way. -/
structure Took (before : Stream) (bytes : List UInt8) (after : Stream) : Prop where
  memory : before.memory = bytes ++ after.memory
  length : before.length = bytes.length + after.length
  errno : after.errno = .ok → before.errno = .ok

namespace Took

theorem refl (stream : Stream) : Took stream [] stream := ⟨rfl,by simp,id⟩

theorem trans {before middle after : Stream} {front back : List UInt8} (head : Took before front middle)
    (tail : Took middle back after) : Took before (front ++ back) after where
  memory := by rw [head.memory,tail.memory,List.append_assoc]
  length := by rw [head.length,tail.length,List.length_append]; omega
  errno := head.errno ∘ tail.errno

end Took

section Soundness
variable {heap : Heap} {before after : Stream}

theorem checkedMalloc_eq_done {α : Type} {site : Site} {size : Nat} {next : Stream → Parsed α} {value : α}
    (ran : checkedMalloc heap site size before .null next = .done value after) :
    next before = .done value after := by
  unfold checkedMalloc at ran
  split at ran
  · exact ran
  · cases ran

theorem readGeneric_took {n : Nat} {bytes : List UInt8} (ran : readGeneric n before = .done bytes after) :
    Took before bytes after ∧ bytes.length = n := by
  unfold readGeneric at ran
  split at ran
  next => cases ran
  next room =>
    split at ran
    next copied memory scanned =>
      cases ran
      obtain ⟨same,width⟩ := scan_eq_ok scanned
      exact ⟨⟨same,by simp only [width]; omega,id⟩,width⟩
    next => cases ran

theorem readSwapped_took {n number : Nat} (ran : readSwapped n before = .done number after) :
    ∃ bytes, Took before bytes after ∧ bytes.length = n ∧ number = value bytes := by
  obtain ⟨bytes,copied,rfl⟩ := Parsed.map_eq_done ran
  obtain ⟨took,width⟩ := readGeneric_took copied
  exact ⟨bytes,took,width,rfl⟩

theorem readByte_took {number : Nat} (ran : readSwapped 1 before = .done number after) :
    Took before [UInt8.ofNat number] after := by
  obtain ⟨bytes,took,width,rfl⟩ := readSwapped_took ran
  have same : [UInt8.ofNat (value bytes)] = bytes := by
    have written := bigEndian_value bytes
    rw [width] at written
    have bound := value_lt bytes
    rw [width,Nat.pow_one] at bound
    have single : bigEndian 1 (value bytes) = [UInt8.ofNat (value bytes)] := by
      simp only [bigEndian,List.nil_append,Nat.mod_eq_of_lt bound]
    exact single.symm.trans written
  rwa [same]

theorem readString_took {body : List UInt8} (ran : readString heap before = .done body after) :
    ∃ bytes, Took before bytes after ∧ Text cnbtDialect bytes := by
  obtain ⟨size,stream,read,ran⟩ := Parsed.orFail_eq_done ran
  obtain ⟨header,first,width,rfl⟩ := readSwapped_took read
  have bound := value_lt header
  rw [width] at bound
  dsimp only at ran
  split at ran
  next => cases ran
  next nonneg =>
    split at ran
    next => cases ran
    next room =>
      obtain ⟨second,copied⟩ := readGeneric_took (checkedMalloc_eq_done ran)
      have small : value header ≤ 32767 := by
        rw [toInt_toInt16,UInt16.toNat_ofNat',Nat.mod_eq_of_lt (by omega),Int.bmod_def] at nonneg
        omega
      rw [int16_value small,Int.toNat_natCast] at copied
      exact ⟨_,first.trans second,.mk width copied (by rw [copied]; exact small)⟩

theorem parseError_errno (stream : Stream) : stream.parseError.errno ≠ .ok := by
  unfold Stream.parseError
  split
  · simp
  · assumption

theorem readGeneric_null {n : Nat} (ran : readGeneric n before = .null after) : after.errno ≠ .ok := by
  unfold readGeneric at ran
  split at ran
  next => cases ran; exact parseError_errno _
  next => split at ran <;> cases ran

theorem readString_null (ran : readString heap before = .null after) : after.errno ≠ .ok := by
  unfold readString readSwapped at ran
  cases header : readGeneric 2 before with
  | fault => rw [header] at ran; cases ran
  | null => rw [header] at ran; cases ran; exact parseError_errno _
  | done =>
    rw [header] at ran
    simp only [Parsed.map,Parsed.orFail] at ran
    split at ran
    next => cases ran; exact parseError_errno _
    next =>
      split at ran
      next => cases ran; exact parseError_errno _
      next =>
        unfold checkedMalloc at ran
        split at ran
        next => exact readGeneric_null ran
        next => cases ran; simp

theorem nonneg_length {header : List UInt8} (width : header.length = 4)
    (nonneg : ¬(UInt32.ofNat (value header)).toInt32.toInt < 0) :
    (UInt32.ofNat (value header)).toInt32.toInt.toNat = value header := by
  have bound := value_lt header
  rw [width] at bound
  have stored : (UInt32.ofNat (value header)).toNat = value header := by
    rw [UInt32.toNat_ofNat']
    omega
  rw [toInt_toInt32,stored] at nonneg ⊢
  have small : value header < 2^31 := by
    by_contra large
    exact nonneg (cInt_of_large (by omega) (by omega))
  rw [cInt_natCast small,Int.toNat_natCast]

theorem readByteArray_took {data : List UInt8} (ran : readByteArray heap before = .done data after) :
    ∃ bytes, Took before bytes after ∧ Parses cnbtDialect (.payload tagByteArray) bytes := by
  obtain ⟨size,stream,read,ran⟩ := Parsed.orFail_eq_done ran
  obtain ⟨header,first,width,rfl⟩ := readSwapped_took read
  dsimp only at ran
  split at ran
  next => cases ran
  next nonneg =>
    rw [nonneg_length width nonneg] at ran
    obtain ⟨second,copied⟩ := readGeneric_took (checkedMalloc_eq_done ran)
    exact ⟨_,first.trans second,.array rfl width (by rw [copied,Nat.mul_one])⟩

theorem readIntArray_took {data : List UInt32} (ran : readIntArray heap before = .done data after) :
    ∃ bytes, Took before bytes after ∧ Parses cnbtDialect (.payload tagIntArray) bytes := by
  obtain ⟨size,stream,read,ran⟩ := Parsed.orFail_eq_done ran
  obtain ⟨header,first,width,rfl⟩ := readSwapped_took read
  dsimp only at ran
  split at ran
  next => cases ran
  next nonneg =>
    rw [nonneg_length width nonneg] at ran
    obtain ⟨body,copied,_⟩ := Parsed.map_eq_done (checkedMalloc_eq_done ran)
    obtain ⟨second,exact⟩ := readGeneric_took copied
    exact ⟨_,first.trans second,.array rfl width exact⟩

/-- A parse of a tag of any type takes a payload of that type, and ends without an error. -/
def ParsesTags (parse : TagParser) : Prop :=
  ∀ type name before node after, parse type name before = .done node after →
    after.errno = .ok ∧ ∃ bytes, Took before bytes after ∧ Parses cnbtDialect (.payload type) bytes

theorem readListLoop_took {parse : TagParser} (sound : ParsesTags parse) {type : UInt8} {elems : Nat}
    {entries : List NbtNode} (ran : readListLoop heap parse type elems before = .done entries after) :
    ∃ bytes, Took before bytes after ∧ Parses cnbtDialect (.elements type elems) bytes := by
  induction elems generalizing before entries with
  | zero => cases ran; exact ⟨[],.refl _,.none⟩
  | succ elems ih =>
    obtain ⟨node,stream,parsed,ran⟩ := Parsed.orFail_eq_done (checkedMalloc_eq_done ran)
    obtain ⟨rest,looped,_⟩ := Parsed.map_eq_done ran
    obtain ⟨_,front,first,head⟩ := sound _ _ _ _ _ parsed
    obtain ⟨back,second,tail⟩ := ih looped
    exact ⟨front ++ back,first.trans second,.element head tail⟩

theorem readList_took {parse : TagParser} (sound : ParsesTags parse) {payload : NbtPayload}
    (ran : readList heap parse before = .done payload after) :
    ∃ bytes, Took before bytes after ∧ Parses cnbtDialect (.payload tagList) bytes := by
  have ran := checkedMalloc_eq_done ran
  dsimp only at ran
  unfold checkedMalloc at ran
  split at ran
  next =>
    obtain ⟨type,stream,typed,ran⟩ := Parsed.orFail_eq_done ran
    obtain ⟨elems,inner,counted,ran⟩ := Parsed.orFail_eq_done ran
    obtain ⟨entries,looped,_⟩ := Parsed.map_eq_done ran
    obtain ⟨header,second,width,rfl⟩ := readSwapped_took counted
    obtain ⟨body,third,elements⟩ := readListLoop_took sound looped
    exact ⟨_ :: (header ++ body),(readByte_took typed).trans (second.trans third),.list width elements⟩
  next => cases ran

theorem readCompoundLoop_took {parse : TagParser} (sound : ParsesTags parse) {rounds : Nat}
    {entries : List NbtNode} (ran : readCompoundLoop heap parse rounds before = .done entries after) :
    ∃ bytes, Took before bytes after ∧ Parses cnbtDialect .members bytes := by
  induction rounds generalizing before entries with
  | zero => cases ran
  | succ rounds ih =>
    obtain ⟨type,stream,typed,ran⟩ := Parsed.orFail_eq_done ran
    have first := readByte_took typed
    dsimp only at ran
    split at ran
    next closed =>
      cases ran
      rw [closed] at first
      exact ⟨_,first,.close⟩
    next live =>
      obtain ⟨name,inner,read,ran⟩ := Parsed.orFail_eq_done ran
      obtain ⟨node,_,parsed,ran⟩ := Parsed.orFail_eq_done (checkedMalloc_eq_done ran)
      obtain ⟨rest,looped,_⟩ := Parsed.map_eq_done ran
      obtain ⟨front,second,text⟩ := readString_took read
      obtain ⟨_,middle,third,head⟩ := sound _ _ _ _ _ parsed
      obtain ⟨back,fourth,tail⟩ := ih looped
      exact ⟨_ :: (front ++ (middle ++ back)),first.trans (second.trans (third.trans fourth)),
        .member live text head tail⟩

theorem readCompound_took {parse : TagParser} (sound : ParsesTags parse) {payload : NbtPayload}
    (ran : readCompound heap parse before = .done payload after) :
    ∃ bytes, Took before bytes after ∧ Parses cnbtDialect (.payload tagCompound) bytes := by
  obtain ⟨entries,looped,_⟩ := Parsed.map_eq_done (checkedMalloc_eq_done ran)
  obtain ⟨bytes,took,members⟩ := readCompoundLoop_took sound looped
  exact ⟨bytes,took,.compound members⟩

theorem parsePayload_took {parse : TagParser} (sound : ParsesTags parse) {type : UInt8} {payload : NbtPayload}
    (ran : parsePayload heap parse type before = .done payload after) :
    ∃ bytes, Took before bytes after ∧ Parses cnbtDialect (.payload type) bytes := by
  have number {n : Nat} {wrap : Nat → NbtPayload} (width : scalarWidth type = some n)
      (ran : (readSwapped n before).map wrap = .done payload after) :
      ∃ bytes, Took before bytes after ∧ Parses cnbtDialect (.payload type) bytes := by
    obtain ⟨read,scanned,_⟩ := Parsed.map_eq_done ran
    obtain ⟨bytes,took,exact,_⟩ := readSwapped_took scanned
    exact ⟨bytes,took,.scalar (by rw [width,exact])⟩
  unfold parsePayload at ran
  split at ran
  · exact number rfl ran
  · exact number rfl ran
  · exact number rfl ran
  · exact number rfl ran
  · exact number rfl ran
  · exact number rfl ran
  · obtain ⟨data,read,_⟩ := Parsed.map_eq_done ran
    exact readByteArray_took read
  · obtain ⟨data,read,_⟩ := Parsed.map_eq_done ran
    exact readIntArray_took read
  · obtain ⟨text,read,_⟩ := Parsed.map_eq_done ran
    obtain ⟨bytes,took,text⟩ := readString_took read
    exact ⟨bytes,took,.string text⟩
  · exact readList_took sound ran
  · exact readCompound_took sound ran
  · cases ran

theorem parseUnnamedTag_parses (heap : Heap) (fuel : Nat) : ParsesTags (parseUnnamedTag heap fuel) := by
  induction fuel with
  | zero =>
    intro type name before node after ran
    cases ran
  | succ fuel ih =>
    intro type name before node after ran
    obtain ⟨payload,stream,filled,ran⟩ := Parsed.orFail_eq_done (checkedMalloc_eq_done ran)
    split at ran
    next => cases ran
    next clean =>
      cases ran
      exact ⟨not_not.mp clean,parsePayload_took ih filled⟩

/-- Whatever `dec_nbt` returns a tree for is a document of the parser's dialect. -/
theorem decNbt_sound {source rest : List UInt8} {node : NbtNode} (ran : decNbt heap source = .ok node rest) :
    ∃ bytes, source = bytes ++ rest ∧ Document cnbtDialect bytes ∧ bytes.length ≤ noOverflow := by
  unfold decNbt at ran
  split at ran
  next _ stream parsed =>
    cases ran
    obtain ⟨type,named,typed,parsed⟩ := Parsed.orFail_eq_done parsed
    have first := readByte_took typed
    dsimp only at parsed
    split at parsed
    next => cases parsed
    next failed missing =>
      -- the error of the name is still there at the end
      obtain ⟨_,_,parsed,ended⟩ := Parsed.orFail_eq_done parsed
      cases ended
      obtain ⟨clean,_,took,_⟩ := parseUnnamedTag_parses heap _ _ _ _ _ _ parsed
      exact absurd (took.errno clean) (readString_null missing)
    next name inner read =>
      obtain ⟨_,_,parsed,ended⟩ := Parsed.orFail_eq_done parsed
      cases ended
      obtain ⟨front,second,text⟩ := readString_took read
      obtain ⟨_,back,third,payload⟩ := parseUnnamedTag_parses heap _ _ _ _ _ _ parsed
      have whole := first.trans (second.trans third)
      have budget : noOverflow = _ := whole.length
      exact ⟨_ :: (front ++ back),whole.memory,.mk text payload,by rw [budget]; simp⟩
  next => cases ran
  next => cases ran

end Soundness

end CSpock.Nbt
