import CSpock.Nbt.Size
import CSpock.Nbt.Walk

/-! What the encoder writes for a tree is a document, and what the walker makes of it. -/
namespace CSpock.Nbt
open CSpock.Library.Endian CSpock.Numeric

/-- A C string that is not too long to be written. -/
def CText (text : List UInt8) : Prop := 0 ∉ text ∧ text.length ≤ 32767

/-- The entries of a list are of one type; if there is none, the sentinel has one. -/
def Homogenous (sentinel : UInt8) (entries : List NbtNode) : Prop :=
  (entries = [] → sentinel ≠ tagInvalid) ∧ ∀ entry ∈ entries, ∀ other ∈ entries, entry.type = other.type

mutual

/-- The names and the strings of a tree can be written, its lists are homogenous and no length of an array is negative. -/
def NbtNode.Regular : NbtNode → Prop
  | .mk name payload => (∀ text ∈ name, CText text) ∧ payload.Regular

def NbtPayload.Regular : NbtPayload → Prop
  | .tagString text => CText text
  | .tagList type entries => Homogenous type entries ∧ RegularEntries entries
  | .tagCompound entries => RegularEntries entries
  | .tagNegativeIntArray _ _ => False
  | _ => True

def RegularEntries : List NbtNode → Prop
  | [] => True
  | entry::entries => entry.Regular ∧ RegularEntries entries

end

mutual

def NbtNode.longestList : NbtNode → Nat
  | .mk _ payload => payload.longestList

def NbtPayload.longestList : NbtPayload → Nat
  | .tagList _ entries => max entries.length (longestIn entries)
  | .tagCompound entries => longestIn entries
  | _ => 0

def longestIn : List NbtNode → Nat
  | [] => 0
  | entry::entries => max entry.longestList (longestIn entries)

end

@[simp] theorem Dump.append_andThen (front back : List UInt8) :
    (Dump.append front).andThen (.append back) = .append (front ++ back) := rfl

theorem cString_eq {text : List UInt8} (ended : 0 ∉ text) : cString text = text := by
  rw [cString,List.takeWhile_eq_self_iff]
  intro byte member
  rw [bne_iff_ne]
  exact ne_of_mem_of_not_mem member ended

theorem dumpStringBinary_text {text : List UInt8} (written : CText text) :
    ∃ bytes, dumpStringBinary text = .append bytes ∧ Text walkDialect bytes := by
  obtain ⟨ended,short⟩ := written
  refine ⟨bigEndian 2 text.length ++ text,?_,.mk (length_bigEndian ..) ?_ (Nat.le_trans short (by decide))⟩
  · simp only [dumpStringBinary,cString_eq ended]
    rw [if_neg (by omega)]
  · rw [value_bigEndian]
    omega

theorem listIsHomogenous_cons {sentinel : UInt8} {first : NbtNode} {rest : List NbtNode}
    (alike : ∀ entry ∈ rest, entry.type = first.type) : listIsHomogenous sentinel (first::rest) = first.type := by
  have same : rest.all (·.type == first.type) = true := by
    rw [List.all_eq_true]
    intro entry member
    rw [beq_iff_eq,alike entry member]
  rw [listIsHomogenous,if_pos same]

theorem NbtPayload.type_live (payload : NbtPayload) : payload.type ≠ tagInvalid := by
  cases payload <;> (rw [NbtPayload.type]; decide)

theorem Homogenous.type {sentinel : UInt8} {entries : List NbtNode} (same : Homogenous sentinel entries) :
    ∃ type, type ≠ tagInvalid ∧ listIsHomogenous sentinel entries = type ∧ ∀ entry ∈ entries, entry.type = type := by
  cases entries with
  | nil => exact ⟨sentinel,same.1 rfl,rfl,by simp⟩
  | cons first rest =>
    have alike : ∀ entry ∈ first::rest, entry.type = first.type := fun entry member =>
      same.2 entry member first List.mem_cons_self
    exact ⟨first.type,first.payload.type_live,
      listIsHomogenous_cons fun entry member => alike entry (List.mem_cons_of_mem _ member),alike⟩

theorem listCount_bigEndian {count : Nat} (few : count ≤ 2147483647) : listCount (bigEndian 4 count) = count := by
  rw [listCount,value_bigEndian,Nat.mod_eq_of_lt (by omega),toInt_toInt32,UInt32.toNat_ofNat',
    Nat.mod_eq_of_lt (by omega),cInt_natCast (by omega),Int.toNat_natCast]

mutual

/-- A payload is written to its end, and what is written is one: with 2^31 bytes or more an array could be too
long for its header. -/
theorem dumpPayload_parses : (payload : NbtPayload) → payload.Formed → payload.Regular →
    payload.longestList ≤ 2147483647 → ∃ bytes, dumpPayload payload = .append bytes ∧
      (bytes.length < 2^31 → Parses walkDialect (.payload payload.type) bytes)
  | .tagByte value,_,_,_ => ⟨_,by rw [dumpPayload],fun _ => .scalar rfl⟩
  | .tagShort value,_,_,_ => ⟨_,by rw [dumpPayload],fun _ => .scalar (by rw [length_bigEndian]; rfl)⟩
  | .tagInt value,_,_,_ => ⟨_,by rw [dumpPayload],fun _ => .scalar (by rw [length_bigEndian]; rfl)⟩
  | .tagLong value,_,_,_ => ⟨_,by rw [dumpPayload],fun _ => .scalar (by rw [length_bigEndian]; rfl)⟩
  | .tagFloat pattern,_,_,_ => ⟨_,by rw [dumpPayload],fun _ => .scalar (by rw [length_bigEndian]; rfl)⟩
  | .tagDouble pattern,_,_,_ => ⟨_,by rw [dumpPayload],fun _ => .scalar (by rw [length_bigEndian]; rfl)⟩
  | .tagByteArray data,_,_,_ => by
    refine ⟨_,by rw [dumpPayload,dumpByteArrayBinary],fun small => ?_⟩
    rw [List.length_append,length_bigEndian] at small
    have unit : arrayUnit walkDialect tagByteArray = some 1 := rfl
    refine .array unit (length_bigEndian ..) ?_
    rw [value_bigEndian]
    omega
  | .tagIntArray data,_,_,_ => by
    refine ⟨_,by rw [dumpPayload,dumpIntArrayBinary],fun small => ?_⟩
    rw [List.length_append,length_bigEndian,length_flatMap_bigEndian] at small
    have unit : arrayUnit walkDialect tagIntArray = some 4 := rfl
    refine .array unit (length_bigEndian ..) ?_
    rw [value_bigEndian,length_flatMap_bigEndian]
    omega
  | .tagString text,_,regular,_ => by
    obtain ⟨bytes,written,parses⟩ := dumpStringBinary_text regular
    exact ⟨bytes,by rw [dumpPayload,written],fun _ => .string parses⟩
  | .tagList sentinel entries,formed,regular,few => by
    obtain ⟨type,live,uniform,alike⟩ := regular.1.type
    simp only [NbtPayload.longestList,Nat.max_le] at few
    obtain ⟨bytes,written,parses⟩ := dumpElements_parses type entries formed regular.2 few.2 alike
    refine ⟨type :: (bigEndian 4 entries.length ++ bytes),?_,fun small => ?_⟩
    · rw [dumpPayload,uniform]
      simp only [if_neg live,written,Dump.append_andThen,List.cons_append]
      rw [if_neg (by omega)]
    · rw [List.length_cons,List.length_append] at small
      refine .list (length_bigEndian ..) ?_
      rw [listCount_bigEndian few.1]
      exact parses (by omega)
  | .tagCompound entries,formed,regular,few => by
    obtain ⟨bytes,written,parses⟩ := dumpMembers_parses entries formed regular few
    refine ⟨bytes ++ [0],by rw [dumpPayload,written,Dump.append_andThen],fun small => .compound (parses ?_)⟩
    rw [List.length_append] at small
    omega

theorem dumpElements_parses (type : UInt8) : (entries : List NbtNode) → FormedEntries false entries →
    RegularEntries entries → longestIn entries ≤ 2147483647 → (∀ entry ∈ entries, entry.type = type) →
    ∃ bytes, dumpEntries false entries = .append bytes ∧
      (bytes.length < 2^31 → Parses walkDialect (.elements type entries.length) bytes)
  | [],_,_,_,_ => ⟨[],by rw [dumpEntries],fun _ => .none⟩
  | .mk name payload :: entries,formed,regular,few,alike => by
    simp only [longestIn,NbtNode.longestList,Nat.max_le] at few
    obtain ⟨first,head,one⟩ := dumpPayload_parses payload formed.1.2 regular.1.2 few.1
    obtain ⟨rest,tail,others⟩ := dumpElements_parses type entries formed.2 regular.2 few.2
      (fun entry member => alike entry (List.mem_cons_of_mem _ member))
    have same : payload.type = type := alike _ List.mem_cons_self
    have unnamed : name = none := by simpa using formed.1.1
    refine ⟨first ++ rest,by simp [dumpEntries,dumpBinary,unnamed,head,tail],fun small => ?_⟩
    rw [List.length_append] at small
    exact .element (same ▸ one (by omega)) (others (by omega))

theorem dumpMembers_parses : (entries : List NbtNode) → FormedEntries true entries →
    RegularEntries entries → longestIn entries ≤ 2147483647 → ∃ bytes, dumpEntries true entries = .append bytes ∧
      (bytes.length < 2^31 → Parses walkDialect .members (bytes ++ [0]))
  | [],_,_,_ => ⟨[],by rw [dumpEntries],fun _ => .close⟩
  | .mk name payload :: entries,formed,regular,few => by
    simp only [longestIn,NbtNode.longestList,Nat.max_le] at few
    obtain ⟨first,head,one⟩ := dumpPayload_parses payload formed.1.2 regular.1.2 few.1
    obtain ⟨rest,tail,others⟩ := dumpMembers_parses entries formed.2 regular.2 few.2
    obtain ⟨text,named⟩ := Option.isSome_iff_exists.mp formed.1.1
    obtain ⟨label,written,parses⟩ := dumpStringBinary_text (regular.1.1 text named)
    refine ⟨payload.type :: (label ++ (first ++ rest)),by simp [dumpEntries,dumpBinary,named,written,head,tail],
      fun small => ?_⟩
    simp only [List.length_cons,List.length_append] at small
    simp only [List.cons_append,List.append_assoc]
    exact .member payload.type_live parses (one (by omega)) (others (by omega))

end

/-- The walker passes over what is written for a tree, if none of its lists is too long to be written. -/
theorem walkNbt_encNbt {tree : NbtNode} (formed : tree.Formed true) (regular : tree.Regular)
    (few : tree.longestList ≤ 2147483647) : ∃ bytes, encNbt (some tree) = some bytes ∧
      ∀ rest maxLen, bytes.length ≤ maxLen → maxLen < 2^31 → walkNbt (bytes ++ rest) maxLen = some (bytes.length : Int) := by
  obtain ⟨name,payload⟩ := tree
  obtain ⟨text,rfl⟩ := Option.isSome_iff_exists.mp formed.1
  obtain ⟨label,written,parses⟩ := dumpStringBinary_text (regular.1 text rfl)
  obtain ⟨body,inner,one⟩ := dumpPayload_parses payload formed.2 regular.2 few
  have dump : dumpBinary true (.mk (some text) payload) = .append (payload.type :: (label ++ body)) := by
    simp [dumpBinary,written,inner]
  refine ⟨payload.type :: (label ++ body),by simp [encNbt,nbtDumpBinary,dump,Dump.append],fun rest maxLen fits small => ?_⟩
  have document : Document walkDialect (payload.type :: (label ++ body)) := by
    refine .mk parses (one ?_)
    simp only [List.length_cons,List.length_append] at fits
    omega
  rw [walkNbt_document document rest maxLen small,verdict_of_le fits]

theorem emptyListTree_regular : emptyListTree.Regular :=
  ⟨by simp [CText],⟨by simp [CText],⟨fun _ => by decide,by simp⟩,trivial⟩,trivial⟩

theorem walkNbt_encNbt_emptyList : ∃ bytes, encNbt (some emptyListTree) = some bytes ∧
    ∀ rest maxLen, bytes.length ≤ maxLen → maxLen < 2^31 → walkNbt (bytes ++ rest) maxLen = some (bytes.length : Int) :=
  walkNbt_encNbt ⟨rfl,⟨rfl,trivial⟩,trivial⟩ emptyListTree_regular (by decide)

def zeroByte : NbtNode := .mk none (.tagByte 0)

theorem formed_replicate (count : Nat) : FormedEntries false (List.replicate count zeroByte) := by
  induction count with
  | zero => trivial
  | succ count ih => exact ⟨⟨rfl,trivial⟩,ih⟩

theorem regular_replicate (count : Nat) : RegularEntries (List.replicate count zeroByte) := by
  induction count with
  | zero => trivial
  | succ count ih => exact ⟨⟨by simp,trivial⟩,ih⟩

/-- The dump of a list of 2^31 bytes stops behind its name, and what there is of it is written. -/
theorem walkNbt_encNbt_fails : ¬∀ tree : NbtNode, tree.Formed true → tree.Regular →
    ∃ bytes, encNbt (some tree) = some bytes ∧ ∀ rest maxLen, bytes.length ≤ maxLen → maxLen < 2^31 →
      walkNbt (bytes ++ rest) maxLen = some (bytes.length : Int) := by
  intro passes
  obtain ⟨entries,length,formed,regular,alike⟩ : ∃ entries : List NbtNode, entries.length = 2^31 ∧
      FormedEntries false entries ∧ RegularEntries entries ∧ Homogenous tagByte entries := by
    refine ⟨List.replicate (2^31) zeroByte,List.length_replicate,formed_replicate _,regular_replicate _,
      fun _ => by decide,fun entry member other again => ?_⟩
    rw [List.eq_of_mem_replicate member,List.eq_of_mem_replicate again]
  obtain ⟨bytes,written,walks⟩ := passes (.mk (some []) (.tagCompound [.mk (some [97]) (.tagList tagByte entries)]))
    ⟨rfl,⟨rfl,formed⟩,trivial⟩ ⟨by simp [CText],⟨by simp [CText],alike,regular⟩,trivial⟩
  have cut : dumpPayload (.tagList tagByte entries) = ⟨[],.err⟩ := by
    simp only [dumpPayload]
    rw [if_pos (by omega)]
  have empty : dumpStringBinary [] = .append [0,0] := by decide
  have letter : dumpStringBinary [97] = .append [0,1,97] := by decide
  have member : dumpBinary true (.mk (some [97]) (.tagList tagByte entries)) = ⟨[9,0,1,97],.err⟩ := by
    simp [dumpBinary,letter,cut,Dump.andThen,Dump.append,NbtPayload.type]
  have members : dumpEntries true [.mk (some [97]) (.tagList tagByte entries)] = ⟨[9,0,1,97],.err⟩ := by
    simp [dumpEntries,member,Dump.andThen]
  have root : encNbt (some (.mk (some []) (.tagCompound [.mk (some [97]) (.tagList tagByte entries)]))) =
      some [10,0,0,9,0,1,97] := by
    simp [encNbt,nbtDumpBinary,dumpBinary,dumpPayload,empty,members,Dump.andThen,Dump.append,NbtPayload.type]
  obtain rfl := Option.some.inj (root.symm.trans written)
  have passed := walks [] 7 (by decide) (by decide)
  have refused : walkNbt ([10,0,0,9,0,1,97] ++ []) 7 = some (-1) := by decide +kernel
  rw [refused] at passed
  contradiction

end CSpock.Nbt
