import CSpock.Nbt.Parse
import CSpock.Nbt.Walk

/-! Walk then decode: what `walk_nbt` passes against what `dec_nbt` reads. -/
namespace CSpock.Nbt
open CSpock.Library.Cursor CSpock.Library.Refusal CSpock.Numeric

/-- A document starts no other document of the same buffer. -/
theorem Document.unique {source : List UInt8} {n m : Nat} (first : Document walkDialect (source.take n))
    (second : Document walkDialect (source.take m)) (inside : n ≤ source.length) (within : m ≤ source.length)
    (small : n < 2^31) (less : m < 2^31) : n = m := by
  have walked := walkNbt_document first (source.drop n) (max n m) (by omega)
  have again := walkNbt_document second (source.drop m) (max n m) (by omega)
  rw [List.take_append_drop,List.length_take,Nat.min_eq_left inside,verdict_of_le (by omega)] at walked
  rw [List.take_append_drop,List.length_take,Nat.min_eq_left within,verdict_of_le (by omega)] at again
  have := Option.some.inj (walked.symm.trans again)
  omega

theorem walkNbt_refuses {source : List UInt8} {maxLen : Nat} {ret : Int} (small : maxLen < 2^31)
    (walked : walkNbt source maxLen = some ret) (negative : ret < 0) : ret = -1 := by
  unfold walkNbt at walked
  split at walked
  next => cases walked; rfl
  next room =>
    split at walked
    next type rest read =>
      have one : sizeSub maxLen 1 = maxLen - 1 := sizeSub_natCast (by omega : 1 ≤ maxLen) (by omega)
      rcases walk_cases walked with refused | ⟨step,first,nonneg,walked⟩
      · exact refused
      obtain ⟨name,rfl,named,_⟩ := walkNbtString_sound nonneg first
      rcases walk_cases walked with refused | ⟨step,second,nonneg,walked⟩
      · exact refused
      rw [one] at named
      rw [one,sizeSub_natCast named (by omega)] at second
      obtain ⟨body,rfl,fits,_⟩ := walkUnnamedNbt_sound _ _ _ _ _ second nonneg (by omega)
      have total := Option.some.inj walked
      rw [cInt_of_small (by omega) (by omega)] at total
      omega
    next => cases walked

/-- The walker is complete for the parser, at every bound. -/
theorem decNbt_walked {heap : Heap} {source : List UInt8} {node : NbtNode} {n : Nat}
    (inside : n ≤ source.length) (small : n ≤ 2^30) (parsed : decNbt heap source = .ok node (source.drop n)) :
    (∀ maxLen, n ≤ maxLen → maxLen ≤ 2^30 → walkNbt source maxLen = some (n : Int)) ∧
    (∀ maxLen, maxLen < n → walkNbt source maxLen = some (-1)) ∧
    (∀ maxLen, maxLen < n → ∀ other ret, maxLen ≤ other.length → other.take maxLen = source.take maxLen →
      walkNbt other maxLen = some ret → ret = -1) := by
  obtain ⟨bytes,split,document,_⟩ := decNbt_sound parsed
  have length : bytes.length = n := by
    have total := congrArg List.length split
    rw [List.length_append,List.length_drop] at total
    omega
  have document := document.mono cnbt_within_walk
  have walks (maxLen : Nat) (bound : maxLen ≤ 2^30) : walkNbt source maxLen = some (verdict n maxLen) := by
    have walked := walkNbt_document document (source.drop n) maxLen (by omega)
    rwa [← split,length] at walked
  refine ⟨fun maxLen fits bound => ?_,fun maxLen beyond => ?_,fun maxLen beyond other ret room same walked => ?_⟩
  · rw [walks maxLen bound,verdict_of_le fits]
  · rw [walks maxLen (by omega),verdict_of_lt beyond]
  · rcases Int.lt_or_le ret 0 with negative | accepted
    · exact walkNbt_refuses (by omega) walked negative
    · -- a document inside the bound would start the one that was parsed
      obtain ⟨len,rfl,fits,accepts⟩ := walkNbt_sound accepted (by omega) walked
      have prefixes : other.take len = source.take len := by
        have cut := congrArg (List.take len) same
        rwa [List.take_take,List.take_take,Nat.min_eq_left fits] at cut
      have early := accepts (by omega)
      rw [prefixes] at early
      have late : Document walkDialect (source.take n) := by
        rw [split,← length,List.take_left]
        exact document
      have := early.unique late (by omega) inside (by omega) (by omega)
      omega

/-- A list of a list of a byte, a string and an int array, in a compound whose name is empty. -/
def nestedDocument : List UInt8 :=
  [10,0,0,
    9,0,1,76,9,0,0,0,1,1,0,0,0,1,7,
    8,0,1,83,0,2,104,105,
    11,0,1,65,0,0,0,1,0,0,0,9,
    0]

def nestedTree : NbtNode :=
  .mk (some []) (.tagCompound [
    .mk (some [76]) (.tagList 9 [.mk none (.tagList 1 [.mk none (.tagByte 7)])]),
    .mk (some [83]) (.tagString [104,105]),
    .mk (some [65]) (.tagIntArray [9])])

theorem decNbt_walked_nested :
    (∀ maxLen, 39 ≤ maxLen → maxLen ≤ 2^30 → walkNbt (nestedDocument ++ [7]) maxLen = some ((39 : Nat) : Int)) ∧
    (∀ maxLen, maxLen < 39 → walkNbt (nestedDocument ++ [7]) maxLen = some (-1)) ∧
    (∀ maxLen, maxLen < 39 → ∀ other ret, maxLen ≤ other.length →
      other.take maxLen = (nestedDocument ++ [7]).take maxLen → walkNbt other maxLen = some ret → ret = -1) :=
  @decNbt_walked .plenty (nestedDocument ++ [7]) nestedTree 39 (by decide) (by decide) rfl

/-- The walker is sound for the parser exactly on the buffers in which no document
that the walker knows has a long array or a string of more than 32767 bytes. -/
theorem walkNbt_contract_iff {heap : Heap} (succeeds : heap.Succeeds) {source : List UInt8} {maxLen : Nat}
    (bound : maxLen ≤ 2^30) (inside : maxLen ≤ source.length) :
    (∀ n : Nat, walkNbt source maxLen = some (n : Int) → ∃ node, decNbt heap source = .ok node (source.drop n)) ↔
      ∀ n, n ≤ maxLen → Document walkDialect (source.take n) → Document cnbtDialect (source.take n) := by
  constructor
  · intro decodes n fits document
    have walked := walkNbt_document document (source.drop n) maxLen (by omega)
    rw [List.take_append_drop,List.length_take,Nat.min_eq_left (by omega),verdict_of_le fits] at walked
    obtain ⟨node,parsed⟩ := decodes n walked
    obtain ⟨bytes,split,read,_⟩ := decNbt_sound parsed
    have same : source.take n = bytes := by
      have total := congrArg List.length split
      rw [List.length_append,List.length_drop] at total
      have length : bytes.length = n := by omega
      rw [split,← length,List.take_left]
    rwa [same]
  · intro readable n walked
    obtain ⟨len,same,fits,accepts⟩ := walkNbt_sound (Int.natCast_nonneg n) (by omega) walked
    obtain rfl : n = len := by omega
    have short : (source.take n).length ≤ noOverflow := by
      rw [List.length_take]
      unfold noOverflow
      omega
    obtain ⟨node,reads⟩ := decNbt_document succeeds (readable n fits (accepts (by omega))) short
    exact ⟨node,reads.at_drop⟩

theorem walkNbt_contract_iff_nested :
    (∀ n : Nat, walkNbt nestedDocument 39 = some (n : Int) →
      ∃ node, decNbt .plenty nestedDocument = .ok node (nestedDocument.drop n)) ↔
    ∀ n, n ≤ 39 → Document walkDialect (nestedDocument.take n) → Document cnbtDialect (nestedDocument.take n) :=
  walkNbt_contract_iff Heap.plenty_succeeds (by decide) (by decide)

/-- A compound whose one member is an empty long array named "a". -/
def longArrayDocument : List UInt8 := [10,0,0,12,0,1,97,0,0,0,0,0]

theorem walkNbt_contract_fails : ¬ ∀ (heap : Heap) (source : List UInt8) (maxLen n : Nat), heap.Succeeds →
    maxLen ≤ 2^30 → maxLen ≤ source.length → walkNbt source maxLen = some (n : Int) →
    ∃ node, decNbt heap source = .ok node (source.drop n) := by
  intro claimed
  obtain ⟨node,parsed⟩ := claimed .plenty longArrayDocument 12 12 Heap.plenty_succeeds (by decide) (by decide) (by decide +kernel)
  have refused : decNbt .plenty longArrayDocument = .null := rfl
  rw [refused] at parsed
  cases parsed

end CSpock.Nbt
