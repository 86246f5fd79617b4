import CSpock.Strings

/-! Item tags: an array of named arrays of numbers, whose two levels are allocated one by one. -/
namespace CSpock.Itemtag
open CSpock.Library.Cursor CSpock.Library.Refusal CSpock.Numeric CSpock.Varnum CSpock.Strings

structure McItemtag where
  name : Option (List UInt8)
  len : Int32
  entries : List Int32
  deriving Repr, DecidableEq

structure McItemtagArray where
  len : Int32
  tags : List McItemtag
  deriving Repr, DecidableEq

/-- The sizes of a `mc_itemtag` and of one of its entries. -/
def itemtagSize : Nat := 24
def entrySize : Nat := 4

/-- The inner loop of `enc_itemtag_array`, for the entries that are left; `none` is a read behind the array. -/
def encEntries : Nat → List Int32 → Option (List UInt8)
  | 0,_ => some []
  | _+1,[] => none
  | left+1,entry::entries => (encEntries left entries).map (encVarint entry.toUInt32 ++ ·)

def encItemtags : Nat → List McItemtag → Option (List UInt8)
  | 0,_ => some []
  | _+1,[] => none
  | left+1,tag::tags => do
    let name ← encString tag.name
    let entries ← encEntries tag.len.toInt.toNat tag.entries
    let rest ← encItemtags left tags
    some (name ++ (encVarint tag.len.toUInt32 ++ (entries ++ rest)))

def encItemtagArray (source : McItemtagArray) : Option (List UInt8) :=
  (encItemtags source.len.toInt.toNat source.tags).map (encVarint source.len.toUInt32 ++ ·)

def decEntries : Nat → List UInt8 → Decoded (List Int32)
  | 0,source => .ok [] source
  | left+1,source => (decVarint source).andThen fun entry source => (decEntries left source).map (entry :: ·)

/-- The outer loop of `dec_itemtag_array`. The name may come out null. -/
def decItemtags (heap : Heap) : Nat → List UInt8 → Decoded (List McItemtag)
  | 0,source => .ok [] source
  | left+1,source => (decString heap source).andThen fun name source => (decVarint source).andThen fun len source =>
    if heap.malloc .itemtagEntries source (sizeT (len.toInt * entrySize)) then
      (decEntries len.toInt.toNat source).andThen fun entries source =>
        (decItemtags heap left source).map (⟨name,len,entries⟩ :: ·)
    else .null

def decItemtagArray (heap : Heap) (source : List UInt8) : Decoded McItemtagArray :=
  (decVarint source).andThen fun len source =>
    if heap.malloc .itemtags source (sizeT (len.toInt * itemtagSize)) then
      (decItemtags heap len.toInt.toNat source).map fun tags => ⟨len,tags⟩
    else .null

/-- The inner loop of `walk_itemtag_array`, and what comes after it. The cursor stays where it is. -/
def walkEntries (source : List UInt8) (next : Nat → Int → Option Int) : Nat → Nat → Int → Option Int
  | 0,maxLen,size => next maxLen size
  | left+1,maxLen,size => do
    let ret ← walkVarint source maxLen
    if ret < 0 then some ret else walkEntries source next left (sizeSub maxLen ret) (cInt (size + ret))

def walkItemtags : Nat → List UInt8 → Nat → Int → Option Int
  | 0,_,_,size => some size
  | left+1,source,maxLen,size => do
    let ret ← walkString source maxLen
    if ret < 0 then some ret else do
      let maxLen := sizeSub maxLen ret
      let source := source.drop ret.toNat
      let size := cInt (size + ret)
      let ret ← walkVarint source maxLen
      if ret < 0 then some ret else
        match decVarint source with
        | .ok varint source =>
          walkEntries source (fun maxLen size => walkItemtags left source maxLen size) varint.toInt.toNat
            (sizeSub maxLen ret) (cInt (size + ret))
        | _ => none

/-- The count is converted to `size_t`. -/
def walkItemtagArray (source : List UInt8) (maxLen : Nat) : Option Int :=
  if maxLen = 0 then some (-1) else do
    let ret ← walkVarint source maxLen
    if ret < 0 then some ret else
      match decVarint source with
      | .ok varint source => walkItemtags (sizeT varint.toInt) source (sizeSub maxLen ret) ret
      | _ => none

/-! The round trip. -/

theorem decEntries_encEntries (entries : List Int32) : ∃ bytes, encEntries entries.length entries = some bytes ∧
    Reads (decEntries entries.length) bytes entries := by
  induction entries with
  | nil => exact ⟨[],rfl,fun _ => rfl⟩
  | cons entry entries ih =>
    obtain ⟨bytes,written,reads⟩ := ih
    exact ⟨_,by rw [List.length_cons,encEntries,written,Option.map_some],(int32_encVarint entry).andThen (reads.map _)⟩

/-- The arrays are as long as the numbers in front of them say, and the name is not null. -/
structure McItemtag.Filled (tag : McItemtag) : Prop where
  len : tag.len.toInt = tag.entries.length
  name : ∃ name, tag.name = some name ∧ name.length < 2^31

structure McItemtagArray.Filled (array : McItemtagArray) : Prop where
  len : array.len.toInt = array.tags.length
  tags : ∀ tag ∈ array.tags, tag.Filled

theorem decItemtags_encItemtags {heap : Heap} (succeeds : heap.Succeeds) {tags : List McItemtag}
    (filled : ∀ tag ∈ tags, tag.Filled) : ∃ bytes, encItemtags tags.length tags = some bytes ∧
      Reads (decItemtags heap tags.length) bytes tags := by
  induction tags with
  | nil => exact ⟨[],rfl,fun _ => rfl⟩
  | cons tag tags ih =>
    obtain ⟨rest,others,readsRest⟩ := ih fun other member => filled other (List.mem_cons_of_mem _ member)
    obtain ⟨len,body,named,short⟩ := filled tag List.mem_cons_self
    obtain ⟨name,written,text⟩ := encString_prefixed short
    obtain ⟨entries,listed,readsEntries⟩ := decEntries_encEntries tag.entries
    have count : tag.len.toInt.toNat = tag.entries.length := by omega
    refine ⟨name ++ (encVarint tag.len.toUInt32 ++ (entries ++ rest)),?_,?_⟩
    · simp [encItemtags,named,written,count,listed,others]
    · have readsName := named ▸ decString_prefixed succeeds text
      refine readsName.andThen ((int32_encVarint tag.len).andThen fun tail => ?_)
      simp only [succeeds _ _ _,if_true,count]
      exact (readsEntries.andThen (readsRest.map _)) tail

theorem decItemtagArray_encItemtagArray {heap : Heap} (succeeds : heap.Succeeds) {array : McItemtagArray}
    (filled : array.Filled) :
    ∃ bytes, encItemtagArray array = some bytes ∧ Reads (decItemtagArray heap) bytes array := by
  obtain ⟨tags,written,reads⟩ := decItemtags_encItemtags succeeds filled.tags
  have count : array.len.toInt.toNat = array.tags.length := by
    have := filled.len
    omega
  refine ⟨encVarint array.len.toUInt32 ++ tags,by rw [encItemtagArray,count,written,Option.map_some],?_⟩
  refine (int32_encVarint array.len).andThen fun tail => ?_
  simp only [succeeds _ _ _,if_true,count]
  exact reads.map _ tail

def letterTag : McItemtag := ⟨some [0x61],2,[-1,300]⟩

theorem decItemtagArray_encItemtagArray_letter :
    ∃ bytes, encItemtagArray ⟨1,[letterTag]⟩ = some bytes ∧ Reads (decItemtagArray .plenty) bytes ⟨1,[letterTag]⟩ :=
  decItemtagArray_encItemtagArray Heap.plenty_succeeds ⟨rfl,fun tag member => by
    rw [List.mem_singleton.mp member]
    exact ⟨rfl,_,rfl,by decide⟩⟩

/-! The walker against the decoder. -/

/-- The entries that are left, each taken to be as long as the first. -/
def Alike (source : List UInt8) (left size : Nat) : Prop :=
  left = 0 ∧ size = 0 ∨ ∃ entry rest, source = entry ++ rest ∧ Varint entry ∧ size = left * entry.length

/-- The tags that are left, the name of each looked for where the entries of the one in front of it begin.
A name of negative length takes back some of the bytes of its prefix. -/
inductive Counted : Nat → Nat → List UInt8 → Nat → Prop where
  | done (room : Nat) (source : List UInt8) : Counted room 0 source 0
  | tag {room left step size more : Nat} {source header behind number entries : List UInt8}
      (split : source = header ++ behind) (name : Varint header) (inside : header.length ≤ room)
      (passed : (step : Int) = header.length + (varintValue header).toInt)
      (skipped : source.drop step = number ++ entries) (count : Varint number)
      (alike : Alike entries (varintValue number).toInt.toNat size)
      (fits : step + number.length + size ≤ room)
      (tags : Counted (room - (step + number.length + size)) left entries more) :
      Counted room (left+1) source (step + number.length + size + more)

theorem walkEntries_accepts {source : List UInt8} {next : Nat → Int → Option Int} {left maxLen : Nat} {size ret : Int}
    (low : 0 ≤ size) (small : size + maxLen < 2^31) (walked : walkEntries source next left maxLen size = some ret)
    (accepted : 0 ≤ ret) :
    ∃ total, Alike source left total ∧ total ≤ maxLen ∧ next (maxLen - total) (size + total) = some ret := by
  induction left generalizing maxLen size with
  | zero => exact ⟨0,.inl ⟨rfl,rfl⟩,by omega,by simpa [walkEntries] using walked⟩
  | succ left ih =>
    obtain ⟨step,first,nonneg,walked⟩ := walk_handed accepted walked
    obtain ⟨entry,rest,rfl,number,rfl,inside⟩ := walkVarint_accepts first nonneg
    rw [sizeSub_natCast inside (by omega),cInt_of_small (by omega) (by omega)] at walked
    obtain ⟨total,alike,fits,behind⟩ := ih (by omega) (by omega) walked
    have each : total = left * entry.length := by
      rcases alike with ⟨rfl,rfl⟩ | ⟨other,rest',same,again,total⟩
      · simp
      · rw [total,(number.unique again same).1]
    refine ⟨entry.length + total,.inr ⟨entry,rest,rfl,number,by rw [each,Nat.succ_mul,Nat.add_comm]⟩,by omega,?_⟩
    rw [← Nat.sub_sub,Nat.cast_add,← Int.add_assoc]
    exact behind

theorem Alike.walks {source : List UInt8} {left total : Nat} (alike : Alike source left total)
    (next : Nat → Int → Option Int) {maxLen : Nat} {size : Int} (fits : total ≤ maxLen) (low : 0 ≤ size)
    (small : size + maxLen < 2^31) :
    walkEntries source next left maxLen size = next (maxLen - total) (size + total) := by
  rcases alike with ⟨rfl,rfl⟩ | ⟨entry,rest,rfl,number,rfl⟩
  · simp [walkEntries]
  · induction left generalizing maxLen size with
    | zero => simp [walkEntries]
    | succ left ih =>
      rw [Nat.succ_mul] at fits ⊢
      simp only [walkEntries,walkVarint_varint number rest maxLen (by omega),handed_natCast]
      rw [sizeSub_natCast (by omega) (by omega),cInt_of_small (by omega) (by omega),ih (by omega) (by omega) (by omega)]
      congr 1 <;> omega

theorem Counted.le {room left size : Nat} {source : List UInt8} (counted : Counted room left source size) :
    size ≤ room := by
  induction counted with
  | done => omega
  | tag => omega

theorem walkItemtags_accepts {left : Nat} {source : List UInt8} {maxLen : Nat} {size ret : Int} (low : 0 ≤ size)
    (small : size + maxLen < 2^31) (walked : walkItemtags left source maxLen size = some ret) (accepted : 0 ≤ ret) :
    ∃ more : Nat, ret = size + more ∧ Counted maxLen left source more := by
  induction left generalizing source maxLen size with
  | zero =>
    cases walked
    exact ⟨0,by simp,.done _ _⟩
  | succ left ih =>
    obtain ⟨ret,first,nonneg,walked⟩ := walk_handed accepted walked
    obtain ⟨header,behind,split,name,passed,room,inside⟩ := walkString_accepts first nonneg
    obtain ⟨step,rfl⟩ := Int.eq_ofNat_of_zero_le nonneg
    rw [sizeSub_natCast (by omega) (by omega),Int.toNat_natCast,cInt_of_small (by omega) (by omega)] at walked
    obtain ⟨ret,second,nonneg,walked⟩ := walk_handed accepted walked
    obtain ⟨number,entries,skipped,count,rfl,fits⟩ := walkVarint_accepts second nonneg
    simp only [skipped,decVarint_varint count entries] at walked
    rw [sizeSub_natCast fits (by omega),cInt_of_small (by omega) (by omega)] at walked
    obtain ⟨total,alike,enough,walked⟩ := walkEntries_accepts (by omega) (by omega) walked accepted
    obtain ⟨more,sum,counted⟩ := ih (by omega) (by omega) walked
    refine ⟨step + number.length + total + more,by omega,.tag split name inside passed skipped count alike (by omega) ?_⟩
    rwa [← Nat.sub_sub,← Nat.sub_sub]

theorem Counted.walks {room left more : Nat} {source : List UInt8} (counted : Counted room left source more) {size : Int}
    (low : 0 ≤ size) (small : size + room < 2^31) : walkItemtags left source room size = some (size + more) := by
  induction counted generalizing size with
  | done => simp [walkItemtags]
  | @tag room left step total more source header behind number entries split name inside passed skipped count alike
      fits tags ih =>
    have first : walkString source room = some (step : Int) :=
      split ▸ walkString_passes name behind inside (by omega) passed (by omega)
    simp only [walkItemtags,first,handed_natCast]
    rw [sizeSub_natCast (by omega) (by omega),Int.toNat_natCast,cInt_of_small (by omega) (by omega)]
    simp only [skipped,walkVarint_varint count entries _ (show number.length ≤ room - step by omega),handed_natCast,
      decVarint_varint count entries]
    rw [sizeSub_natCast (by omega) (by omega),cInt_of_small (by omega) (by omega),
      alike.walks _ (by omega) (by omega) (by omega)]
    have rest := ih (show 0 ≤ size + step + number.length + total by omega) (by omega)
    rw [← Nat.sub_sub,← Nat.sub_sub] at rest
    rw [rest]
    push_cast
    congr 1
    omega

theorem Alike.append {source : List UInt8} {left size : Nat} (alike : Alike source left size) (tail : List UInt8) :
    Alike (source ++ tail) left size := by
  rcases alike with zero | ⟨entry,rest,rfl,number,total⟩
  · exact .inl zero
  · exact .inr ⟨entry,rest ++ tail,List.append_assoc ..,number,total⟩

theorem Counted.append {room left size : Nat} {source : List UInt8} (counted : Counted room left source size)
    (tail : List UInt8) {more : Nat} (wider : room ≤ more) : Counted more left (source ++ tail) size := by
  induction counted generalizing more with
  | done => exact .done _ _
  | @tag room left step total size source header behind number entries split name inside passed skipped count alike
      fits tags ih =>
    have length := congrArg List.length skipped
    have nonempty := count.length_pos
    rw [List.length_drop,List.length_append] at length
    have front : source ++ tail = header ++ (behind ++ tail) := by rw [split,List.append_assoc]
    have back : (source ++ tail).drop step = number ++ (entries ++ tail) := by
      rw [List.drop_append_of_le_length (by omega),skipped,List.append_assoc]
    exact .tag front name (by omega) passed back count (alike.append tail) (by omega) (ih (by omega))

theorem walkItemtagArray_accepts {source : List UInt8} {maxLen : Nat} {ret : Int} (small : maxLen < 2^31)
    (walked : walkItemtagArray source maxLen = some ret) (accepted : 0 ≤ ret) :
    ∃ header rest size, source = header ++ rest ∧ Varint header ∧ header.length ≤ maxLen ∧
      ret = ((header.length + size : Nat) : Int) ∧
      Counted (maxLen - header.length) (sizeT (varintValue header).toInt) rest size := by
  rw [walkItemtagArray] at walked
  split at walked
  next => cases walked; omega
  next =>
    obtain ⟨ret,first,nonneg,walked⟩ := walk_handed accepted walked
    obtain ⟨header,rest,rfl,number,rfl,inside⟩ := walkVarint_accepts first nonneg
    simp only [decVarint_varint number rest] at walked
    rw [sizeSub_natCast inside (by omega)] at walked
    obtain ⟨size,total,counted⟩ := walkItemtags_accepts (by omega) (by omega) walked accepted
    exact ⟨header,rest,size,rfl,number,inside,by rw [total,Nat.cast_add],counted⟩

theorem Counted.walksArray {header rest : List UInt8} {maxLen size : Nat} (number : Varint header)
    (inside : header.length ≤ maxLen) (small : maxLen < 2^31)
    (counted : Counted (maxLen - header.length) (sizeT (varintValue header).toInt) rest size) :
    walkItemtagArray (header ++ rest) maxLen = some ((header.length + size : Nat) : Int) := by
  have nonempty := number.length_pos
  simp only [walkItemtagArray,walkVarint_varint number rest maxLen inside,handed_natCast,decVarint_varint number rest]
  rw [if_neg (by omega),sizeSub_natCast inside (by omega),counted.walks (by omega) (by omega),Nat.cast_add]

inductive HeldEntries : Nat → List UInt8 → Prop where
  | done : HeldEntries 0 []
  | entry {left : Nat} {entry rest : List UInt8} {number : Int32} (reads : Reads decVarint entry number)
      (entries : HeldEntries left rest) : HeldEntries (left+1) (entry ++ rest)

inductive Held : Nat → List UInt8 → Prop where
  | done : Held 0 []
  | tag {left : Nat} {header body number entries rest : List UInt8} {len count : Int32}
      (name : Reads decVarint header len) (size : len.toInt = body.length) (reads : Reads decVarint number count)
      (listed : HeldEntries count.toInt.toNat entries) (tags : Held left rest) :
      Held (left+1) ((header ++ body) ++ (number ++ (entries ++ rest)))

theorem HeldEntries.reads {left : Nat} {bytes : List UInt8} (held : HeldEntries left bytes) :
    ∃ entries, Reads (decEntries left) bytes entries := by
  induction held with
  | done => exact ⟨[],fun _ => rfl⟩
  | entry reads _ ih =>
    obtain ⟨entries,others⟩ := ih
    exact ⟨_,reads.andThen (others.map _)⟩

theorem decEntries_took {left : Nat} {source rest : List UInt8} {entries : List Int32}
    (ran : decEntries left source = .ok entries rest) : ∃ bytes, source = bytes ++ rest ∧ HeldEntries left bytes := by
  induction left generalizing source entries with
  | zero =>
    cases ran
    exact ⟨[],rfl,.done⟩
  | succ left ih =>
    obtain ⟨number,middle,first,ran⟩ := Decoded.andThen_eq_ok ran
    obtain ⟨others,tail,_⟩ := Decoded.map_eq_ok ran
    obtain ⟨entry,rfl,_,reads⟩ := decVarint_eq_ok first
    obtain ⟨bytes,rfl,held⟩ := ih tail
    exact ⟨entry ++ bytes,by rw [List.append_assoc],.entry reads held⟩

theorem Held.reads {heap : Heap} (succeeds : heap.Succeeds) {left : Nat} {bytes : List UInt8} (held : Held left bytes) :
    ∃ tags, Reads (decItemtags heap left) bytes tags := by
  induction held with
  | done => exact ⟨[],fun _ => rfl⟩
  | @tag left header body number entries rest len count name size reads listed _ ih =>
    obtain ⟨tags,others⟩ := ih
    obtain ⟨numbers,each⟩ := listed.reads
    refine ⟨⟨some body,count,numbers⟩::tags,
      (decString_reads succeeds name size).andThen (reads.andThen fun tail => ?_)⟩
    simp only [succeeds _ _ _,if_true]
    exact (each.andThen (others.map _)) tail

theorem decItemtags_took {heap : Heap} (succeeds : heap.Succeeds) {left : Nat} {source rest : List UInt8}
    {tags : List McItemtag} (ran : decItemtags heap left source = .ok tags rest) :
    ∃ bytes, source = bytes ++ rest ∧ Held left bytes := by
  induction left generalizing source tags with
  | zero =>
    cases ran
    exact ⟨[],rfl,.done⟩
  | succ left ih =>
    obtain ⟨name,middle,text,ran⟩ := Decoded.andThen_eq_ok ran
    obtain ⟨count,behind,counted,ran⟩ := Decoded.andThen_eq_ok ran
    simp only [succeeds _ _ _,if_true] at ran
    obtain ⟨entries,after,listed,ran⟩ := Decoded.andThen_eq_ok ran
    obtain ⟨others,more,_⟩ := Decoded.map_eq_ok ran
    obtain ⟨header,body,len,rfl,prefixed,size⟩ := decString_took succeeds text
    obtain ⟨number,rfl,_,reads⟩ := decVarint_eq_ok counted
    obtain ⟨bytes,rfl,each⟩ := decEntries_took listed
    obtain ⟨run,rfl,held⟩ := ih more
    exact ⟨_,by simp only [List.append_assoc],.tag prefixed size reads each held⟩

/-- None of the counts and the lengths of names that the decoder comes across is negative. -/
def NonNegativeTags : Nat → List UInt8 → Prop
  | 0,_ => True
  | left+1,source => ∀ len behind, decVarint source = .ok len behind → 0 ≤ len.toInt ∧
      ∀ count rest, decVarint (behind.drop len.toInt.toNat) = .ok count rest → 0 ≤ count.toInt ∧
        ∀ entries after, decEntries count.toInt.toNat rest = .ok entries after → NonNegativeTags left after

def NonNegative (source : List UInt8) : Prop :=
  ∀ len behind, decVarint source = .ok len behind → 0 ≤ len.toInt ∧ NonNegativeTags len.toInt.toNat behind

theorem NonNegative.count {header rest : List UInt8} (natural : NonNegative (header ++ rest)) (number : Varint header) :
    sizeT (varintValue header).toInt = (varintValue header).toInt.toNat := by
  have low := (natural _ _ (decVarint_varint number rest)).1
  have range := toInt_lt (varintValue header)
  have exact := sizeT_of_nonneg low (by omega)
  omega

/-- What is counted for the tags has to be what they take. -/
theorem walkItemtagArray_agrees {heap : Heap} (succeeds : heap.Succeeds) {source : List UInt8} {maxLen : Nat}
    (inside : maxLen ≤ source.length) (small : maxLen < 2^31) (natural : NonNegative source) :
    (∀ ret, walkItemtagArray source maxLen = some ret → 0 ≤ ret →
        ret ≤ maxLen ∧ ∃ array, decItemtagArray heap source = .ok array (source.drop ret.toNat)) ↔
      ∀ header rest size, source = header ++ rest → Varint header → header.length ≤ maxLen →
        Counted (maxLen - header.length) (varintValue header).toInt.toNat rest size →
        Held (varintValue header).toInt.toNat (rest.take size) := by
  constructor
  · rintro agrees header rest size rfl number fits counted
    rw [← natural.count number] at counted
    obtain ⟨_,array,read⟩ := agrees _ (counted.walksArray number fits small) (by omega)
    simp only [decItemtagArray,decVarint_varint number rest,Decoded.andThen_ok,succeeds _ _ _,if_true] at read
    obtain ⟨tags,looped,_⟩ := Decoded.map_eq_ok read
    rw [Int.toNat_natCast,List.drop_length_add_append] at looped
    obtain ⟨bytes,split,held⟩ := decItemtags_took succeeds looped
    have same := (List.take_append_drop size rest).trans split
    rwa [List.append_cancel_right same]
  · intro right ret walked accepted
    obtain ⟨header,rest,size,rfl,number,fits,rfl,counted⟩ := walkItemtagArray_accepts small walked accepted
    rw [natural.count number] at counted
    have bound := counted.le
    obtain ⟨tags,reads⟩ := (right header rest size rfl number fits counted).reads succeeds
    refine ⟨by omega,⟨varintValue header,tags⟩,?_⟩
    rw [Int.toNat_natCast,List.drop_length_add_append]
    simp only [decItemtagArray,decVarint_varint number rest,Decoded.andThen_ok,succeeds _ _ _,if_true,reads.at_drop,
      Decoded.map_ok]

theorem encItemtagArray_eq_some {array : McItemtagArray} {bytes : List UInt8} (low : 0 ≤ array.len.toInt)
    (written : encItemtagArray array = some bytes) :
    ∃ body, bytes = encVarint array.len.toUInt32 ++ body ∧ encItemtags array.len.toInt.toNat array.tags = some body ∧
      sizeT (varintValue (encVarint array.len.toUInt32)).toInt = array.len.toInt.toNat := by
  obtain ⟨body,looped,rfl⟩ := Option.map_eq_some_iff.mp written
  have range := toInt_lt array.len
  have exact := sizeT_of_nonneg low (by omega)
  refine ⟨body,rfl,looped,?_⟩
  rw [varintValue_encVarint]
  have same : array.len.toUInt32.toInt32 = array.len := by simp
  rw [same]
  omega

theorem walkItemtagArray_passes {array : McItemtagArray} {bytes : List UInt8} (low : 0 ≤ array.len.toInt)
    (written : encItemtagArray array = some bytes) :
    (∀ rest maxLen, bytes.length ≤ maxLen → maxLen < 2^31 →
        walkItemtagArray (bytes ++ rest) maxLen = some (bytes.length : Int)) ↔
      2^31 ≤ bytes.length ∨ ∃ body, bytes = encVarint array.len.toUInt32 ++ body ∧
        Counted body.length array.len.toInt.toNat body body.length := by
  obtain ⟨body,rfl,_,count⟩ := encItemtagArray_eq_some low written
  have header := encVarint_varint array.len.toUInt32
  rw [List.length_append]
  constructor
  · intro passes
    rcases Nat.lt_or_ge ((encVarint array.len.toUInt32).length + body.length) (2^31) with short | long
    · refine .inr ⟨body,rfl,?_⟩
      have walked := passes [] _ le_rfl short
      rw [List.append_nil] at walked
      obtain ⟨other,rest,size,same,number,_,total,counted⟩ := walkItemtagArray_accepts short walked (by omega)
      obtain ⟨rfl,rfl⟩ := header.unique number same
      have all : size = body.length := by omega
      rwa [all,count,Nat.add_sub_cancel_left] at counted
    · exact .inl long
  · rintro (long | ⟨other,same,counted⟩) rest maxLen fits small
    · omega
    · obtain rfl := List.append_cancel_left same
      rw [List.append_assoc]
      refine Counted.walksArray header (by omega) small ?_
      rw [count]
      exact counted.append rest (by omega)

end CSpock.Itemtag
