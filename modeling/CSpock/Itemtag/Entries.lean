import CSpock.Itemtag

/-! Item tags of which no other than the last has entries. Every entry is counted as long
as the first, and behind entries the walker looks for the next name in the wrong place. -/
namespace CSpock.Itemtag
open CSpock.Library.Cursor CSpock.Numeric CSpock.Varnum CSpock.Strings

/-- So many numbers end in these bytes, the last of them with the last byte. -/
structure Numbers (count : Nat) (bytes : List UInt8) : Prop where
  ends : bytes.countP (·.toNat < 128) = count
  last : ∀ last ∈ bytes.getLast?, last.toNat < 128

theorem countP_unended {front : List UInt8} (unended : Unended front) : front.countP (·.toNat < 128) = 0 := by
  rw [List.countP_eq_zero]
  intro byte member
  have set := unended byte member
  simpa using set

theorem numbers_succ {front rest : List UInt8} (unended : Unended front) {last : UInt8} (clear : last.toNat < 128)
    {count : Nat} : Numbers (count+1) (front ++ last::rest) ↔ Numbers count rest := by
  have split : (front ++ last::rest).countP (·.toNat < 128) = rest.countP (·.toNat < 128) + 1 := by
    rw [List.countP_append,countP_unended unended,List.countP_cons_of_pos (by simpa using clear),Nat.zero_add]
  constructor
  · intro numbers
    refine ⟨by have := numbers.ends; omega,fun other member => numbers.last other ?_⟩
    cases rest with
    | nil => cases member
    | cons => simpa using member
  · intro numbers
    refine ⟨by rw [split,numbers.ends],fun other member => ?_⟩
    cases rest with
    | nil =>
      obtain rfl : last = other := by simpa using member
      exact clear
    | cons => exact numbers.last other (by simpa using member)

theorem first_ended {bytes : List UInt8} (some_end : 0 < bytes.countP (·.toNat < 128)) :
    ∃ front last rest, bytes = front ++ last::rest ∧ Unended front ∧ last.toNat < 128 := by
  induction bytes with
  | nil => cases some_end
  | cons byte bytes ih =>
    by_cases clear : byte.toNat < 128
    · exact ⟨[],byte,bytes,rfl,List.forall_mem_nil _,clear⟩
    · rw [List.countP_cons_of_neg (by simpa using clear)] at some_end
      obtain ⟨front,last,rest,rfl,unended,below⟩ := ih some_end
      exact ⟨byte::front,last,rest,rfl,List.forall_mem_cons.mpr ⟨by omega,unended⟩,below⟩

theorem heldEntries_iff {count : Nat} {bytes : List UInt8} : HeldEntries count bytes ↔ Numbers count bytes := by
  constructor
  · intro held
    induction held with
    | done => exact ⟨rfl,nofun⟩
    | entry reads _ ih =>
      obtain ⟨front,last,rfl,unended,clear⟩ := decVarint_took reads
      rw [List.append_assoc,List.singleton_append,numbers_succ unended clear]
      exact ih
  · intro numbers
    induction count generalizing bytes with
    | zero =>
      rcases bytes.eq_nil_or_concat with rfl | ⟨front,last,rfl⟩
      · exact .done
      · have clear := numbers.last last (by simp)
        have ends := numbers.ends
        simp [clear] at ends
    | succ count ih =>
      obtain ⟨front,last,rest,rfl,unended,clear⟩ := first_ended (by rw [numbers.ends]; omega)
      obtain ⟨number,reads⟩ := decVarint_ended unended clear
      rw [numbers_succ unended clear] at numbers
      rw [List.append_cons]
      exact .entry reads (ih numbers)

/-! What is counted for tags that are there, and what they take. -/

theorem alike_none {source : List UInt8} {size : Nat} : Alike source 0 size ↔ size = 0 := by
  constructor
  · rintro (⟨_,zero⟩ | ⟨_,_,_,_,zero⟩)
    · exact zero
    · simpa using zero
  · exact fun zero => .inl ⟨rfl,zero⟩

section
variable {body name number tail : List UInt8} {left : Nat}

theorem counted_tag (prefixed : Prefixed body name) (count : Varint number) {room size : Nat} :
    Counted room (left+1) (name ++ (number ++ tail)) size ↔
      ∃ total more, size = name.length + number.length + total + more ∧
        Alike tail (varintValue number).toInt.toNat total ∧ name.length + number.length + total ≤ room ∧
        Counted (room - (name.length + number.length + total)) left tail more := by
  obtain @⟨header,start,length⟩ := prefixed
  have whole : (header ++ body).length = header.length + body.length := List.length_append
  constructor
  · intro counted
    generalize bytes : (header ++ body) ++ _ = source at counted
    cases counted with
    | @tag _ _ step total more _ other behind number' entries' split name' inside passed skipped count' alike fits tags =>
      rw [← bytes,List.append_assoc] at split
      obtain ⟨rfl,_⟩ := start.unique name' split
      have all : step = (header ++ body).length := by omega
      rw [← bytes,all,List.drop_left] at skipped
      obtain ⟨rfl,rfl⟩ := count.unique count' skipped
      exact ⟨total,more,by rw [all],alike,by omega,all ▸ tags⟩
  · rintro ⟨total,more,rfl,alike,fits,tags⟩
    refine .tag (List.append_assoc ..) start (by omega) ?_ List.drop_left count alike fits tags
    rw [whole,length,Nat.cast_add]

theorem held_tag (prefixed : Prefixed body name) (count : Varint number) :
    Held (left+1) (name ++ (number ++ tail)) ↔ ∃ entries rest, tail = entries ++ rest ∧
      HeldEntries (varintValue number).toInt.toNat entries ∧ Held left rest := by
  obtain @⟨header,start,length⟩ := prefixed
  have first := decVarint_varint start
  constructor
  · intro held
    generalize bytes : (header ++ body) ++ _ = source at held
    cases held with
    | @tag _ header' body' number' entries rest len count' name' size reads listed tags =>
      rw [List.append_assoc,List.append_assoc] at bytes
      obtain ⟨rfl,rfl,behind⟩ := first.same name' bytes
      obtain ⟨rfl,after⟩ := List.append_inj behind (by omega)
      obtain ⟨rfl,rfl,rfl⟩ := (decVarint_varint count).same reads after
      exact ⟨entries,rest,rfl,listed,tags⟩
  · rintro ⟨entries,rest,rfl,listed,tags⟩
    exact .tag first length (decVarint_varint count) listed tags

end

inductive Bare : Nat → List UInt8 → Prop where
  | done : Bare 0 []
  | tag {left : Nat} {body name number rest : List UInt8} (prefixed : Prefixed body name) (count : Varint number)
      (empty : (varintValue number).toInt ≤ 0) (tags : Bare left rest) : Bare (left+1) (name ++ (number ++ rest))

namespace Bare
variable {left more : Nat} {front : List UInt8}

theorem snoc (bare : Bare left front) {body name number : List UInt8} (prefixed : Prefixed body name)
    (count : Varint number) (empty : (varintValue number).toInt ≤ 0) : Bare (left+1) (front ++ (name ++ number)) := by
  induction bare with
  | done => simpa using Bare.tag prefixed count empty .done
  | tag first announced none _ ih => simpa using Bare.tag first announced none ih

theorem counted (bare : Bare left front) {tail : List UInt8} {room size : Nat} :
    Counted room (left+more) (front ++ tail) size ↔ ∃ behind, size = front.length + behind ∧ front.length ≤ room ∧
      Counted (room - front.length) more tail behind := by
  induction bare generalizing room size with
  | done => simp
  | @tag left body name number rest prefixed count empty _ ih =>
    have zero : (varintValue number).toInt.toNat = 0 := by omega
    rw [Nat.add_right_comm,List.append_assoc,List.append_assoc,counted_tag prefixed count,zero]
    simp only [alike_none,ih,List.length_append]
    constructor
    · rintro ⟨_,_,rfl,rfl,fits,behind,rfl,inside,tags⟩
      refine ⟨behind,by omega,by omega,?_⟩
      rwa [← Nat.add_assoc,← Nat.sub_sub]
    · rintro ⟨behind,rfl,fits,tags⟩
      refine ⟨0,rest.length + behind,by omega,rfl,by omega,behind,rfl,by omega,?_⟩
      rwa [Nat.add_zero,Nat.sub_sub,Nat.add_assoc]

theorem held (bare : Bare left front) {bytes : List UInt8} : Held (left+more) (front ++ bytes) ↔ Held more bytes := by
  induction bare with
  | done => simp
  | @tag left body name number rest prefixed count empty _ ih =>
    have zero : (varintValue number).toInt.toNat = 0 := by omega
    rw [Nat.add_right_comm,List.append_assoc,List.append_assoc,held_tag prefixed count,zero,← ih]
    constructor
    · rintro ⟨entries,tags,same,listed,held⟩
      cases listed
      rwa [same]
    · exact fun held => ⟨[],_,rfl,.done,held⟩

end Bare

/-- Behind tags without entries a buffer has a tag: so many with those behind it, with its entries from that place on,
so many as announced. -/
inductive TagAt : List UInt8 → Nat → Nat → Nat → List UInt8 → Prop where
  | mk {header front body name number : List UInt8} {left remaining : Nat} (rest : List UInt8) (total : Varint header)
      (bare : Bare left front) (prefixed : Prefixed body name) (count : Varint number)
      (tags : (varintValue header).toInt.toNat = left + remaining) :
      TagAt (header ++ (front ++ (name ++ (number ++ rest)))) remaining
        (header.length + (front.length + (name.length + number.length))) (varintValue number).toInt.toNat rest

/-- No tag but the last one has entries, unless there is no room for them if each is as long as the first one. -/
def Sparse (source : List UInt8) (maxLen : Nat) : Prop :=
  ∀ remaining place len first rest, TagAt source remaining place len (first ++ rest) → 1 < remaining → Varint first →
    place + len * first.length ≤ maxLen → len = 0

/-- So many bytes as there would be if each entry of the last tag were as long as the first one are its entries, if
there is room for them. -/
def EvenWithin (source : List UInt8) (maxLen : Nat) : Prop :=
  ∀ place len first rest, TagAt source 1 place len (first ++ rest) → Varint first →
    place + len * first.length ≤ maxLen → Numbers len ((first ++ rest).take (len * first.length))

theorem evenWithin_of_held {source : List UInt8} {maxLen : Nat}
    (right : ∀ header rest size, source = header ++ rest → Varint header → header.length ≤ maxLen →
      Counted (maxLen - header.length) (varintValue header).toInt.toNat rest size →
      Held (varintValue header).toInt.toNat (rest.take size)) : EvenWithin source maxLen := by
  intro place len first rest tag entry fits
  generalize listed : first ++ rest = entries at tag
  obtain @⟨header,front,body,name,number,left,_,_,total,bare,prefixed,count,tags⟩ := tag
  subst listed
  have alike : Alike (first ++ rest) (varintValue number).toInt.toNat ((varintValue number).toInt.toNat * first.length) :=
    .inr ⟨first,rest,rfl,entry,rfl⟩
  generalize (varintValue number).toInt.toNat * first.length = taken at fits alike
  have held := right header _ (front.length + (name.length + number.length + taken + 0)) rfl total (by omega) (by
    rw [tags,bare.counted]
    exact ⟨_,rfl,by omega,(counted_tag prefixed count).mpr ⟨taken,0,rfl,alike,by omega,.done _ _⟩⟩)
  rw [tags,List.take_length_add_append,bare.held,Nat.add_zero,Nat.add_assoc,List.take_length_add_append,
    List.take_length_add_append,held_tag prefixed count] at held
  obtain ⟨entries,behind,split,held,ended⟩ := held
  cases ended
  rw [List.append_nil] at split
  rw [split,← heldEntries_iff]
  exact held

theorem Counted.held {source header front rest : List UInt8} {left remaining room size maxLen : Nat}
    (sparse : Sparse source maxLen) (even : EvenWithin source maxLen) (natural : NonNegativeTags remaining rest)
    (split : source = header ++ (front ++ rest)) (total : Varint header)
    (tags : (varintValue header).toInt.toNat = left + remaining) (bare : Bare left front)
    (budget : header.length + (front.length + room) ≤ maxLen) (counted : Counted room remaining rest size) :
    Held remaining (rest.take size) := by
  induction counted generalizing front left with
  | done => exact .done
  | @tag room remaining step taken more source' start behind number entries place name inside passed skipped count alike
      fits counted ih =>
    have low := (natural _ _ (by rw [place]; exact decVarint_varint name behind)).1
    obtain ⟨body,rfl,length⟩ : ∃ body, behind = body ++ (number ++ entries) ∧ (varintValue start).toInt = body.length := by
      have stepped : step = start.length + (varintValue start).toInt.toNat := by omega
      have nonempty := count.length_pos
      rw [place,stepped,List.drop_length_add_append] at skipped
      have long := congrArg List.length skipped
      rw [List.length_drop,List.length_append] at long
      refine ⟨behind.take (varintValue start).toInt.toNat,by rw [← skipped,List.take_append_drop],?_⟩
      rw [List.length_take]
      omega
    have text : Prefixed body (start ++ body) := .mk name length
    obtain rfl : step = (start ++ body).length := by
      rw [List.length_append]
      omega
    rw [← List.append_assoc] at place
    subst place
    have tag : TagAt source (remaining+1) (header.length + (front.length + ((start ++ body).length + number.length)))
        (varintValue number).toInt.toNat entries := by
      rw [split]
      exact .mk entries total bare text count tags
    rw [Nat.add_assoc,Nat.add_assoc,List.take_length_add_append,List.take_length_add_append,held_tag text count]
    cases remaining with
    | zero =>
      cases counted
      rw [Nat.add_zero]
      refine ⟨_,[],(List.append_nil _).symm,?_,.done⟩
      rw [heldEntries_iff]
      rcases alike with ⟨zero,rfl⟩ | ⟨first,rest,rfl,entry,rfl⟩
      · rw [zero]
        exact ⟨rfl,nofun⟩
      · exact even _ _ first rest tag entry (by omega)
    | succ remaining =>
      have zero : (varintValue number).toInt.toNat = 0 := by
        rcases alike with ⟨zero,_⟩ | ⟨first,rest,rfl,entry,rfl⟩
        · exact zero
        · exact sparse _ _ _ first rest tag (by omega) entry (by omega)
      rw [zero,alike_none] at alike
      subst alike
      rw [zero,Nat.zero_add]
      refine ⟨[],_,rfl,.done,ih ?_ ?_ ?_ (bare.snoc text count (by omega)) ?_⟩
      · rw [List.append_assoc] at natural
        have announced := (natural _ _ (decVarint_varint name _)).2
        rw [length,Int.toNat_natCast,List.drop_left] at announced
        have after := (announced _ _ (decVarint_varint count entries)).2
        rw [zero] at after
        exact after [] entries rfl
      · simpa using split
      · omega
      · simp only [List.length_append] at budget ⊢
        omega

theorem walkItemtagArray_even {heap : Heap} (succeeds : heap.Succeeds) {source : List UInt8} {maxLen : Nat}
    (inside : maxLen ≤ source.length) (small : maxLen < 2^31) (natural : NonNegative source) (sparse : Sparse source maxLen) :
    (∀ ret, walkItemtagArray source maxLen = some ret → 0 ≤ ret →
        ret ≤ maxLen ∧ ∃ array, decItemtagArray heap source = .ok array (source.drop ret.toNat)) ↔
      EvenWithin source maxLen := by
  rw [walkItemtagArray_agrees succeeds inside small natural]
  refine ⟨evenWithin_of_held,fun even header rest size split total fits counted => ?_⟩
  have named := (natural _ _ (by rw [split]; exact decVarint_varint total rest)).2
  exact counted.held sparse even named split total (Nat.zero_add _).symm .done (by rw [List.length_nil]; omega)

/-! The bytes of an array. -/

def McItemtag.listed (tag : McItemtag) : List Int32 := tag.entries.take tag.len.toInt.toNat

def McItemtagArray.listed (array : McItemtagArray) : List McItemtag := array.tags.take array.len.toInt.toNat

/-- On the whole the entries are as long as if each were as long as the first. -/
def Even (entries : List Int32) : Prop :=
  ∀ entry ∈ entries.head?, (entries.map fun entry => (encVarint entry.toUInt32).length).sum =
    entries.length * (encVarint entry.toUInt32).length

theorem encEntries_listed {left : Nat} {entries : List Int32} {bytes : List UInt8}
    (written : encEntries left entries = some bytes) : (entries.take left).length = left ∧
      bytes.length = ((entries.take left).map fun entry => (encVarint entry.toUInt32).length).sum := by
  induction left generalizing entries bytes with
  | zero =>
    cases written
    exact ⟨rfl,rfl⟩
  | succ left ih =>
    cases entries with
    | nil => cases written
    | cons entry entries =>
      obtain ⟨run,others,rfl⟩ := Option.map_eq_some_iff.mp written
      obtain ⟨count,length⟩ := ih others
      rw [List.take_succ_cons,List.length_cons,count,List.length_append,length,List.map_cons,List.sum_cons]
      exact ⟨rfl,rfl⟩

theorem alike_encEntries {left : Nat} {entries : List Int32} {bytes : List UInt8}
    (written : encEntries left entries = some bytes) : Alike bytes left bytes.length ↔ Even (entries.take left) := by
  obtain ⟨count,length⟩ := encEntries_listed written
  rw [length]
  cases left with
  | zero => simp [Alike,Even]
  | succ left =>
    cases entries with
    | nil => cases written
    | cons entry entries =>
      obtain ⟨run,others,rfl⟩ := Option.map_eq_some_iff.mp written
      have number := encVarint_varint entry.toUInt32
      rw [List.take_succ_cons] at count ⊢
      constructor
      · rintro (⟨zero,_⟩ | ⟨first,rest,same,again,total⟩) head member
        · cases zero
        · obtain rfl := Option.some.inj member
          rw [total,count,(number.unique again same).1]
      · intro even
        have total := even entry rfl
        rw [count] at total
        exact .inr ⟨_,run,rfl,number,total⟩

theorem encItemtags_last {left : Nat} {tags : List McItemtag} {bytes : List UInt8}
    (written : encItemtags (left+1) tags = some bytes) : ∃ front tag name entries,
      bytes = front ++ (name ++ (encVarint tag.len.toUInt32 ++ entries)) ∧ tags.take (left+1) = tags.take left ++ [tag] ∧
      encItemtags left tags = some front ∧ encString tag.name = some name ∧
      encEntries tag.len.toInt.toNat tag.entries = some entries := by
  induction left generalizing tags bytes with
  | zero =>
    cases tags with
    | nil => cases written
    | cons tag tags =>
      obtain ⟨name,text,written⟩ := Option.bind_eq_some_iff.mp written
      obtain ⟨entries,listed,written⟩ := Option.bind_eq_some_iff.mp written
      cases written
      exact ⟨[],tag,name,entries,by simp,rfl,rfl,text,listed⟩
  | succ left ih =>
    cases tags with
    | nil => cases written
    | cons first tags =>
      obtain ⟨text,named,written⟩ := Option.bind_eq_some_iff.mp written
      obtain ⟨numbers,each,written⟩ := Option.bind_eq_some_iff.mp written
      obtain ⟨rest,others,same⟩ := Option.bind_eq_some_iff.mp written
      cases same
      obtain ⟨front,tag,name,entries,rfl,split,before,string,listed⟩ := ih others
      refine ⟨text ++ (encVarint first.len.toUInt32 ++ (numbers ++ front)),tag,name,entries,by simp,?_,?_,string,listed⟩
      · rw [List.take_succ_cons,split,List.take_succ_cons,List.cons_append]
      · simp only [encItemtags,named,each,before,Option.bind_eq_bind,Option.bind_some]

theorem varintValue_len (len : Int32) : varintValue (encVarint len.toUInt32) = len := by
  rw [varintValue_encVarint]
  simp

theorem encItemtags_bare {left : Nat} {tags : List McItemtag} {bytes : List UInt8}
    (empty : ∀ tag ∈ tags.take left, tag.len.toInt ≤ 0) (written : encItemtags left tags = some bytes) :
    Bare left bytes := by
  induction left generalizing tags bytes with
  | zero =>
    cases written
    exact .done
  | succ left ih =>
    cases tags with
    | nil => cases written
    | cons tag tags =>
      obtain ⟨name,text,written⟩ := Option.bind_eq_some_iff.mp written
      obtain ⟨entries,listed,written⟩ := Option.bind_eq_some_iff.mp written
      obtain ⟨rest,others,same⟩ := Option.bind_eq_some_iff.mp written
      cases same
      rw [List.take_succ_cons] at empty
      have zero := empty tag List.mem_cons_self
      obtain ⟨body,prefixed⟩ := encString_eq_some text
      rw [Int.toNat_of_nonpos zero] at listed
      cases listed
      exact .tag prefixed (encVarint_varint _) (by rw [varintValue_len]; exact zero)
        (ih (fun other member => empty other (List.mem_cons_of_mem _ member)) others)

/-- Where no tag but the last has entries, nothing is looked for in the wrong place. -/
theorem counted_even {left : Nat} {tags : List McItemtag} {bytes : List UInt8}
    (bare : ∀ tag ∈ (tags.take left).dropLast, tag.len.toInt ≤ 0) (written : encItemtags left tags = some bytes) :
    Counted bytes.length left bytes bytes.length ↔ ∀ tag ∈ (tags.take left).getLast?, Even tag.listed := by
  cases left with
  | zero =>
    cases written
    simpa using Counted.done 0 []
  | succ left =>
    obtain ⟨front,tag,name,entries,rfl,split,before,text,listed⟩ := encItemtags_last written
    rw [split,List.dropLast_concat] at bare
    obtain ⟨body,prefixed⟩ := encString_eq_some text
    rw [split,List.getLast?_concat,(encItemtags_bare bare before).counted]
    simp only [counted_tag prefixed (encVarint_varint _),varintValue_len,List.length_append,Option.mem_def,
      Option.some.injEq,forall_eq',McItemtag.listed,← alike_encEntries listed]
    constructor
    · rintro ⟨_,all,_,total,more,rfl,alike,_,ended⟩
      cases ended
      rwa [show entries.length = total by omega]
    · exact fun alike => ⟨_,rfl,by omega,_,0,by omega,alike,by omega,.done _ _⟩

theorem walkItemtagArray_passes_even {array : McItemtagArray} {bytes : List UInt8} (low : 0 ≤ array.len.toInt)
    (bare : ∀ tag ∈ array.listed.dropLast, tag.len.toInt ≤ 0) (written : encItemtagArray array = some bytes) :
    (∀ rest maxLen, bytes.length ≤ maxLen → maxLen < 2^31 →
        walkItemtagArray (bytes ++ rest) maxLen = some (bytes.length : Int)) ↔
      2^31 ≤ bytes.length ∨ ∀ tag ∈ array.listed.getLast?, Even tag.listed := by
  obtain ⟨body,rfl,looped,_⟩ := encItemtagArray_eq_some low written
  rw [walkItemtagArray_passes low written,McItemtagArray.listed,← counted_even bare looped]
  simp

/-- No tag but the last one that is written has entries. -/
def McItemtagArray.Sparse (array : McItemtagArray) : Prop := ∀ tag ∈ array.listed.dropLast, tag.len.toInt ≤ 0

/-- Where no tag but the last has entries, the walker is right about a buffer if the bytes that it counts for these are
so many entries, and about an array if they are on the whole as long as the first one of them suggests. -/
theorem walkItemtagArray_iff {heap : Heap} (succeeds : heap.Succeeds) {source : List UInt8} {maxLen : Nat}
    (inside : maxLen ≤ source.length) (small : maxLen < 2^31) (natural : NonNegative source)
    {array : McItemtagArray} {bytes : List UInt8} (low : 0 ≤ array.len.toInt)
    (written : encItemtagArray array = some bytes) :
    (Sparse source maxLen → ((∀ ret, walkItemtagArray source maxLen = some ret → 0 ≤ ret →
        ret ≤ maxLen ∧ ∃ array, decItemtagArray heap source = .ok array (source.drop ret.toNat)) ↔
      EvenWithin source maxLen)) ∧
    (array.Sparse → ((∀ rest maxLen, bytes.length ≤ maxLen → maxLen < 2^31 →
        walkItemtagArray (bytes ++ rest) maxLen = some (bytes.length : Int)) ↔
      2^31 ≤ bytes.length ∨ ∀ tag ∈ array.listed.getLast?, Even tag.listed)) :=
  ⟨walkItemtagArray_even succeeds inside small natural,fun bare => walkItemtagArray_passes_even low bare written⟩

def evenBytes : List UInt8 := [1,1,0x61,2,0x80,1,0x81,1]

theorem nonNegative_evenBytes : NonNegative evenBytes := by
  intro len behind read
  have first : decVarint evenBytes = .ok 1 [1,0x61,2,0x80,1,0x81,1] := by decide +kernel
  obtain ⟨rfl,rfl⟩ := Decoded.ok.inj (first.symm.trans read)
  refine ⟨by decide,fun len behind read => ?_⟩
  have second : decVarint [1,0x61,2,0x80,1,0x81,1] = .ok 1 [0x61,2,0x80,1,0x81,1] := by decide +kernel
  obtain ⟨rfl,rfl⟩ := Decoded.ok.inj (second.symm.trans read)
  refine ⟨by decide,fun count rest read => ?_⟩
  have third : decVarint [2,0x80,1,0x81,1] = .ok 2 [0x80,1,0x81,1] := by decide +kernel
  obtain ⟨rfl,rfl⟩ := Decoded.ok.inj (third.symm.trans read)
  exact ⟨by decide,fun _ _ _ => trivial⟩

theorem evenBytes_tag {remaining place len : Nat} {entries : List UInt8}
    (tag : TagAt evenBytes remaining place len entries) (last : 1 ≤ remaining) :
    remaining = 1 ∧ len = 2 ∧ entries = [0x80,1,0x81,1] := by
  generalize shown : evenBytes = source at tag
  obtain @⟨header,front,body,name,number,left,_,rest,total,bare,prefixed,count,tags⟩ := tag
  obtain ⟨rfl,behind⟩ := (Varint.single (by decide) : Varint [1]).unique total shown
  have one : (varintValue [1]).toInt.toNat = 1 := by decide
  obtain ⟨rfl,rfl⟩ : left = 0 ∧ remaining = 1 := by omega
  cases bare
  obtain @⟨start,first,length⟩ := prefixed
  rw [List.nil_append,List.append_assoc] at behind
  obtain ⟨rfl,inner⟩ := (Varint.single (by decide) : Varint [1]).unique first behind
  have letter : body.length = 1 := by
    have value : (varintValue [1]).toInt = 1 := by decide
    omega
  obtain ⟨rfl,after⟩ := List.append_inj (show [0x61] ++ [2,0x80,1,0x81,1] = body ++ _ from inner) letter.symm
  obtain ⟨rfl,rfl⟩ := (Varint.single (by decide) : Varint [2]).unique count after
  exact ⟨rfl,by decide,rfl⟩

def evenArray : McItemtagArray := ⟨3,[⟨some [],0,[]⟩,⟨some [0x61],0,[]⟩,⟨some [0x62],2,[128,256]⟩]⟩

theorem walkItemtagArray_iff_evenArray :
    (∀ ret, walkItemtagArray evenBytes 8 = some ret → 0 ≤ ret → ret ≤ (8 : Nat) ∧
      ∃ array, decItemtagArray .plenty evenBytes = .ok array (evenBytes.drop ret.toNat)) ∧
    ∀ rest maxLen, ([3,0,0,1,0x61,0,1,0x62,2,0x80,1,0x80,2] : List UInt8).length ≤ maxLen → maxLen < 2^31 →
      walkItemtagArray ([3,0,0,1,0x61,0,1,0x62,2,0x80,1,0x80,2] ++ rest) maxLen =
        some (([3,0,0,1,0x61,0,1,0x62,2,0x80,1,0x80,2] : List UInt8).length : Int) := by
  have written : encItemtagArray evenArray = some [3,0,0,1,0x61,0,1,0x62,2,0x80,1,0x80,2] := by decide +kernel
  have right := walkItemtagArray_iff Heap.plenty_succeeds (show 8 ≤ evenBytes.length by decide) (by decide)
    nonNegative_evenBytes (show 0 ≤ evenArray.len.toInt by decide) written
  refine ⟨(right.1 fun _ _ _ _ _ tag more _ _ => ?_).mpr fun place len first rest tag entry fits => ?_,(right.2 ?_).mpr (.inr ?_)⟩
  · have single := (evenBytes_tag tag (by omega)).1
    omega
  · obtain ⟨_,rfl,entries⟩ := evenBytes_tag tag (Nat.le_refl 1)
    obtain ⟨rfl,rfl⟩ := entry.unique (.more (by decide) (.last (by decide)) : Varint [0x80,1]) entries
    exact ⟨by decide +kernel,by decide +kernel⟩
  · intro tag member
    rcases List.mem_pair.mp (show tag ∈ [⟨some [],0,[]⟩,⟨some [0x61],0,[]⟩] from member) with rfl | rfl <;> decide
  · intro tag member entry first
    obtain rfl := Option.some.inj member
    obtain rfl := Option.some.inj first
    decide +kernel

/-- A tag with an entry of one byte and one of two: the walker stops a byte short. -/
theorem walkItemtagArray_fails : ¬((∀ (heap : Heap) (source : List UInt8) (maxLen : Nat), heap.Succeeds →
      maxLen ≤ source.length → maxLen < 2^31 → NonNegative source →
      ∀ ret, walkItemtagArray source maxLen = some ret → 0 ≤ ret →
        ret ≤ maxLen ∧ ∃ array, decItemtagArray heap source = .ok array (source.drop ret.toNat)) ∧
    ∀ (array : McItemtagArray) (bytes : List UInt8), 0 ≤ array.len.toInt → (∀ tag ∈ array.tags, 0 ≤ tag.len.toInt) →
      encItemtagArray array = some bytes → ∀ rest maxLen, bytes.length ≤ maxLen → maxLen < 2^31 →
        walkItemtagArray (bytes ++ rest) maxLen = some (bytes.length : Int)) := by
  rintro ⟨_,passes⟩
  have walked := passes ⟨1,[⟨some [],2,[0,128]⟩]⟩ [1,0,2,0,0x80,1] (by decide) (by decide) (by decide +kernel) [] 6
    (by decide) (by decide)
  have short : walkItemtagArray ([1,0,2,0,0x80,1] ++ []) 6 = some 5 := by decide +kernel
  rw [short] at walked
  contradiction

end CSpock.Itemtag
