import CSpock.Metadata.Contract

/-! Decoding what was encoded. Every tag comes back from its own bytes; how many tags
are taken is up to the counter, which goes on past the zero that the encoder closes
the run with, and goes on in the middle of a tag behind a slot or a particle. -/
namespace CSpock.Metadata
open CSpock.Library.Cursor CSpock.Numeric CSpock.Varnum CSpock.Strings CSpock.Nbt CSpock.Slot CSpock.Particle

def Shorter (string : Option (List UInt8)) : Prop := ∃ body, string = some body ∧ body.length < 2^31

def Flagged.Holds {α : Type} (holds : α → Prop) : Flagged α → Prop
  | .clear => True
  | .set _ _ value => holds value

theorem Flagged.holds_any {α : Type} (flagged : Flagged α) : Flagged.Holds (fun _ => True) flagged := by
  cases flagged <;> trivial

/-- The values that the encoder can be given. -/
def MetaValue.WellFormed (heap : Heap) {shape : MetaShape} : MetaValue shape → Prop
  | .string text => Shorter text
  | .optString flagged => Flagged.Holds Shorter flagged
  | .slot value => value.Survives heap
  | .pos value => value.InRange
  | .optPos flagged => Flagged.Holds Position.InRange flagged
  | .nbt tree => ∃ node bytes, tree = some node ∧ SurvivesDump heap node bytes
  | .particle value => value.data.Survives heap
  | .unknown => False
  | _ => True

structure McMetatag.WellFormed (heap : Heap) (tag : McMetatag) : Prop where
  index : tag.index ≠ 0xFF
  value : tag.value.WellFormed heap

theorem decFlagged_encFlagged {α : Type} {enc : α → Option (List UInt8)} {dec : List UInt8 → Decoded α}
    {holds : α → Prop} (inner : ∀ value, holds value → ∃ bytes, enc value = some bytes ∧ Reads dec bytes value)
    {flagged : Flagged α} (held : Flagged.Holds holds flagged) :
    ∃ bytes, encFlagged enc flagged = some bytes ∧ Reads (decFlagged dec) bytes flagged := by
  cases flagged with
  | clear => exact ⟨_,rfl,decFlagged_clear dec⟩
  | set flag live value =>
    obtain ⟨bytes,written,reads⟩ := inner value held
    exact ⟨flag::bytes,by simp [encFlagged,written,encByte],decFlagged_set live reads⟩

theorem decString_encString {heap : Heap} (succeeds : heap.Succeeds) {string : Option (List UInt8)}
    (shorter : Shorter string) : ∃ bytes, encString string = some bytes ∧ Reads (decString heap) bytes string := by
  obtain ⟨body,rfl,short⟩ := shorter
  obtain ⟨bytes,written,prefixed⟩ := encString_prefixed short
  exact ⟨bytes,written,decString_prefixed succeeds prefixed⟩

theorem decValue_encValue {heap : Heap} (succeeds : heap.Succeeds) {shape : MetaShape} {value : MetaValue shape}
    (wellFormed : value.WellFormed heap) :
    ∃ bytes, encValue value = some bytes ∧ Reads (decValue heap shape) bytes value := by
  have mapped {α : Type} {read : List UInt8 → Decoded α} {written : Option (List UInt8)} {inner : α}
      (wrap : α → MetaValue shape) (reads : ∃ bytes, written = some bytes ∧ Reads read bytes inner) :
      ∃ bytes, written = some bytes ∧ Reads (fun source => (read source).map wrap) bytes (wrap inner) := by
    obtain ⟨bytes,written,reads⟩ := reads
    exact ⟨bytes,written,reads.map wrap⟩
  cases value with
  | b value => exact mapped _ ⟨_,rfl,decByte_encByte value⟩
  | varint value => exact mapped _ ⟨_,rfl,int32_encVarint value⟩
  | f pattern => exact mapped _ ⟨_,rfl,decBef32_encBef32 pattern⟩
  | string value => exact mapped _ (decString_encString succeeds wellFormed)
  | optString flagged =>
    exact mapped _ (decFlagged_encFlagged (fun _ => decString_encString succeeds) wellFormed)
  | slot slot => exact mapped _ (decSlot_encSlot wellFormed)
  | rot x y z =>
    exact ⟨_,rfl,(decBef32_encBef32 x).andThen ((decBef32_encBef32 y).andThen ((decBef32_encBef32 z).map _))⟩
  | pos pos => exact mapped _ ⟨_,rfl,decPosition_encPosition wellFormed⟩
  | optPos flagged =>
    exact mapped _ (decFlagged_encFlagged (fun _ range => ⟨_,rfl,decPosition_encPosition range⟩) wellFormed)
  | optUuid flagged =>
    exact mapped _ (decFlagged_encFlagged (fun uuid _ => ⟨_,rfl,decUuid_encUuid uuid⟩) (Flagged.holds_any flagged))
  | nbt tree =>
    obtain ⟨node,bytes,rfl,dump⟩ := wellFormed
    exact ⟨bytes,dump.dumped,dump.parsed.map _⟩
  | particle particle => exact mapped _ (decParticle_encParticle wellFormed)
  | villagerdata first second third =>
    exact ⟨_,rfl,(int32_encVarint first).andThen ((int32_encVarint second).andThen ((int32_encVarint third).map _))⟩
  | optVarint flagged =>
    exact mapped _ (decFlagged_encFlagged (fun number _ => ⟨_,rfl,int32_encVarint number⟩) (Flagged.holds_any flagged))
  | unknown => exact wellFormed.elim

/-- The tags come back from their own bytes when the decoder is told how many there are. -/
theorem decMetatags_encMetatags {heap : Heap} (succeeds : heap.Succeeds) {tags : List McMetatag}
    (wellFormed : ∀ tag ∈ tags, tag.WellFormed heap) :
    ∃ bytes, encMetatags tags = some bytes ∧ Reads (decMetatags heap tags.length) bytes tags := by
  induction tags with
  | nil => exact ⟨[],rfl,fun _ => rfl⟩
  | cons tag tags ih =>
    obtain ⟨rest,more,looped⟩ := ih fun other member => wellFormed other (List.mem_cons_of_mem tag member)
    obtain ⟨bytes,written,reads⟩ := decValue_encValue succeeds (wellFormed tag List.mem_cons_self).value
    have first : Reads (decMetatag heap) ([tag.index] ++ (encVarint tag.type.toUInt32 ++ bytes)) tag :=
      (decByte_encByte tag.index).andThen ((int32_encVarint tag.type).andThen (reads.map _))
    refine ⟨[tag.index] ++ (encVarint tag.type.toUInt32 ++ bytes) ++ rest,?_,first.andThen (looped.map _)⟩
    simp [encMetatags,encMetatag,written,more,encByte]

theorem decMetatags_length {heap : Heap} {count : Nat} {source rest : List UInt8} {tags : List McMetatag}
    (ran : decMetatags heap count source = .ok tags rest) : tags.length = count := by
  induction count generalizing source tags with
  | zero => cases ran; rfl
  | succ count ih =>
    obtain ⟨tag,middle,_,ran⟩ := Decoded.andThen_eq_ok ran
    obtain ⟨others,looped,rfl⟩ := Decoded.map_eq_ok ran
    rw [List.length_cons,ih looped]

def RoundTrips (heap : Heap) (m : List McMetatag) (rest : List UInt8) : Prop :=
  ∃ bytes, encMetadata m = some bytes ∧ decMetadata heap (bytes ++ rest) = .ok m rest

/-- The counter comes to the number of tags over what was written and what follows it. -/
def CountsAlike (m : List McMetatag) (rest : List UInt8) : Prop :=
  ∃ bytes, encMetadata m = some bytes ∧ countMetatags (bytes ++ rest) = some m.length

theorem roundTrips_iff_countsAlike {heap : Heap} (succeeds : heap.Succeeds) {m : List McMetatag}
    (wellFormed : ∀ tag ∈ m, tag.WellFormed heap) (rest : List UInt8) :
    RoundTrips heap m rest ↔ CountsAlike m rest := by
  obtain ⟨bytes,written,reads⟩ := decMetatags_encMetatags succeeds wellFormed
  have whole : encMetadata m = some (bytes ++ [0]) := by simp [encMetadata,written,encByte]
  constructor
  · rintro ⟨all,encoded,decoded⟩
    refine ⟨all,encoded,?_⟩
    cases counted : countMetatags (all ++ rest) with
    | none => simp [decMetadata,counted] at decoded
    | some count =>
      simp only [decMetadata,counted,succeeds _ _ _,if_true] at decoded
      obtain ⟨tags,middle,looped,ended⟩ := Decoded.andThen_eq_ok decoded
      cases ended
      rw [decMetatags_length looped]
  · rintro ⟨all,encoded,counted⟩
    refine ⟨all,encoded,?_⟩
    obtain rfl := Option.some.inj (whole.symm.trans encoded)
    rw [List.append_assoc] at counted ⊢
    simp only [decMetadata,counted,succeeds _ _ _,if_true,reads ([0] ++ rest),Decoded.andThen_ok]
    rfl

/-- Encoded in no more bytes than the counter lets a walk pass over. -/
def Countable (string : Option (List UInt8)) : Prop :=
  ∀ bytes, encString string = some bytes → bytes.length ≤ noOverflow

/-- The values that the counter steps over exactly: no slot that is present, no particle. -/
def MetaValue.Plain {shape : MetaShape} : MetaValue shape → Prop
  | .string text => Countable text
  | .optString flagged => Flagged.Holds Countable flagged
  | .slot value => value = .clear
  | .particle _ => False
  | _ => True

theorem encFlagged_bytes {α : Type} {enc : α → Option (List UInt8)} {inner : List UInt8 → Prop} {holds : α → Prop}
    (written : ∀ value bytes, holds value → enc value = some bytes → inner bytes) {flagged : Flagged α}
    (held : Flagged.Holds holds flagged) {bytes : List UInt8} (encoded : encFlagged enc flagged = some bytes) :
    FlaggedBytes inner bytes := by
  cases flagged with
  | clear => cases encoded; exact .clear
  | set flag live value =>
    obtain ⟨tail,inside,rfl⟩ := Option.map_eq_some_iff.mp encoded
    exact .set live (written value tail held inside)

theorem encString_text {string : Option (List UInt8)} {bytes : List UInt8} (shorter : Shorter string)
    (countable : Countable string) (encoded : encString string = some bytes) : Text bytes := by
  obtain ⟨body,rfl,short⟩ := shorter
  obtain ⟨other,written,prefixed⟩ := encString_prefixed short
  obtain rfl := Option.some.inj (written.symm.trans encoded)
  exact ⟨countable other encoded,body,prefixed⟩

theorem encValue_value {heap : Heap} {shape : MetaShape} {value : MetaValue shape} {bytes : List UInt8}
    (wellFormed : value.WellFormed heap) (plain : value.Plain) (encoded : encValue value = some bytes) :
    Value shape bytes := by
  cases value with
  | b => cases encoded; exact .b
  | varint value => cases encoded; exact .varint (encVarint_varint _)
  | f => cases encoded; exact .f (by simp [encBef32])
  | string => exact .string (encString_text wellFormed plain encoded)
  | optString flagged =>
    have both : Flagged.Holds (fun string => Shorter string ∧ Countable string) flagged := by
      cases flagged with
      | clear => trivial
      | set => exact ⟨wellFormed,plain⟩
    exact .optString (encFlagged_bytes (fun _ _ held => encString_text held.1 held.2) both encoded)
  | slot value =>
    obtain rfl := plain
    cases encoded
    exact .slot
  | rot => cases encoded; exact .rot (by simp [encBef32])
  | pos => cases encoded; exact .pos (by simp [encPosition])
  | optPos =>
    exact .optPos (encFlagged_bytes (fun _ _ _ written => by cases written; simp [encPosition]) wellFormed encoded)
  | optUuid flagged =>
    exact .optUuid (encFlagged_bytes (fun _ _ _ written => by cases written; simp [encUuid]) (Flagged.holds_any flagged) encoded)
  | nbt tree =>
    obtain ⟨node,other,rfl,dump⟩ := wellFormed
    obtain rfl := Option.some.inj (dump.dumped.symm.trans encoded)
    obtain ⟨taken,split,document,short⟩ := decNbt_sound dump.parsed.whole
    rw [List.append_nil] at split
    exact .nbt (split ▸ document) (split ▸ short)
  | particle => exact plain.elim
  | villagerdata =>
    cases encoded
    exact .villagerdata (encVarint_varint _) (encVarint_varint _) (encVarint_varint _)
  | optVarint flagged =>
    exact .optVarint (encFlagged_bytes (fun _ _ _ written => by cases written; exact encVarint_varint _)
      (Flagged.holds_any flagged) encoded)
  | unknown => exact wellFormed.elim

theorem encMetatags_tags {heap : Heap} {m : List McMetatag} {bytes : List UInt8}
    (wellFormed : ∀ tag ∈ m, tag.WellFormed heap) (plain : ∀ tag ∈ m, tag.value.Plain)
    (encoded : encMetatags m = some bytes) : Tags m.length bytes := by
  induction m generalizing bytes with
  | nil => cases encoded; exact .nil
  | cons tag tags ih =>
    simp only [encMetatags,Option.bind_eq_bind,Option.bind_eq_some_iff] at encoded
    obtain ⟨first,written,rest,looped,ended⟩ := encoded
    cases ended
    obtain ⟨content,valued,rfl⟩ := Option.map_eq_some_iff.mp written
    have head := wellFormed tag List.mem_cons_self
    have value := encValue_value head.value (plain tag List.mem_cons_self) valued
    have same : varintValue (encVarint tag.type.toUInt32) = tag.type := by
      rw [varintValue_encVarint,Int32.toInt32_toUInt32]
    rw [← same] at value
    have tail := ih (fun other member => wellFormed other (List.mem_cons_of_mem tag member))
      (fun other member => plain other (List.mem_cons_of_mem tag member)) looped
    simpa [encByte] using Tags.cons head.index (encVarint_varint _) value tail

theorem countMetatagsLoop_grows {rounds pos count total : Nat} {buffer : List UInt8}
    (ran : countMetatagsLoop rounds buffer pos count = some total) : total = 0 ∨ count ≤ total := by
  induction rounds generalizing pos count with
  | zero => cases ran
  | succ rounds ih =>
    simp only [countMetatagsLoop,Option.bind_eq_bind,Option.bind_eq_some_iff] at ran
    obtain ⟨index,_,ran⟩ := ran
    split at ran
    next => cases ran; exact .inr (Nat.le_refl _)
    next =>
      split at ran
      next =>
        split at ran
        next => cases ran; exact .inl rfl
        next =>
          obtain ⟨next,_,ran⟩ := Option.bind_eq_some_iff.mp ran
          rcases ih ran with zero | more
          · exact .inl zero
          · exact .inr (by omega)
      next => cases ran

theorem countMetatagsLoop_live {rounds pos count total : Nat} {buffer : List UInt8} {index : UInt8}
    (here : buffer[pos]? = some index) (live : index ≠ 0xFF)
    (ran : countMetatagsLoop rounds buffer pos count = some total) : total = 0 ∨ count < total := by
  cases rounds with
  | zero => cases ran
  | succ rounds =>
    simp only [countMetatagsLoop,here,Option.bind_eq_bind,Option.bind_some] at ran
    rw [if_neg live] at ran
    split at ran
    next =>
      split at ran
      next => cases ran; exact .inl rfl
      next =>
        obtain ⟨next,_,ran⟩ := Option.bind_eq_some_iff.mp ran
        exact (countMetatagsLoop_grows ran).imp_right (by omega)
    next => cases ran

theorem countMetatagsLoop_closed {rounds pos count : Nat} {buffer : List UInt8} (turns : 0 < rounds) :
    countMetatagsLoop rounds buffer pos (count+1) = some (count+1) ↔ buffer[pos]? = some 0xFF := by
  obtain ⟨rounds,rfl⟩ : ∃ more, rounds = more+1 := ⟨rounds-1,by omega⟩
  constructor
  · intro ran
    obtain ⟨index,here,_⟩ := Option.bind_eq_some_iff.mp ran
    by_cases closed : index = 0xFF
    · rw [here,closed]
    · have more := countMetatagsLoop_live here closed ran
      omega
  · intro closed
    simp [countMetatagsLoop,closed]

theorem countMetatagsLoop_tag {rounds count : Nat} (front : List UInt8) {index : UInt8} {type : List UInt8}
    (live : index ≠ 0xFF) (number : Varint type) (source : List UInt8) :
    countMetatagsLoop (rounds+1) (front ++ index::(type ++ source)) front.length count =
      if metaShape (varintValue type) = .unknown then some 0 else
        (countValue (metaShape (varintValue type)) (front ++ index::(type ++ source))
          (front.length + (type.length+1))).bind fun pos =>
            countMetatagsLoop rounds (front ++ index::(type ++ source)) pos (count+1) := by
  have here : (front ++ index::(type ++ source))[front.length]? = some index := by simp
  have behind : (front ++ index::(type ++ source)).drop (front.length+1) = type ++ source := by
    rw [← List.drop_drop,List.drop_left]
    rfl
  have place : (front ++ index::(type ++ source)).length - source.length = front.length + (type.length+1) := by
    simp only [List.length_append,List.length_cons]
    omega
  simp only [countMetatagsLoop,here,Option.bind_eq_bind,Option.bind_some,if_neg live,behind,
    decVarint_varint number source,place]

/-- Behind tags that it steps over exactly, the counter takes one more tag for the last
one if it lands on a closing byte behind it. -/
theorem countMetatags_last {count : Nat} {run : List UInt8} (tags : Tags count run) {index : UInt8} {type : List UInt8}
    (live : index ≠ 0xFF) (number : Varint type) (known : metaShape (varintValue type) ≠ .unknown)
    (source : List UInt8) : countMetatags (run ++ index::(type ++ source)) = some (count+1) ↔
      ∃ pos, countValue (metaShape (varintValue type)) (run ++ index::(type ++ source))
        (run.length + (type.length+1)) = some pos ∧ (run ++ index::(type ++ source))[pos]? = some 0xFF := by
  obtain ⟨rounds,enough,past⟩ := countMetatags_tags tags (index::(type ++ source))
  have nonempty := number.length_pos
  rw [List.length_cons,List.length_append] at enough
  obtain ⟨rounds,rfl⟩ : ∃ more, rounds = more+1 := ⟨rounds-1,by omega⟩
  rw [past,countMetatagsLoop_tag run live number,if_neg known,Option.bind_eq_some_iff]
  refine exists_congr fun pos => and_congr_right fun _ => ?_
  exact countMetatagsLoop_closed (by omega)

/-! Behind the encoded tags. -/

/-- Tags that the counter steps over exactly, and one of a type that it does not know. -/
def RunsOut (source : List UInt8) : Prop :=
  ∃ count run index type rest, source = run ++ index::(type ++ rest) ∧ Tags count run ∧ index ≠ 0xFF ∧
    Varint type ∧ metaShape (varintValue type) = .unknown

/-- A type, and behind it a value that the counter steps over exactly unless it does not know the type. -/
inductive TagBody : List UInt8 → Prop where
  | unknown {type : List UInt8} (rest : List UInt8) (number : Varint type)
      (unknown : metaShape (varintValue type) = .unknown) : TagBody (type ++ rest)
  | value {type bytes : List UInt8} (rest : List UInt8) (number : Varint type)
      (value : Value (metaShape (varintValue type)) bytes) : TagBody (type ++ (bytes ++ rest))

/-- No tag up to the first closing byte, or unknown type, is one that the counter does not step over exactly. -/
def Legible (source : List UInt8) : Prop :=
  ∀ count run index rest, source = run ++ index::rest → Tags count run → index ≠ 0xFF → TagBody rest

theorem Tags.snoc {count : Nat} {run : List UInt8} (tags : Tags count run) {index : UInt8} {type bytes : List UInt8}
    (live : index ≠ 0xFF) (number : Varint type) (value : Value (metaShape (varintValue type)) bytes) :
    Tags (count+1) (run ++ index::(type ++ bytes)) := by
  induction tags with
  | nil => simpa using Tags.cons live number value .nil
  | cons first typed held _ ih => simpa using Tags.cons first typed held ih

theorem Value.known {shape : MetaShape} {bytes : List UInt8} (value : Value shape bytes) : shape ≠ .unknown := by
  rintro rfl
  cases value

theorem runsOut_of_counted {rounds count : Nat} {run tail : List UInt8} (legible : Legible (run ++ tail))
    (tags : Tags count run) (entered : count = 0 → tail.head? ≠ some 0xFF)
    (ran : countMetatagsLoop rounds (run ++ tail) run.length count = some 0) : RunsOut (run ++ tail) := by
  induction rounds generalizing count run tail with
  | zero => cases ran
  | succ rounds ih =>
    cases tail with
    | nil => simp [countMetatagsLoop] at ran
    | cons index tail =>
      by_cases closed : index = 0xFF
      · subst closed
        simp only [countMetatagsLoop,List.getElem?_append_right (Nat.le_refl _),Nat.sub_self,List.getElem?_cons_zero,
          Option.bind_eq_bind,Option.bind_some,if_true,Option.some.injEq] at ran
        exact absurd rfl (entered ran)
      · have body := legible count run index tail rfl tags closed
        cases body with
        | @unknown type rest number unknown => exact ⟨count,run,index,type,rest,rfl,tags,closed,number,unknown⟩
        | @value type bytes rest number value =>
          have whole : run ++ index::(type ++ (bytes ++ rest)) = run ++ index::(type ++ bytes) ++ rest := by simp
          have moved := countValue_value value (run ++ index::type) rest
          rw [countMetatagsLoop_tag run closed number,if_neg value.known] at ran
          simp only [List.append_assoc,List.cons_append,List.length_append,List.length_cons] at moved
          rw [moved,Option.bind_some,whole] at ran
          rw [whole] at legible ⊢
          refine ih legible (tags.snoc closed number value) (fun zero => by omega) ?_
          rw [← ran]
          congr 1
          simp only [List.length_append,List.length_cons]
          omega

theorem countMetatags_runsOut {source : List UInt8} (runs : RunsOut source) : countMetatags source = some 0 := by
  obtain ⟨count,run,index,type,rest,rfl,tags,live,number,unknown⟩ := runs
  obtain ⟨rounds,enough,past⟩ := countMetatags_tags tags (index::(type ++ rest))
  obtain ⟨rounds,rfl⟩ : ∃ more, rounds = more+1 := ⟨rounds-1,by omega⟩
  rw [past,countMetatagsLoop_tag run live number,if_pos unknown]

theorem countMetatags_zero_iff {rest : List UInt8} (legible : Legible (0::rest)) :
    countMetatags (0::rest) = some 0 ↔ RunsOut (0::rest) :=
  ⟨fun counted => runsOut_of_counted legible .nil (fun _ => by simp) counted,countMetatags_runsOut⟩

/-- No string of more bytes than the counter lets a walk pass over. -/
def MetaValue.Fitting {shape : MetaShape} : MetaValue shape → Prop
  | .string text => Countable text
  | .optString flagged => Flagged.Holds Countable flagged
  | _ => True

theorem metaShape_slot {type : Int32} (shape : metaShape type = .slot) : type = 6 := by
  unfold metaShape at shape
  split at shape <;> cases shape
  exact Int32.toInt_inj.mp ‹_›

theorem metaShape_particle {type : Int32} (shape : metaShape type = .particle) : type = 15 := by
  unfold metaShape at shape
  split at shape <;> cases shape
  exact Int32.toInt_inj.mp ‹_›

theorem MetaValue.WellFormed.known {heap : Heap} {shape : MetaShape} {value : MetaValue shape}
    (wellFormed : value.WellFormed heap) : shape ≠ .unknown := by
  rintro rfl
  cases value
  exact wellFormed

theorem McMetatag.plain_or {tag : McMetatag} (fitting : tag.value.Fitting) : tag.value.Plain ∨
    (∃ index flag live item, tag = ⟨index,6,.slot (.set flag live item)⟩) ∨
    ∃ index particle, tag = ⟨index,15,.particle particle⟩ := by
  obtain ⟨index,type,value⟩ := tag
  by_cases slot : metaShape type = .slot
  · obtain rfl := metaShape_slot slot
    change MetaValue .slot at value
    cases value with
    | slot value =>
      cases value with
      | clear => exact .inl rfl
      | set flag live item => exact .inr (.inl ⟨index,flag,live,item,rfl⟩)
  by_cases particle : metaShape type = .particle
  · obtain rfl := metaShape_particle particle
    change MetaValue .particle at value
    cases value with
    | particle value => exact .inr (.inr ⟨index,value,rfl⟩)
  · refine .inl ?_
    dsimp only at value fitting ⊢
    generalize metaShape type = shape at value slot particle
    cases value with
    | string => exact fitting
    | optString => exact fitting
    | slot => exact absurd rfl slot
    | particle => exact absurd rfl particle
    | _ => trivial

theorem encMetatags_snoc {front : List McMetatag} {tag : McMetatag} {run content : List UInt8}
    (written : encMetatags front = some run) (valued : encValue tag.value = some content) :
    encMetatags (front ++ [tag]) = some (run ++ tag.index::(encVarint tag.type.toUInt32 ++ content)) := by
  induction front generalizing run with
  | nil =>
    cases written
    simp [encMetatags,encMetatag,valued,encByte]
  | cons first front ih =>
    simp only [encMetatags,Option.bind_eq_bind,Option.bind_eq_some_iff] at written
    obtain ⟨bytes,one,rest,looped,ended⟩ := written
    cases ended
    simp [encMetatags,one,ih looped]

section Last
variable {heap : Heap} {front : List McMetatag} {tag : McMetatag} {content : List UInt8}

/-- The last tag comes in for the number of tags only if the counter lands on a closing byte behind it. -/
theorem countsAlike_last (succeeds : heap.Succeeds) (wellFormed : ∀ other ∈ front ++ [tag], other.WellFormed heap)
    (plain : ∀ other ∈ front, other.value.Plain) (valued : encValue tag.value = some content) (rest : List UInt8) :
    ∃ run, ∀ head, head = run ++ tag.index::encVarint tag.type.toUInt32 → (CountsAlike (front ++ [tag]) rest ↔
      ∃ pos, countValue (metaShape tag.type) (head ++ (content ++ 0::rest)) head.length = some pos ∧
        (head ++ (content ++ 0::rest))[pos]? = some 0xFF) := by
  have before (other : McMetatag) (member : other ∈ front) := wellFormed other (List.mem_append_left _ member)
  have last := wellFormed tag (List.mem_append_right front List.mem_cons_self)
  obtain ⟨run,written,_⟩ := decMetatags_encMetatags succeeds before
  have tags := encMetatags_tags before plain written
  have same : varintValue (encVarint tag.type.toUInt32) = tag.type := by
    rw [varintValue_encVarint,Int32.toInt32_toUInt32]
  have counted := countMetatags_last tags last.index (encVarint_varint tag.type.toUInt32)
    (by rw [same]; exact last.value.known) (content ++ 0::rest)
  have encoded : encMetadata (front ++ [tag]) =
      some (run ++ tag.index::(encVarint tag.type.toUInt32 ++ content) ++ [0]) := by
    simp [encMetadata,encMetatags_snoc written valued,encByte]
  refine ⟨run,?_⟩
  rintro head rfl
  rw [same] at counted
  simpa [CountsAlike,encoded] using counted

theorem countsAlike_plain (succeeds : heap.Succeeds) (wellFormed : ∀ other ∈ front ++ [tag], other.WellFormed heap)
    (before : ∀ other ∈ front, other.value.Plain) (plain : tag.value.Plain) (rest : List UInt8) :
    ¬CountsAlike (front ++ [tag]) rest := by
  have last := wellFormed tag (List.mem_append_right front List.mem_cons_self)
  obtain ⟨content,valued,_⟩ := decValue_encValue succeeds last.value
  have value := encValue_value last.value plain valued
  obtain ⟨run,counts⟩ := countsAlike_last succeeds wellFormed before valued rest
  rw [counts _ rfl,countValue_value value]
  rintro ⟨_,landed,closed⟩
  cases landed
  rw [← List.append_assoc,← List.length_append,List.getElem?_append_right (Nat.le_refl _),Nat.sub_self] at closed
  cases closed

/-- A walk that refuses takes the counter back to the type of the tag, or to its index. -/
theorem refused_open {run source : List UInt8} {index type : UInt8} (live : index ≠ 0xFF) (typed : type ≠ 0xFF)
    {ret : Int} (refused : ret < 0) (back : -2 ≤ ret) :
    (run ++ [index,type] ++ source)[((run ++ [index,type]).length + ret).toNat]? ≠ some 0xFF := by
  rw [List.length_append,List.append_assoc]
  obtain rfl | rfl : ret = -1 ∨ ret = -2 := by omega
  · rw [show (((run.length + [index,type].length : Nat) : Int) + -1).toNat = run.length + 1 by simp; omega,
      List.getElem?_append_right (by omega),Nat.add_sub_cancel_left]
    simpa using typed
  · rw [show (((run.length + [index,type].length : Nat) : Int) + -2).toNat = run.length by simp,
      List.getElem?_append_right (Nat.le_refl _),Nat.sub_self]
    simpa using live

theorem encVarint_slot : encVarint (6 : Int32).toUInt32 = [6] := by
  rw [encVarint_septets]
  exact Library.Septets.septets_small (by decide)

theorem encVarint_particle : encVarint (15 : Int32).toUInt32 = [15] := by
  rw [encVarint_septets]
  exact Library.Septets.septets_small (by decide)

theorem countsAlike_slot (succeeds : heap.Succeeds) {index flag : UInt8} {live : flag ≠ 0} {item : SlotItem}
    (wellFormed : ∀ other ∈ front ++ [⟨index,6,.slot (.set flag live item)⟩], other.WellFormed heap)
    (before : ∀ other ∈ front, other.value.Plain) (rest : List UInt8) :
    ¬CountsAlike (front ++ [⟨index,6,.slot (.set flag live item)⟩]) rest := by
  have last := wellFormed _ (List.mem_append_right front List.mem_cons_self)
  obtain ⟨content,valued,_⟩ := decValue_encValue succeeds last.value
  obtain ⟨run,counts⟩ := countsAlike_last succeeds wellFormed before valued rest
  obtain ⟨tail,rfl⟩ := encSlot_live valued
  rw [counts (run ++ [index,6]) (by rw [encVarint_slot])]
  rintro ⟨pos,moved,closed⟩
  obtain ⟨ret,walked,landed⟩ := Option.bind_eq_some_iff.mp moved
  rw [List.drop_left,List.cons_append,List.append_assoc,walkSlot_present live (encVarint_varint _)] at walked
  cases walked
  cases landed
  exact refused_open last.index (by decide) (by decide) (by decide) closed

theorem countsAlike_particle (succeeds : heap.Succeeds) {index : UInt8} {particle : McParticle}
    (wellFormed : ∀ other ∈ front ++ [⟨index,15,.particle particle⟩], other.WellFormed heap)
    (before : ∀ other ∈ front, other.value.Plain) (written : encParticle particle = some content) (rest : List UInt8) :
    CountsAlike (front ++ [⟨index,15,.particle particle⟩]) rest ↔
      ∃ n, CrossedParticle noOverflow (content ++ 0::rest) n ∧ (content ++ 0::rest)[n]? = some 0xFF := by
  have last := wellFormed _ (List.mem_append_right front List.mem_cons_self)
  obtain ⟨run,counts⟩ := countsAlike_last succeeds wellFormed before written rest
  rw [counts (run ++ [index,15]) (by rw [encVarint_particle])]
  constructor
  · rintro ⟨pos,moved,closed⟩
    obtain ⟨ret,walked,landed⟩ := Option.bind_eq_some_iff.mp moved
    cases landed
    rw [List.drop_left] at walked
    rcases Int.lt_or_le ret 0 with refused | accepted
    · exact absurd closed (refused_open last.index (by decide) refused (walkParticle_answers walked))
    · obtain ⟨n,rfl,crossed⟩ := walkParticle_crossed (by decide) walked accepted
      refine ⟨n,crossed,?_⟩
      rw [← Nat.cast_add,Int.toNat_natCast,List.getElem?_append_right (by omega),Nat.add_sub_cancel_left] at closed
      exact closed
  · rintro ⟨n,crossed,closed⟩
    refine ⟨(run ++ [index,15]).length + n,advance_over (crossed.walked (by decide)) _,?_⟩
    rwa [List.getElem?_append_right (by omega),Nat.add_sub_cancel_left]

end Last

/-- Where the tags come back: there is none, and the zero reads as the index of a tag in a run of tags up to an
unknown type; or the last one is a particle, and the byte that `walk_particle` takes the counter to closes the run. -/
inductive Regains : List McMetatag → List UInt8 → Prop where
  | runsOut {rest : List UInt8} (runs : RunsOut (0::rest)) : Regains [] rest
  | particle {front : List McMetatag} {index : UInt8} {particle : McParticle} {bytes rest : List UInt8} {n : Nat}
      (plain : ∀ tag ∈ front, tag.value.Plain) (written : encParticle particle = some bytes)
      (crossed : CrossedParticle noOverflow (bytes ++ 0::rest) n) (closed : (bytes ++ 0::rest)[n]? = some 0xFF) :
      Regains (front ++ [⟨index,15,.particle particle⟩]) rest

/-- No tag but the last has a slot that is present, or a particle, and none is too long for the counter. -/
structure Measured (m : List McMetatag) (rest : List UInt8) : Prop where
  plain : ∀ tag ∈ m.dropLast, tag.value.Plain
  fitting : ∀ tag ∈ m, tag.value.Fitting
  legible : m = [] → Legible (0::rest)

theorem Regains.counts {heap : Heap} (succeeds : heap.Succeeds) {m : List McMetatag} {rest : List UInt8}
    (wellFormed : ∀ tag ∈ m, tag.WellFormed heap) (regains : Regains m rest) : CountsAlike m rest := by
  cases regains with
  | runsOut runs => exact ⟨[0],rfl,countMetatags_runsOut runs⟩
  | particle plain written crossed closed =>
    exact (countsAlike_particle succeeds wellFormed plain written rest).mpr ⟨_,crossed,closed⟩

theorem CountsAlike.regains {heap : Heap} (succeeds : heap.Succeeds) {m : List McMetatag} {rest : List UInt8}
    (wellFormed : ∀ tag ∈ m, tag.WellFormed heap) (measured : Measured m rest) (counts : CountsAlike m rest) :
    Regains m rest := by
  obtain rfl | ⟨front,tag,rfl⟩ := m.eq_nil_or_concat
  · obtain ⟨bytes,written,counted⟩ := counts
    cases written
    exact .runsOut ((countMetatags_zero_iff (measured.legible rfl)).mp counted)
  · have plain := measured.plain
    rw [List.concat_eq_append] at *
    rw [List.dropLast_concat] at plain
    rcases McMetatag.plain_or (measured.fitting tag (List.mem_append_right front List.mem_cons_self)) with
      exact | ⟨index,flag,live,item,rfl⟩ | ⟨index,particle,rfl⟩
    · exact absurd counts (countsAlike_plain succeeds wellFormed plain exact rest)
    · exact absurd counts (countsAlike_slot succeeds wellFormed plain rest)
    · have last := wellFormed _ (List.mem_append_right front List.mem_cons_self)
      obtain ⟨bytes,written,_⟩ := decParticle_encParticle last.value
      obtain ⟨n,crossed,closed⟩ := (countsAlike_particle succeeds wellFormed plain written rest).mp counts
      exact .particle plain written crossed closed

/-- What is enough for the tags to come back, and also needed unless the counter goes on in the middle of a tag. -/
theorem roundTrips_iff {heap : Heap} (succeeds : heap.Succeeds) {m : List McMetatag}
    (wellFormed : ∀ tag ∈ m, tag.WellFormed heap) (rest : List UInt8) :
    (Regains m rest → RoundTrips heap m rest) ∧ (Measured m rest → RoundTrips heap m rest → Regains m rest) := by
  have alike := roundTrips_iff_countsAlike succeeds wellFormed rest
  exact ⟨fun regains => alike.mpr (regains.counts succeeds wellFormed),
    fun measured round => (alike.mp round).regains succeeds wellFormed measured⟩

def byteTag : McMetatag := ⟨0,0,MetaValue.b 7⟩

def nameTag : McMetatag := ⟨2,5,.optString (.set 1 one_live (some [97]))⟩

def bubbleTag : McMetatag := ⟨8,15,.particle bubble⟩

theorem byteTag_wellFormed (heap : Heap) : ∀ tag ∈ [byteTag], tag.WellFormed heap := by
  intro tag member
  obtain rfl := List.mem_singleton.mp member
  exact ⟨by decide,trivial⟩

theorem nameTag_wellFormed (heap : Heap) : nameTag.WellFormed heap := ⟨by decide,[97],rfl,by decide⟩

theorem nameTag_plain : nameTag.value.Plain := by
  intro bytes written
  have one : encVarint 1 = [1] := encVarint_one
  have written : some (encVarint 1 ++ [97]) = some bytes := written
  rw [one] at written
  cases written
  decide

theorem roundTrips_iff_bubble : RoundTrips .plenty ([nameTag,byteTag] ++ [bubbleTag]) [0xFF] ∧
    ¬RoundTrips .plenty ([nameTag] ++ [byteTag]) [0xFF] := by
  have byte := byteTag_wellFormed .plenty byteTag List.mem_cons_self
  have name := nameTag_wellFormed .plenty
  constructor
  · have held : ∀ tag ∈ [nameTag,byteTag] ++ [bubbleTag], tag.WellFormed .plenty := by
      simpa using ⟨name,byte,⟨by decide,trivial⟩⟩
    refine (roundTrips_iff Heap.plenty_succeeds held [0xFF]).1 (.particle ?_ encParticle_bubble ?_ (n := 2) rfl)
    · simpa using ⟨nameTag_plain,trivial⟩
    · exact .mk (.single (by decide) : Varint [4]) (.single (by decide) : Varint [0]) (by decide) .plain
  · have held : ∀ tag ∈ [nameTag] ++ [byteTag], tag.WellFormed .plenty := by simpa using ⟨name,byte⟩
    intro round
    have measured : Measured ([nameTag] ++ [byteTag]) [0xFF] :=
      ⟨by simpa using nameTag_plain,by simpa using ⟨nameTag_plain,trivial⟩,fun empty => by cases empty⟩
    have regains := (roundTrips_iff Heap.plenty_succeeds held [0xFF]).2 measured round
    generalize shown : [nameTag] ++ [byteTag] = m at regains
    cases regains with
    | runsOut => cases shown
    | particle =>
      have last := List.cons.inj (List.append_inj_right' shown rfl)
      have same : (0 : Int32) = 15 := congrArg McMetatag.type last.1
      exact absurd same (by decide)

theorem roundTrips_fails : ¬ ∀ (heap : Heap) (m : List McMetatag) (rest : List UInt8), heap.Succeeds →
    (∀ tag ∈ m, tag.WellFormed heap) → RoundTrips heap m rest := by
  intro claimed
  have round := claimed .plenty [byteTag] [7,1,0xFF] Heap.plenty_succeeds (byteTag_wellFormed _)
  obtain ⟨all,encoded,counted⟩ :=
    (roundTrips_iff_countsAlike Heap.plenty_succeeds (byteTag_wellFormed _) [7,1,0xFF]).mp round
  have zero : encVarint (0 : Int32).toUInt32 = [0] := by
    rw [encVarint,if_neg (by decide)]
    rfl
  have written : encMetadata [byteTag] = some [0,0,7,0] := by
    simp only [encMetadata,encMetatags,encMetatag,byteTag,zero]
    rfl
  obtain rfl := Option.some.inj (written.symm.trans encoded)
  have twice : countMetatags ([0,0,7,0] ++ [7,1,0xFF]) = some 2 := by decide +kernel
  rw [twice] at counted
  cases counted

end CSpock.Metadata
