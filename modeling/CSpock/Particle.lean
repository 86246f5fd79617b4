import CSpock.Slot

/-! Particles: a type and the data that it selects. -/
namespace CSpock.Particle
open CSpock.Library.Cursor CSpock.Library.Refusal CSpock.Numeric CSpock.Varnum CSpock.Nbt CSpock.Slot

def particleBlock : Int32 := 3
def particleDust : Int32 := 11
def particleFallingDust : Int32 := 20
def particleItem : Int32 := 27

inductive ParticleShape where
  | state
  | color
  | item
  | plain
  deriving Repr, DecidableEq

def particleShape (type : Int32) : ParticleShape :=
  if type = particleBlock ∨ type = particleFallingDust then .state
  else if type = particleDust then .color
  else if type = particleItem then .item
  else .plain

inductive ParticleData : ParticleShape → Type where
  | state (blockState : Int32) : ParticleData .state
  | color (red green blue scale : UInt32) : ParticleData .color
  | item (slot : McSlot) : ParticleData .item
  | plain : ParticleData .plain

structure McParticle where
  type : Int32
  data : ParticleData (particleShape type)

/-- A number is walked before the switch whatever the type, `source` is not moved past
the four floats, and the case of `particle_dust` goes on into that of `particle_item`. -/
def walkParticledata (source : List UInt8) (maxLen : Nat) (shape : ParticleShape) : Option Int := do
  let size ← walkVarint source maxLen
  if size < 0 then some (-1) else
    let source := source.drop size.toNat
    let maxLen := sizeSub maxLen size
    match shape with
    | .state => do
      let ret ← walkVarint source maxLen
      if ret < 0 then some ret else some (cInt (size + ret))
    | .color => if maxLen < 16 then some (-1) else do
      let ret ← walkSlot source maxLen
      if ret < 0 then some ret else some (cInt (cInt (size + 16) + ret))
    | .item => do
      let ret ← walkSlot source maxLen
      if ret < 0 then some ret else some (cInt (size + ret))
    | .plain => some size

def walkParticle (source : List UInt8) (maxLen : Nat) : Option Int := do
  let size ← walkVarint source maxLen
  if size < 0 then some size else
    match decVarint source with
    | .ok type source => do
      let ret ← walkParticledata source (sizeSub maxLen size) (particleShape type)
      if ret < 0 then some ret else some (cInt (size + ret))
    | _ => none

def sizeParticledata {shape : ParticleShape} : ParticleData shape → Nat
  | .state blockState => sizeVarint blockState.toUInt32
  | .color .. => 4 * 4
  | .item slot => sizeSlot slot
  | .plain => 0

def sizeParticle (particle : McParticle) : Nat := sizeVarint particle.type.toUInt32 + sizeParticledata particle.data

def encParticledata {shape : ParticleShape} : ParticleData shape → Option (List UInt8)
  | .state blockState => some (encVarint blockState.toUInt32)
  | .color red green blue scale => some (encBef32 red ++ encBef32 green ++ encBef32 blue ++ encBef32 scale)
  | .item slot => encSlot slot
  | .plain => some []

def encParticle (source : McParticle) : Option (List UInt8) :=
  (encParticledata source.data).map (encVarint source.type.toUInt32 ++ ·)

def decParticledata (heap : Heap) (shape : ParticleShape) (source : List UInt8) : Decoded (ParticleData shape) :=
  match shape with
  | .state => (decVarint source).map .state
  | .color => (decBef32 source).andThen fun red source => (decBef32 source).andThen fun green source =>
    (decBef32 source).andThen fun blue source => (decBef32 source).map fun scale => .color red green blue scale
  | .item => (decSlot heap source).map .item
  | .plain => .ok .plain source

def decParticle (heap : Heap) (source : List UInt8) : Decoded McParticle :=
  (decVarint source).andThen fun type source =>
    (decParticledata heap (particleShape type) source).map fun data => ⟨type,data⟩

/-- What `walk_particledata` passes over after the number of its own. -/
inductive WalkedData : ParticleShape → List UInt8 → Prop where
  | state {bytes : List UInt8} (number : Varint bytes) : WalkedData .state bytes
  | color {bytes : List UInt8} (width : bytes.length = 16) : WalkedData .color (0::bytes)
  | item : WalkedData .item [0]
  | plain : WalkedData .plain []

/-- What `walk_particle` passes over: the type, a number that no particle has, and the data. -/
inductive WalkedParticle : List UInt8 → Prop where
  | mk {type extra data : List UInt8} (number : Varint type) (more : Varint extra)
      (walked : WalkedData (particleShape (varintValue type)) data) : WalkedParticle (type ++ (extra ++ data))

def ParticleData.Survives (heap : Heap) {shape : ParticleShape} : ParticleData shape → Prop
  | .item slot => slot.Survives heap
  | _ => True

theorem decParticledata_encParticledata {heap : Heap} {shape : ParticleShape} {data : ParticleData shape}
    (survives : data.Survives heap) :
    ∃ bytes, encParticledata data = some bytes ∧ Reads (decParticledata heap shape) bytes data := by
  cases data with
  | state blockState => exact ⟨_,rfl,(int32_encVarint blockState).map ParticleData.state⟩
  | color red green blue scale =>
    refine ⟨_,rfl,?_⟩
    simp only [List.append_assoc]
    exact (decBef32_encBef32 red).andThen ((decBef32_encBef32 green).andThen
      ((decBef32_encBef32 blue).andThen ((decBef32_encBef32 scale).map _)))
  | item slot =>
    obtain ⟨bytes,written,reads⟩ := decSlot_encSlot survives
    exact ⟨bytes,written,reads.map ParticleData.item⟩
  | plain => exact ⟨_,rfl,Reads.pure _⟩

theorem decParticle_encParticle {heap : Heap} {particle : McParticle} (survives : particle.data.Survives heap) :
    ∃ bytes, encParticle particle = some bytes ∧ Reads (decParticle heap) bytes particle := by
  obtain ⟨bytes,written,reads⟩ := decParticledata_encParticledata survives
  exact ⟨encVarint particle.type.toUInt32 ++ bytes,by simp [encParticle,written],
    (int32_encVarint particle.type).andThen (reads.map _)⟩

theorem walkParticle_int {source : List UInt8} {maxLen : Nat} {ret : Int} (walked : walkParticle source maxLen = some ret) :
    ret < 2^31 := by
  obtain ⟨first,number,walked⟩ := Option.bind_eq_some_iff.mp walked
  have small := walkVarint_int number
  split at walked
  next => cases walked; omega
  next =>
    split at walked
    next =>
      obtain ⟨data,_,walked⟩ := Option.bind_eq_some_iff.mp walked
      split at walked
      next => cases walked; omega
      next => cases walked; exact cInt_lt _
    next => cases walked

theorem walkParticledata_answers {source : List UInt8} {maxLen : Nat} {shape : ParticleShape} {ret : Int}
    (walked : walkParticledata source maxLen shape = some ret) : -2 ≤ ret ∧ ret ≤ 22 := by
  rcases walk_cases walked with refused | ⟨size,number,accepted,walked⟩
  · omega
  have narrow := walkVarint_int number
  cases shape with
  | state =>
    rcases handed_cases walked with ⟨refused,second⟩ | ⟨state,second,more,walked⟩
    · have answers := walkVarint_answers second
      unfold varnumOverrun varnumInvalid at answers
      omega
    · have short := walkVarint_int second
      rw [cInt_of_small (by omega) (by omega)] at walked
      cases walked
      omega
  | color =>
    dsimp only at walked
    split at walked
    next => cases walked; decide
    next =>
      rcases handed_cases walked with ⟨refused,second⟩ | ⟨slot,second,more,walked⟩
      · have answers := walkSlot_answers second
        omega
      · have answers := walkSlot_answers second
        rw [cInt_add,cInt_of_small (by omega) (by omega)] at walked
        cases walked
        omega
  | item =>
    rcases handed_cases walked with ⟨refused,second⟩ | ⟨slot,second,more,walked⟩
    · have answers := walkSlot_answers second
      omega
    · have answers := walkSlot_answers second
      rw [cInt_of_small (by omega) (by omega)] at walked
      cases walked
      omega
  | plain => cases walked; omega

theorem walkParticle_answers {source : List UInt8} {maxLen : Nat} {ret : Int}
    (walked : walkParticle source maxLen = some ret) : -2 ≤ ret := by
  rcases handed_cases walked with ⟨refused,number⟩ | ⟨size,number,accepted,walked⟩
  · have answers := walkVarint_answers number
    unfold varnumOverrun varnumInvalid at answers
    omega
  · have narrow := walkVarint_int number
    split at walked
    next =>
      rcases handed_cases walked with ⟨refused,data⟩ | ⟨more,data,wide,walked⟩
      · exact (walkParticledata_answers data).1
      · have short := (walkParticledata_answers data).2
        rw [cInt_of_small (by omega) (by omega)] at walked
        cases walked
        omega
    next => cases walked

theorem walkParticledata_bounded {source : List UInt8} {maxLen : Nat} (inside : maxLen ≤ source.length)
    (shape : ParticleShape) : walkParticledata source maxLen shape ≠ none := by
  refine walk_bounded (walkVarint_bounded inside) fun ret walked accepted => ?_
  obtain ⟨extra,rest,rfl,number,rfl,fits⟩ := walkVarint_accepts walked accepted
  have left : sizeSub maxLen (extra.length : Int) ≤ rest.length := by
    rw [List.length_append] at inside
    unfold sizeSub sizeT
    omega
  rw [Int.toNat_natCast,List.drop_left]
  cases shape with
  | state => exact handed_bounded (walkVarint_bounded left) fun _ _ _ => Option.some_ne_none _
  | color =>
    dsimp only
    split
    next => simp
    next => exact handed_bounded (walkSlot_bounded left) fun _ _ _ => Option.some_ne_none _
  | item => exact handed_bounded (walkSlot_bounded left) fun _ _ _ => Option.some_ne_none _
  | plain => exact Option.some_ne_none _

theorem walkParticle_bounded {source : List UInt8} {maxLen : Nat} (inside : maxLen ≤ source.length) :
    walkParticle source maxLen ≠ none := by
  refine handed_bounded (walkVarint_bounded inside) fun ret walked accepted => ?_
  obtain ⟨type,rest,rfl,number,rfl,fits⟩ := walkVarint_accepts walked accepted
  have left : sizeSub maxLen (type.length : Int) ≤ rest.length := by
    rw [List.length_append] at inside
    unfold sizeSub sizeT
    omega
  simp only [decVarint_varint number rest]
  exact handed_bounded (walkParticledata_bounded left _) fun _ _ _ => Option.some_ne_none _

/-- What the walker asks of the bytes behind the number of its own, with room for so many, and how far
it goes on. Of the four floats it looks at the first byte only. -/
inductive Crossed (room : Nat) : ParticleShape → List UInt8 → Nat → Prop where
  | state {number rest : List UInt8} (varint : Varint number) (fits : number.length ≤ room) :
      Crossed room .state (number ++ rest) number.length
  | color {rest : List UInt8} (wide : 16 ≤ room) : Crossed room .color (0::rest) 17
  | item {rest : List UInt8} (granted : 1 ≤ room) : Crossed room .item (0::rest) 1
  | plain {rest : List UInt8} : Crossed room .plain rest 0

/-- The buffers that `walk_particle` goes over: a type, another number, and what the type asks for. -/
inductive CrossedParticle (maxLen : Nat) : List UInt8 → Nat → Prop where
  | mk {type extra rest : List UInt8} {len : Nat} (number : Varint type) (more : Varint extra)
      (fits : type.length + extra.length ≤ maxLen)
      (data : Crossed (maxLen - type.length - extra.length) (particleShape (varintValue type)) rest len) :
      CrossedParticle maxLen (type ++ (extra ++ rest)) (type.length + (extra.length + len))

theorem Crossed.len_le {room len : Nat} {shape : ParticleShape} {rest : List UInt8}
    (data : Crossed room shape rest len) : len ≤ 17 := by
  cases data with
  | state varint => exact Nat.le_trans varint.length_le (by decide)
  | color => exact Nat.le_refl 17
  | item => decide
  | plain => decide

theorem walkParticledata_crossed {source : List UInt8} {maxLen : Nat} {shape : ParticleShape} {ret : Int}
    (small : maxLen < 2^31) (walked : walkParticledata source maxLen shape = some ret) (accepted : 0 ≤ ret) :
    ∃ extra rest len, source = extra ++ rest ∧ Varint extra ∧ extra.length ≤ maxLen ∧
      Crossed (maxLen - extra.length) shape rest len ∧ ret = extra.length + len := by
  obtain ⟨size,first,nonneg,walked⟩ := walk_step accepted walked
  obtain ⟨extra,rest,rfl,number,rfl,inside⟩ := walkVarint_accepts first nonneg
  have short := number.length_le
  rw [Int.toNat_natCast,List.drop_left,sizeSub_natCast inside (by omega)] at walked
  cases shape with
  | state =>
    obtain ⟨size,second,nonneg,walked⟩ := walk_handed accepted walked
    obtain ⟨state,tail,rfl,value,rfl,fits⟩ := walkVarint_accepts second nonneg
    have narrow := value.length_le
    rw [cInt_of_small (by omega) (by omega)] at walked
    exact ⟨extra,_,_,rfl,number,inside,.state value fits,(Option.some.inj walked).symm⟩
  | color =>
    dsimp only at walked
    split at walked
    next => cases walked; contradiction
    next wide =>
      obtain ⟨size,second,nonneg,summed⟩ := walk_handed accepted walked
      obtain ⟨rfl,_,tail,rfl⟩ := walkSlot_accepts second nonneg
      rw [cInt_add,cInt_of_small (by omega) (by omega)] at summed
      exact ⟨extra,_,17,rfl,number,inside,.color (by omega),by rw [← Option.some.inj summed]; omega⟩
  | item =>
    obtain ⟨size,second,nonneg,summed⟩ := walk_handed accepted walked
    obtain ⟨rfl,granted,tail,rfl⟩ := walkSlot_accepts second nonneg
    rw [cInt_of_small (by omega) (by omega)] at summed
    exact ⟨extra,_,1,rfl,number,inside,.item granted,(Option.some.inj summed).symm⟩
  | plain => exact ⟨extra,rest,0,rfl,number,inside,.plain,by rw [← Option.some.inj walked]; simp⟩

theorem Crossed.walked {extra rest : List UInt8} {maxLen len : Nat} {shape : ParticleShape} (number : Varint extra)
    (small : maxLen < 2^31) (inside : extra.length ≤ maxLen) (data : Crossed (maxLen - extra.length) shape rest len) :
    walkParticledata (extra ++ rest) maxLen shape = some ((extra.length + len : Nat) : Int) := by
  have short := number.length_le
  have behind : (extra ++ rest).drop ((extra.length : Nat) : Int).toNat = rest := by
    rw [Int.toNat_natCast,List.drop_left]
  simp only [walkParticledata,walkVarint_varint number rest maxLen inside,walk_natCast,behind,
    sizeSub_natCast inside (show maxLen < 2^64 by omega)]
  cases data with
  | state varint fits =>
    have narrow := varint.length_le
    simp only [walkVarint_varint varint _ _ fits,Option.bind_eq_bind,Option.bind_some]
    rw [if_neg (by omega),cInt_of_small (by omega) (by omega),Nat.cast_add]
  | color wide =>
    simp only [walkSlot_absent _ (show 1 ≤ maxLen - extra.length by omega),Option.bind_eq_bind,Option.bind_some]
    rw [if_neg (by omega),if_neg (by decide),cInt_add,cInt_of_small (by omega) (by omega)]
    congr 1
  | item some =>
    simp only [walkSlot_absent _ some,Option.bind_eq_bind,Option.bind_some]
    rw [if_neg (by decide),cInt_of_small (by omega) (by omega)]
    rfl
  | plain => rfl

theorem walkParticle_crossed {source : List UInt8} {maxLen : Nat} {ret : Int} (small : maxLen < 2^31)
    (walked : walkParticle source maxLen = some ret) (accepted : 0 ≤ ret) :
    ∃ n : Nat, ret = n ∧ CrossedParticle maxLen source n := by
  obtain ⟨size,first,nonneg,walked⟩ := walk_handed accepted walked
  obtain ⟨type,rest,rfl,number,rfl,inside⟩ := walkVarint_accepts first nonneg
  have short := number.length_le
  simp only [decVarint_varint number rest,sizeSub_natCast inside (show maxLen < 2^64 by omega)] at walked
  obtain ⟨size,second,nonneg,walked⟩ := walk_handed accepted walked
  obtain ⟨extra,rest,len,rfl,more,fits,data,rfl⟩ := walkParticledata_crossed (by omega) second nonneg
  have narrow := data.len_le
  have small := more.length_le
  rw [cInt_of_small (by omega) (by omega)] at walked
  exact ⟨type.length + (extra.length + len),by rw [← Option.some.inj walked]; push_cast; rfl,
    .mk number more (by omega) data⟩

theorem CrossedParticle.walked {source : List UInt8} {maxLen n : Nat} (small : maxLen < 2^31)
    (crossed : CrossedParticle maxLen source n) : walkParticle source maxLen = some (n : Int) := by
  obtain @⟨type,extra,rest,len,number,more,fits,data⟩ := crossed
  have short := number.length_le
  have narrow := more.length_le
  have last := data.len_le
  have inside : type.length ≤ maxLen := by omega
  simp only [walkParticle,walkVarint_varint number (extra ++ rest) maxLen inside,decVarint_varint number (extra ++ rest),
    sizeSub_natCast inside (show maxLen < 2^64 by omega),data.walked more (by omega) (by omega),Option.bind_eq_bind,
    Option.bind_some]
  rw [if_neg (by omega),if_neg (by omega),cInt_of_small (by omega) (by omega)]
  push_cast
  rfl

theorem Crossed.data {room len : Nat} {shape : ParticleShape} {rest : List UInt8} (crossed : Crossed room shape rest len)
    (within : len ≤ rest.length) : WalkedData shape (rest.take len) := by
  cases crossed with
  | state varint =>
    rw [List.take_left]
    exact .state varint
  | color =>
    rw [List.take_succ_cons]
    exact .color (by simp at within ⊢; omega)
  | item => exact .item
  | plain => exact .plain

theorem walkParticle_accepts {source : List UInt8} {maxLen : Nat} {ret : Int} (small : maxLen < 2^31)
    (walked : walkParticle source maxLen = some ret) (accepted : 0 ≤ ret) :
    ∃ len : Nat, ret = len ∧ len ≤ 27 ∧ (len ≤ source.length → WalkedParticle (source.take len)) := by
  obtain ⟨n,same,crossed⟩ := walkParticle_crossed small walked accepted
  obtain @⟨type,extra,rest,len,number,more,_,data⟩ := crossed
  have short := number.length_le
  have narrow := more.length_le
  have last := data.len_le
  refine ⟨_,same,by omega,fun within => ?_⟩
  rw [List.take_length_add_append,List.take_length_add_append]
  simp only [List.length_append] at within
  exact .mk number more (data.data (by omega))

theorem WalkedData.crossed {room : Nat} {shape : ParticleShape} {data : List UInt8} (walked : WalkedData shape data)
    (rest : List UInt8) (wide : 17 ≤ room) : Crossed room shape (data ++ rest) data.length := by
  cases walked with
  | state number => exact .state number (Nat.le_trans number.length_le (by omega))
  | @color bytes width =>
    have crossed : Crossed room .color (0::(bytes ++ rest)) 17 := .color (by omega)
    rwa [List.cons_append,List.length_cons,width]
  | item => exact .item (by omega)
  | plain => exact .plain

theorem WalkedParticle.walked {bytes : List UInt8} {maxLen : Nat} (walked : WalkedParticle bytes) (rest : List UInt8)
    (wide : 27 ≤ maxLen) (small : maxLen < 2^31) : walkParticle (bytes ++ rest) maxLen = some (bytes.length : Int) := by
  obtain @⟨type,extra,data,number,more,data⟩ := walked
  have short := number.length_le
  have narrow := more.length_le
  have crossed : CrossedParticle maxLen _ _ := .mk number more (by omega) (data.crossed rest (by omega))
  simpa [Nat.add_assoc] using crossed.walked small

/-! The walker against the decoder and the encoder. The number of its own that it takes is in neither. -/

theorem decBef32_shortens {source rest : List UInt8} {pattern : UInt32} (ran : decBef32 source = .ok pattern rest) :
    source.length = rest.length + 4 := by
  obtain ⟨header,rfl,width,_⟩ := decBe32_eq_ok ran
  rw [List.length_append,width]
  omega

theorem decColor_shortens {heap : Heap} {source rest : List UInt8} {data : ParticleData .color}
    (ran : decParticledata heap .color source = .ok data rest) : source.length = rest.length + 16 := by
  obtain ⟨_,_,red,ran⟩ := Decoded.andThen_eq_ok ran
  obtain ⟨_,_,green,ran⟩ := Decoded.andThen_eq_ok ran
  obtain ⟨_,_,blue,ran⟩ := Decoded.andThen_eq_ok ran
  obtain ⟨_,scale,_⟩ := Decoded.map_eq_ok ran
  rw [decBef32_shortens red,decBef32_shortens green,decBef32_shortens blue,decBef32_shortens scale]

/-- The decoder does not come out where the walker does, on any type. -/
theorem Crossed.drifts {heap : Heap} {room len : Nat} {shape : ParticleShape} {extra rest : List UInt8}
    (number : Varint extra) (crossed : Crossed room shape rest len) (inside : len ≤ rest.length)
    (data : ParticleData shape) : decParticledata heap shape (extra ++ rest) ≠ .ok data (rest.drop len) := by
  intro ran
  have nonempty := number.length_pos
  cases crossed with
  | @state state tail varint =>
    obtain ⟨_,read,_⟩ := Decoded.map_eq_ok ran
    rw [decVarint_varint number,List.drop_left] at read
    have same := congrArg List.length (Decoded.ok.inj read).2
    have positive := varint.length_pos
    rw [List.length_append] at same
    omega
  | color =>
    have same := decColor_shortens ran
    rw [List.length_append,List.length_drop] at same
    omega
  | @item tail =>
    obtain ⟨_,read,_⟩ := Decoded.map_eq_ok ran
    exact decSlot_number number read rfl
  | plain =>
    have same := congrArg List.length (Decoded.ok.inj ran).2
    rw [List.length_append,List.drop_zero] at same
    omega

theorem CrossedParticle.drifts {heap : Heap} {source : List UInt8} {maxLen n : Nat}
    (crossed : CrossedParticle maxLen source n) (inside : n ≤ source.length) (particle : McParticle) :
    decParticle heap source ≠ .ok particle (source.drop n) := by
  obtain @⟨type,extra,rest,len,number,more,_,data⟩ := crossed
  intro ran
  rw [List.drop_length_add_append,List.drop_length_add_append] at ran
  rw [List.length_append,List.length_append] at inside
  simp only [decParticle,decVarint_varint number (extra ++ rest),Decoded.andThen_ok] at ran
  obtain ⟨value,ran,_⟩ := Decoded.map_eq_ok ran
  exact data.drifts more (by omega) value ran

theorem encParticledata_missed {shape : ParticleShape} {data : ParticleData shape} {bytes : List UInt8}
    (slotless : shape ≠ .item) (written : encParticledata data = some bytes) {room len : Nat} {rest extra tail : List UInt8}
    (number : Varint extra) (split : bytes ++ rest = extra ++ tail) (crossed : Crossed room shape tail len) :
    bytes.length ≠ extra.length + len := by
  have nonempty := number.length_pos
  cases data with
  | state blockState =>
    cases written
    obtain ⟨rfl,rfl⟩ := (encVarint_varint _).unique number split
    obtain ⟨varint,_⟩ := crossed
    have positive := varint.length_pos
    omega
  | color =>
    cases written
    cases crossed
    simp only [encBef32,List.length_append,length_encBe32]
    omega
  | item => exact absurd rfl slotless
  | plain =>
    cases written
    rw [List.length_nil]
    omega

theorem walkParticle_missed {particle : McParticle} (slotless : particle.type ≠ particleItem) {bytes : List UInt8}
    (written : encParticle particle = some bytes) (rest : List UInt8) {maxLen : Nat} (small : maxLen < 2^31) :
    walkParticle (bytes ++ rest) maxLen ≠ some (bytes.length : Int) := by
  intro walked
  obtain ⟨data,inner,rfl⟩ := Option.map_eq_some_iff.mp written
  obtain ⟨n,same,crossed⟩ := walkParticle_crossed small walked (by omega)
  have shape : particleShape particle.type ≠ .item := by
    unfold particleShape
    rw [if_neg slotless]
    repeat' split
    all_goals simp
  generalize whole : encVarint particle.type.toUInt32 ++ data ++ rest = source at crossed
  obtain @⟨type,extra,tail,len,number,more,_,content⟩ := crossed
  rw [List.append_assoc] at whole
  obtain ⟨rfl,split⟩ := (encVarint_varint _).unique number whole
  rw [varintValue_encVarint,Int32.toInt32_toUInt32] at content
  have missed := encParticledata_missed shape inner more split content
  rw [List.length_append] at same
  omega

/-- The walker is right on the buffers that it refuses, and on no encoded particle. -/
theorem walkParticle_iff {heap : Heap} {source : List UInt8} {maxLen : Nat} (inside : maxLen ≤ source.length)
    (small : maxLen < 2^31) {particle : McParticle} (slotless : particle.type ≠ particleItem) {bytes : List UInt8}
    (written : encParticle particle = some bytes) :
    ((∀ ret, walkParticle source maxLen = some ret → 0 ≤ ret → ret ≤ maxLen ∧
        ∃ value, decParticle heap source = .ok value (source.drop ret.toNat)) ↔
      ¬∃ n, CrossedParticle maxLen source n) ∧
    ∀ rest bound, bound < 2^31 → walkParticle (bytes ++ rest) bound ≠ some (bytes.length : Int) := by
  refine ⟨⟨?_,?_⟩,fun rest bound small => walkParticle_missed slotless written rest small⟩
  · rintro agrees ⟨n,crossed⟩
    obtain ⟨fits,value,read⟩ := agrees n (crossed.walked small) (by omega)
    exact crossed.drifts (by omega) value read
  · intro refused ret walked accepted
    obtain ⟨n,_,crossed⟩ := walkParticle_crossed small walked accepted
    exact absurd ⟨n,crossed⟩ refused

def bubble : McParticle := ⟨4,.plain⟩

theorem encParticle_bubble : encParticle bubble = some [4] := by
  have four : encVarint (4 : Int32).toUInt32 = [4] := by
    rw [encVarint_septets]
    exact Library.Septets.septets_small (by decide)
  simp [encParticle,bubble,four,encParticledata]

theorem walkParticle_iff_bubble : walkParticle [4,0] 2 = some 2 ∧
    ((∀ ret, walkParticle [4,0] 2 = some ret → 0 ≤ ret → ret ≤ (2 : Nat) ∧
        ∃ value, decParticle .plenty [4,0] = .ok value (([4,0] : List UInt8).drop ret.toNat)) ↔
      ¬∃ n, CrossedParticle 2 [4,0] n) ∧
    ∀ rest bound, bound < 2^31 → walkParticle ([4] ++ rest) bound ≠ some ((([4] : List UInt8).length : Nat) : Int) :=
  ⟨by decide +kernel,walkParticle_iff (by decide) (by decide) (by decide) encParticle_bubble⟩

theorem walkParticle_fails : ¬((∀ (heap : Heap) (source : List UInt8) (maxLen : Nat), maxLen ≤ source.length →
      maxLen < 2^31 → ∀ ret, walkParticle source maxLen = some ret → 0 ≤ ret → ret ≤ maxLen ∧
        ∃ value, decParticle heap source = .ok value (source.drop ret.toNat)) ∧
    ∀ (particle : McParticle) (bytes : List UInt8), particle.type ≠ particleItem → encParticle particle = some bytes →
      ∀ rest maxLen, bytes.length ≤ maxLen → maxLen < 2^31 →
        walkParticle (bytes ++ rest) maxLen = some (bytes.length : Int)) := by
  rintro ⟨agrees,_⟩
  have walked : walkParticle [4,0] 2 = some 2 := by decide +kernel
  obtain ⟨_,value,read⟩ := agrees .plenty [4,0] 2 (by decide) (by decide) 2 walked (by decide)
  have one : decParticle .plenty [4,0] = .ok bubble [0] := rfl
  have ends := (Decoded.ok.inj (one.symm.trans read)).2
  contradiction

/-! Decoding what was encoded. -/

/-- A slot and a particle come back from their own bytes, whatever is behind these. -/
theorem decode_encoded {heap : Heap} {slot : McSlot} (slotTree : slot.Survives heap) {particle : McParticle}
    (particleTree : particle.data.Survives heap) :
    (∃ bytes, encSlot slot = some bytes ∧ ∀ rest, decSlot heap (bytes ++ rest) = .ok slot rest) ∧
    ∃ bytes, encParticle particle = some bytes ∧ ∀ rest, decParticle heap (bytes ++ rest) = .ok particle rest :=
  ⟨decSlot_encSlot slotTree,decParticle_encParticle particleTree⟩

theorem one_live : (1 : UInt8) ≠ 0 := UInt8.zero_ne_one.symm

/-- A stone with an empty compound. -/
def taggedSlot : McSlot := .set 1 one_live ⟨1,1,some (.mk (some []) (.tagCompound []))⟩

theorem emptyCompound_survives :
    CompoundSurvivesDump .plenty (.mk (some []) (.tagCompound [])) [10,0,0,0] where
  dumped := by decide
  parsed := by
    have name : Text cnbtDialect ([0,0] ++ []) := .mk rfl rfl (by decide)
    obtain ⟨node,reads⟩ := decNbt_document Heap.plenty_succeeds (.mk name (.compound .close)) (by decide)
    have read : decNbt .plenty [10,0,0,0] = .ok (.mk (some []) (.tagCompound [])) [] := rfl
    obtain rfl := (Decoded.ok.inj (reads.whole.symm.trans read)).1
    exact reads
  compound := rfl

theorem taggedSlot_survives : taggedSlot.Survives .plenty := by
  rintro flag live item tree same held
  cases same
  cases held
  exact ⟨_,emptyCompound_survives⟩

theorem decode_encoded_tagged :
    (∃ bytes, encSlot taggedSlot = some bytes ∧ ∀ rest, decSlot .plenty (bytes ++ rest) = .ok taggedSlot rest) ∧
    ∃ bytes, encParticle ⟨particleItem,.item taggedSlot⟩ = some bytes ∧
      ∀ rest, decParticle .plenty (bytes ++ rest) = .ok ⟨particleItem,.item taggedSlot⟩ rest :=
  decode_encoded taggedSlot_survives taggedSlot_survives

end CSpock.Particle
