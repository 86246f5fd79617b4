import CSpock.Library.Chunked
import CSpock.Net.Lock

/-! The read path on an uncompressed connection as a reader of a stream: what is queued is
a list of bytes, without the buffer that holds it and the allocator. -/
namespace CSpock.Net
open CSpock.Library.Chunked CSpock.Library.Cursor CSpock.Numeric CSpock.Varnum

variable {Pak : Type}

/-- What the core knows between two passages of the loop, apart from the queue. -/
structure Reading where
  settings : Settings
  nextPacketSize : Int
  low : -2^31 ≤ nextPacketSize
  high : nextPacketSize < 2^31

/-- A number in front of a queue, one that is not complete yet, or bytes that never make one. -/
inductive Head (queue : List UInt8) : Prop where
  | cut (walked : walkVarint queue queue.length = some varnumOverrun) : Head queue
  | bad (walked : walkVarint queue queue.length = some varnumInvalid) : Head queue
  | number {bytes rest : List UInt8} (varint : Varint bytes) (split : queue = bytes ++ rest) : Head queue

theorem head_total (queue : List UInt8) : Head queue := by
  obtain ⟨ret,walked⟩ := walkVarint_total queue
  rcases walkVarint_answers walked with rfl | rfl | accepted
  · exact .cut walked
  · exact .bad walked
  · obtain ⟨bytes,rest,split,varint,_,_⟩ := walkVarint_accepts walked accepted
    exact .number varint split

theorem walk_number {bytes : List UInt8} (varint : Varint bytes) (rest : List UInt8) :
    walkVarint (bytes ++ rest) (bytes ++ rest).length = some (bytes.length : Int) :=
  walkVarint_varint varint rest _ (by simp)

namespace Reading

def fresh (settings : Settings) : Reading := ⟨settings,noSize,by simp [noSize],by simp [noSize]⟩

def sized (settings : Settings) (size : Int32) : Reading := ⟨settings,size.toInt,size.le_toInt,size.toInt_lt⟩

def frame (env : Env Pak) (reading : Reading) (queue : List UInt8) : Step Reading UInt8 Packet :=
  if sizeT reading.nextPacketSize > queue.length then .waits reading queue else
    match walkVarint queue queue.length with
    | none => .stops
    | some ret =>
      if ret < 0 ∨ reading.nextPacketSize < ret then .stops else
        match decVarint queue with
        | .ok id rest =>
          let packet := ⟨id,rest.take (reading.nextPacketSize - ret).toNat⟩
          .hands packet (fresh (reading.settings.after env packet)) (queue.drop reading.nextPacketSize.toNat)
        | _ => .stops

def step (env : Env Pak) (reading : Reading) (queue : List UInt8) : Step Reading UInt8 Packet :=
  if reading.nextPacketSize ≠ noSize then reading.frame env queue else
    match walkVarint queue queue.length with
    | none => .stops
    | some ret =>
      if ret = varnumOverrun then .waits reading queue
      else if ret = varnumInvalid then .stops
      else match decVarint queue with
        | .ok packetSize rest => (sized reading.settings packetSize).frame env rest
        | _ => .stops

variable {env : Env Pak} {reading : Reading} {queue : List UInt8}

theorem frame_short (short : queue.length < sizeT reading.nextPacketSize) :
    reading.frame env queue = .waits reading queue := if_pos short

theorem frame_negative (whole : sizeT reading.nextPacketSize ≤ queue.length) {ret : Int}
    (walked : walkVarint queue queue.length = some ret) (negative : ret < 0) :
    reading.frame env queue = .stops := by
  simp only [frame,if_neg (Nat.not_lt.mpr whole),walked]
  rw [if_pos (.inl negative)]

theorem frame_beyond {id rest : List UInt8} (whole : sizeT reading.nextPacketSize ≤ (id ++ rest).length)
    (number : Varint id) (beyond : reading.nextPacketSize < id.length) :
    reading.frame env (id ++ rest) = .stops := by
  simp only [frame,if_neg (Nat.not_lt.mpr whole),walk_number number]
  rw [if_pos (.inr beyond)]

theorem frame_packet {id payload rest : List UInt8} (number : Varint id)
    (size : reading.nextPacketSize = (id ++ payload).length) :
    reading.frame env (id ++ (payload ++ rest)) = .hands ⟨varintValue id,payload⟩
      (fresh (reading.settings.after env ⟨varintValue id,payload⟩)) rest := by
  have high := reading.high
  have whole : ¬ sizeT reading.nextPacketSize > (id ++ (payload ++ rest)).length := by
    rw [size,sizeT_natCast (by omega)]
    simp
  have payload_eq : (payload ++ rest).take (reading.nextPacketSize - id.length).toNat = payload := by
    rw [size,List.length_append,show ((id.length + payload.length : Nat) : Int) - id.length = payload.length by omega]
    exact List.take_left' (Int.toNat_natCast _).symm
  have behind : (id ++ (payload ++ rest)).drop reading.nextPacketSize.toNat = rest := by
    rw [size,Int.toNat_natCast,← List.append_assoc,List.drop_left]
  have inside : ¬ ((id.length : Int) < 0 ∨ reading.nextPacketSize < id.length) := by
    rw [size,List.length_append]
    omega
  simp only [frame,if_neg whole,walk_number number,if_neg inside,decVarint_varint number (payload ++ rest),
    payload_eq,behind]

/-- What can become of a queue in front of which a length has been taken. -/
inductive Framing (env : Env Pak) (reading : Reading) (queue : List UInt8) : Step Reading UInt8 Packet → Prop where
  | short (short : queue.length < sizeT reading.nextPacketSize) : Framing env reading queue (.waits reading queue)
  | negative (whole : sizeT reading.nextPacketSize ≤ queue.length) {ret : Int}
      (walked : walkVarint queue queue.length = some ret) (negative : ret < 0) : Framing env reading queue .stops
  | beyond (whole : sizeT reading.nextPacketSize ≤ queue.length) {id rest : List UInt8} (number : Varint id)
      (split : queue = id ++ rest) (beyond : reading.nextPacketSize < id.length) : Framing env reading queue .stops
  | packet {id payload rest : List UInt8} (number : Varint id)
      (size : reading.nextPacketSize = (id ++ payload).length) (split : queue = id ++ (payload ++ rest)) :
      Framing env reading queue (.hands ⟨varintValue id,payload⟩
        (fresh (reading.settings.after env ⟨varintValue id,payload⟩)) rest)

theorem frame_framing (env : Env Pak) (reading : Reading) (queue : List UInt8) :
    Framing env reading queue (reading.frame env queue) := by
  by_cases short : queue.length < sizeT reading.nextPacketSize
  · rw [frame_short short]
    exact .short short
  · have whole : sizeT reading.nextPacketSize ≤ queue.length := Nat.not_lt.mp short
    cases head_total queue with
    | cut walked =>
      rw [frame_negative whole walked (by decide)]
      exact .negative whole walked (by decide)
    | bad walked =>
      rw [frame_negative whole walked (by decide)]
      exact .negative whole walked (by decide)
    | @number id rest number split =>
      by_cases beyond : reading.nextPacketSize < id.length
      · have whole := whole
        rw [split] at whole
        rw [split,frame_beyond whole number beyond,← split]
        exact .beyond (split ▸ whole) number split beyond
      · obtain ⟨size,announced⟩ := Int.eq_ofNat_of_zero_le (show 0 ≤ reading.nextPacketSize by omega)
        have high := reading.high
        rw [announced,sizeT_natCast (by omega),split,List.length_append] at whole
        have length : (id ++ rest.take (size - id.length)).length = size := by
          rw [List.length_append,List.length_take]
          omega
        have parts : queue = id ++ (rest.take (size - id.length) ++ rest.drop (size - id.length)) := by
          rw [split,List.take_append_drop]
        rw [parts,frame_packet number (announced.trans (by rw [length])),← parts]
        exact .packet number (announced.trans (by rw [length])) parts

theorem step_sized (sized : reading.nextPacketSize ≠ noSize) : reading.step env queue = reading.frame env queue :=
  if_pos sized

theorem step_cut (fresh : reading.nextPacketSize = noSize)
    (walked : walkVarint queue queue.length = some varnumOverrun) :
    reading.step env queue = .waits reading queue := by
  simp only [step,fresh,walked,ne_eq,not_true_eq_false,if_false,if_true]

theorem step_bad (fresh : reading.nextPacketSize = noSize)
    (walked : walkVarint queue queue.length = some varnumInvalid) : reading.step env queue = .stops := by
  have other : ¬ varnumInvalid = varnumOverrun := by decide
  simp only [step,fresh,walked,ne_eq,not_true_eq_false,if_false,if_true,if_neg other]

theorem step_number (fresh : reading.nextPacketSize = noSize) {size rest : List UInt8} (number : Varint size) :
    reading.step env (size ++ rest) = (sized reading.settings (varintValue size)).frame env rest := by
  have positive : ¬ (size.length : Int) = varnumOverrun ∧ ¬ (size.length : Int) = varnumInvalid := by
    unfold varnumOverrun varnumInvalid
    omega
  simp only [step,fresh,walk_number number,decVarint_varint number rest,ne_eq,not_true_eq_false,if_false,
    if_neg positive.1,if_neg positive.2]

/-! What comes later changes neither a stop nor a packet. -/

theorem frame_stops (stopped : reading.frame env queue = .stops) (more : List UInt8) :
    reading.frame env (queue ++ more) = .stops := by
  have framing := frame_framing env reading queue
  rw [stopped] at framing
  cases framing with
  | negative queued walked negative =>
    have whole : sizeT reading.nextPacketSize ≤ (queue ++ more).length := by
      rw [List.length_append]
      omega
    cases head_total (queue ++ more) with
    | cut walked => exact frame_negative whole walked (by decide)
    | bad walked => exact frame_negative whole walked (by decide)
    | @number id rest number split =>
      rcases walkVarint_answers walked with rfl | rfl | accepted
      · -- the number goes on behind the queue, and so behind the frame
        have longer := number.beyond split walked
        rw [split] at whole ⊢
        refine frame_beyond whole number ?_
        by_contra inside
        obtain ⟨size,announced⟩ := Int.eq_ofNat_of_zero_le (show 0 ≤ reading.nextPacketSize by omega)
        have high := reading.high
        rw [announced,sizeT_natCast (by omega)] at queued
        omega
      · exact frame_negative whole (walkVarint_append walked (by decide) more) (by decide)
      · omega
  | @beyond id rest whole number split beyond =>
    have whole : sizeT reading.nextPacketSize ≤ (queue ++ more).length := by
      rw [List.length_append]
      omega
    rw [split,List.append_assoc] at whole ⊢
    exact frame_beyond whole number beyond

theorem frame_hands {packet : Packet} {next : Reading} {left : List UInt8}
    (handed : reading.frame env queue = .hands packet next left) (more : List UInt8) :
    reading.frame env (queue ++ more) = .hands packet next (left ++ more) := by
  have framing := frame_framing env reading queue
  rw [handed] at framing
  cases framing with
  | packet number size split =>
    rw [split,List.append_assoc,List.append_assoc]
    exact frame_packet number size

theorem frame_waits {next : Reading} {left : List UInt8} (waited : reading.frame env queue = .waits next left) :
    next = reading ∧ left = queue ∧ queue.length < sizeT reading.nextPacketSize := by
  have framing := frame_framing env reading queue
  rw [waited] at framing
  cases framing with
  | short short => exact ⟨rfl,rfl,short⟩

theorem step_stops (stopped : reading.step env queue = .stops) (more : List UInt8) :
    reading.step env (queue ++ more) = .stops := by
  by_cases sized : reading.nextPacketSize = noSize
  · cases head_total queue with
    | cut walked => rw [step_cut sized walked] at stopped; cases stopped
    | bad walked => exact step_bad sized (walkVarint_append walked (by decide) more)
    | number number split =>
      rw [split,step_number sized number] at stopped
      rw [split,List.append_assoc,step_number sized number]
      exact frame_stops stopped more
  · rw [step_sized sized] at stopped ⊢
    exact frame_stops stopped more

theorem step_hands {packet : Packet} {next : Reading} {left : List UInt8}
    (handed : reading.step env queue = .hands packet next left) (more : List UInt8) :
    reading.step env (queue ++ more) = .hands packet next (left ++ more) := by
  by_cases sized : reading.nextPacketSize = noSize
  · cases head_total queue with
    | cut walked => rw [step_cut sized walked] at handed; cases handed
    | bad walked => rw [step_bad sized walked] at handed; cases handed
    | number number split =>
      rw [split,step_number sized number] at handed
      rw [split,List.append_assoc,step_number sized number]
      exact frame_hands handed more
  · rw [step_sized sized] at handed ⊢
    exact frame_hands handed more

theorem step_waits {next : Reading} {left : List UInt8} (waited : reading.step env queue = .waits next left) :
    (next = reading ∧ left = queue ∧ (reading.nextPacketSize = noSize → walkVarint queue queue.length = some varnumOverrun)) ∨
      (reading.nextPacketSize = noSize ∧ ∃ size, Varint size ∧ queue = size ++ left ∧
        next = .sized reading.settings (varintValue size) ∧ left.length < sizeT (varintValue size).toInt) := by
  by_cases unsized : reading.nextPacketSize = noSize
  · cases head_total queue with
    | cut walked =>
      rw [step_cut unsized walked] at waited
      cases waited
      exact .inl ⟨rfl,rfl,fun _ => walked⟩
    | bad walked => rw [step_bad unsized walked] at waited; cases waited
    | @number size rest number split =>
      rw [split,step_number unsized number] at waited
      obtain ⟨rfl,rfl,short⟩ := frame_waits waited
      exact .inr ⟨unsized,size,number,split,rfl,short⟩
  · rw [step_sized unsized] at waited
    obtain ⟨rfl,rfl,_⟩ := frame_waits waited
    exact .inl ⟨rfl,rfl,fun same => absurd same unsized⟩

/-- A length that stands for no length at all is taken, and what is behind it is more than the
beginning of a number. -/
def Drops (reading : Reading) (queue : List UInt8) : Prop :=
  reading.nextPacketSize = noSize ∧ ∃ size rest, Varint size ∧ (varintValue size).toInt = noSize ∧
    queue = size ++ rest ∧ walkVarint rest rest.length ≠ some varnumOverrun

/-- The stream is read without compression and no length of it is dropped. -/
def Safe (env : Env Pak) (reading : Reading) (queue : List UInt8) : Prop :=
  ∀ after, Reaches (step env) (reading,queue) after →
    after.1.settings.compression = .uncompressed ∧ ¬ after.1.Drops after.2

theorem Safe.onward (safe : Safe env reading queue) {packet : Packet} {next : Reading} {left : List UInt8}
    (handed : reading.step env queue = .hands packet next left) : Safe env next left :=
  fun after reaches => safe after (.head ⟨packet,handed⟩ reaches)

theorem Safe.congr {next : Reading} {left : List UInt8} (safe : Safe env reading queue)
    (same : next.step env left = reading.step env queue) (settings : next.settings = reading.settings)
    (kept : ¬ next.Drops left) : Safe env next left := by
  intro after reaches
  rcases Relation.ReflTransGen.cases_head reaches with rfl | ⟨middle,⟨packet,handed⟩,reaches⟩
  · exact ⟨settings ▸ (safe _ .refl).1,kept⟩
  · exact safe after (.head ⟨packet,same.symm.trans handed⟩ reaches)

theorem steady (env : Env Pak) : Steady (step env) (Safe env) where
  stops _ _ more stopped := step_stops stopped more
  hands _ _ more _ _ _ handed := step_hands handed more
  onward _ _ _ _ _ safe handed := safe.onward handed
  waits reading queue more next left safe waited := by
    rcases step_waits waited with ⟨rfl,rfl,_⟩ | ⟨unsized,size,number,rfl,rfl,short⟩
    · exact ⟨rfl,waited,safe⟩
    · have kept := (safe _ .refl).2
      rw [List.append_assoc] at safe kept ⊢
      have same := @step_number _ env reading unsized size (left ++ more) number
      rw [step_number unsized number] at waited
      by_cases sized : (varintValue size).toInt = noSize
      · have cut : walkVarint (left ++ more) (left ++ more).length = some varnumOverrun := by
          by_contra complete
          exact kept ⟨unsized,size,_,number,sized,rfl,complete⟩
        have brief := walkVarint_overrun cut
        have never : sizeT (varintValue size).toInt = 2^64 - 1 := by rw [sized]; rfl
        have waits : (Reading.sized reading.settings (varintValue size)).frame env (left ++ more) =
            .waits (.sized reading.settings (varintValue size)) (left ++ more) := by
          refine frame_short ?_
          change (left ++ more).length < sizeT (varintValue size).toInt
          omega
        have again := @step_cut _ env (.sized reading.settings (varintValue size)) _ sized cut
        refine ⟨same.trans (waits.trans again.symm),step_cut sized (walkVarint_overrun_front cut),
          safe.congr (again.trans (waits.symm.trans same.symm)) rfl ?_⟩
        rintro ⟨_,other,rest,varint,_,split,_⟩
        rw [split,walk_number varint] at cut
        have := Option.some.inj cut
        unfold varnumOverrun at this
        omega
      · have sized_step (queue : List UInt8) := @step_sized _ env (.sized reading.settings (varintValue size)) queue sized
        refine ⟨same.trans (sized_step _).symm,(sized_step _).trans waited,
          safe.congr ((sized_step _).trans same.symm) rfl ?_⟩
        rintro ⟨unsized,_⟩
        exact sized unsized

end Reading

end CSpock.Net
