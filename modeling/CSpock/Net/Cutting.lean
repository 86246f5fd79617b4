import CSpock.Net.Reader

/-! Cuts. However a stream is cut into reads, an uncompressed connection makes the same of
it, as long as no length of it is dropped. -/
namespace CSpock.Net
open CSpock.Library.Chunked CSpock.Library.Cursor CSpock.Numeric CSpock.Varnum

variable {Pak : Type}

/-- What malloc refuses is what is larger than the largest difference of two pointers. -/
def Env.Exact (env : Env Pak) : Prop := ∀ requests size, (env.malloc requests size).isSome ↔ size < 2^63

def Env.Decodes (env : Env Pak) : Prop := ∀ state id payload, (env.genericToclientDecode state id payload).isSome

variable {env : Env Pak} {net left : Netcore}

theorem Env.Exact.bounded (exact : env.Exact) : env.Bounded := by
  intro requests size large
  refine Option.not_isSome_iff_eq_none.mp fun granted => ?_
  have := (exact requests size).mp granted
  omega

theorem Env.Exact.granted (exact : env.Exact) (requests : Nat) {size : Nat} (small : size < 2^63) :
    ∃ block, env.malloc requests size = some block :=
  Option.isSome_iff_exists.mp ((exact requests size).mpr small)

namespace Netcore

def reading (net : Netcore) (sane : net.Sane) : Reading := ⟨net.settings,net.nextPacketSize,sane.low,sane.high⟩

/-- A passage of the loop does what the step of the reader does. -/
inductive Follows (env : Env Pak) (net : Netcore) : Step Reading UInt8 Packet → Flow Packet → Prop where
  | stops : Follows env net .stops .stops
  | waits {left : Netcore} (sane : left.Sane) : Follows env net (.waits (left.reading sane) left.queue) (.breaks left)
  | hands {packet : Packet} {left : Netcore} (sane : left.Sane) (settings : left.settings = net.settings)
      (fresh : left.nextPacketSize = noSize) :
      Follows env net (.hands packet (.fresh (net.settings.after env packet)) left.queue) (.goesOn packet left)

theorem walk_queue (valid : net.Valid) :
    walkVarint net.cursor net.readBuf.inUse = walkVarint net.queue net.queue.length := by
  obtain ⟨stale,cursor⟩ := cursor_split net
  rw [cursor,inUse_queue valid,walkVarint_inside]

theorem takeAnnounced_follows (exact : env.Exact) (sane : net.Sane)
    (mode : net.settings.compression = .uncompressed) :
    Follows env net ((net.reading sane).frame env net.queue) (net.takeAnnounced env) := by
  have framing := Reading.frame_framing env (net.reading sane) net.queue
  have inUse := inUse_queue sane.valid
  generalize (net.reading sane).frame env net.queue = step at framing
  cases framing with
  | short short =>
    have short : sizeT net.nextPacketSize > net.readBuf.inUse := by rw [inUse]; exact short
    simp only [takeAnnounced,awaitPacket,if_pos short,Flow.andThen]
    exact .waits sane
  | negative whole walked negative =>
    have whole : ¬ sizeT net.nextPacketSize > net.readBuf.inUse := by rw [inUse]; exact Nat.not_lt.mpr whole
    have walked := (walk_queue sane.valid).trans walked
    simp only [takeAnnounced,awaitPacket,if_neg whole,takePacket,mode,takeVarint,walked,if_pos negative,Flow.andThen]
    exact .stops
  | @beyond whole id rest number split beyond =>
    have whole : ¬ sizeT net.nextPacketSize > net.readBuf.inUse := by rw [inUse]; exact Nat.not_lt.mpr whole
    have short := number.length_le
    have beyond : net.nextPacketSize < id.length := beyond
    have low := sane.low
    have wraps := sizeT_of_neg (show net.nextPacketSize - id.length < 0 by omega) (by omega)
    have refused := exact.bounded (net.adv id.length).requests _ wraps
    simp only [takeAnnounced,awaitPacket,if_neg whole,takePacket,mode,takeVarint_head sane.valid number split,
      Flow.andThen,takeBytes]
    have same : (net.adv id.length).nextPacketSize = net.nextPacketSize := rfl
    rw [same,refused]
    exact .stops
  | @packet id payload rest number size split =>
    have size : net.nextPacketSize = (id ++ payload).length := size
    have high := sane.high
    have whole : ¬ sizeT net.nextPacketSize > net.readBuf.inUse := by
      rw [inUse,size,sizeT_natCast (by omega),split]
      simp only [List.length_append]
      omega
    rw [List.length_append] at size
    obtain ⟨first,behind⟩ := adv_takes sane.valid split
    obtain ⟨block,granted⟩ := exact.granted (net.adv id.length).requests (show payload.length < 2^63 by omega)
    obtain ⟨last,copied,second,queue⟩ := takeBytes_exact first.valid behind granted
    have remains : sizeT ((net.adv id.length).nextPacketSize - id.length) = payload.length := by
      rw [first.size,size,show ((id.length + payload.length : Nat) : Int) - id.length = (payload.length : Nat) by omega,
        sizeT_natCast (by omega)]
    simp only [takeAnnounced,awaitPacket,if_neg whole,takePacket,mode,takeVarint_head sane.valid number split,
      Flow.andThen,remains,copied]
    have takes := first.trans second
    have sane : { last with nextPacketSize := noSize }.Sane :=
      ⟨takes.valid,takes.block ▸ sane.block,by simp [noSize],by simp [noSize]⟩
    exact queue ▸ Follows.hands sane takes.settings rfl

theorem takeFrame_follows (exact : env.Exact) (sane : net.Sane)
    (mode : net.settings.compression = .uncompressed) :
    Follows env net ((net.reading sane).step env net.queue) (net.takeFrame env) := by
  rw [takeFrame_eq]
  by_cases fresh : net.nextPacketSize = noSize
  · have unsized : (net.reading sane).nextPacketSize = noSize := fresh
    have inside := walk_queue sane.valid
    cases head_total net.queue with
    | cut walked =>
      rw [Reading.step_cut unsized walked]
      simp only [takeSize,fresh,inside.trans walked,if_true,Flow.andThen]
      exact .waits sane
    | bad walked =>
      rw [Reading.step_bad unsized walked]
      simp only [takeSize,fresh,inside.trans walked,if_true,if_neg (show varnumInvalid ≠ varnumOverrun by decide),
        Flow.andThen]
      exact .stops
    | @number size rest number split =>
      obtain ⟨takes,queue⟩ := adv_takes sane.valid split
      rw [takeSize_queued sane.valid fresh number split,split,Reading.step_number unsized number]
      let next : Netcore := { net.adv size.length with nextPacketSize := (varintValue size).toInt }
      have sound : next.Sane :=
        ⟨takes.valid,takes.block ▸ sane.block,(varintValue size).le_toInt,(varintValue size).toInt_lt⟩
      have follows := takeAnnounced_follows exact sound mode
      have queue : next.queue = rest := queue
      rw [queue] at follows
      change Follows env net _ (next.takeAnnounced env)
      change Follows env next ((Reading.sized net.settings (varintValue size)).frame env rest) _ at follows
      change Follows env net ((Reading.sized net.settings (varintValue size)).frame env rest) _
      generalize (Reading.sized net.settings (varintValue size)).frame env rest = step at follows
      generalize next.takeAnnounced env = flow at follows
      cases follows with
      | stops => exact .stops
      | waits sane => exact .waits sane
      | hands sane settings fresh => exact .hands sane settings fresh
  · have sized : (net.reading sane).nextPacketSize ≠ noSize := fresh
    rw [takeSize_sized fresh,Reading.step_sized sized]
    exact takeAnnounced_follows exact sane mode

theorem reading_congr {other : Netcore} {sane : net.Sane} {sound : other.Sane} (settings : net.settings = other.settings)
    (size : net.nextPacketSize = other.nextPacketSize) : net.reading sane = other.reading sound := by
  simp only [reading,settings,size]

end Netcore

/-- The read path is as it is at the end of a drain, or has stopped like it. -/
inductive Returns : Option Netcore → Option (Reading × List UInt8) → Prop where
  | stopped : Returns none none
  | waiting {left : Netcore} (sane : left.Sane) : Returns (some left) (some (left.reading sane,left.queue))

/-- No state behind a packet of the stream is compressed. -/
def Reading.Plain (env : Env Pak) (reading : Reading) (queue : List UInt8) : Prop :=
  ∀ after, Reaches (Reading.step env) (reading,queue) after → after.1.settings.compression = .uncompressed

theorem Reading.Safe.plain {reading : Reading} {queue more : List UInt8} (safe : Reading.Safe env reading (queue ++ more)) :
    Reading.Plain env reading queue :=
  fun _ reaches => (safe _ (reaches.append (Reading.steady env) more)).1

theorem readLoop_drains (exact : env.Exact) (decodes : env.Decodes) {rounds : Nat} (sane : net.Sane)
    (plain : Reading.Plain env (net.reading sane) net.queue) (enough : net.queue.length < rounds) :
    ∃ outcome, Drains (Reading.step env) (net.reading sane) net.queue (decoded (readLoop env rounds net).trace) outcome ∧
      Returns (readLoop env rounds net).outcome outcome := by
  induction rounds generalizing net with
  | zero => omega
  | succ rounds ih =>
    have follows := Netcore.takeFrame_follows exact sane (plain _ .refl)
    have inUse := Netcore.inUse_queue sane.valid
    generalize took : net.takeFrame env = flow at follows
    generalize stepped : (net.reading sane).step env net.queue = step at follows
    cases follows with
    | stops =>
      refine ⟨none,?_,?_⟩
      · simpa only [readLoop,took] using .stops stepped
      · simpa only [readLoop,took] using .stopped
    | @waits left sound =>
      refine ⟨some (left.reading sound,left.queue),?_,?_⟩
      · simpa only [readLoop,took] using .waits stepped
      · simpa only [readLoop,took] using .waiting sound
    | @hands packet left sound settings fresh =>
      obtain ⟨pak,decoding⟩ := Option.isSome_iff_exists.mp (decodes left.settings.protoState packet.id packet.payload)
      have after : emit env left.settings packet.id pak = net.settings.after env packet := by
        rw [← settings]
        simp only [Settings.after,decoding]
      let next : Netcore := { left with settings := emit env left.settings packet.id pak }
      have sane : next.Sane := ⟨sound.valid,sound.block,sound.low,sound.high⟩
      have same : Reading.fresh (net.settings.after env packet) = next.reading sane := by
        simp only [Reading.fresh,Netcore.reading,next,after,fresh]
      rw [same] at stepped
      have less : next.queue.length < rounds := by
        have less := Netcore.takeFrame_inUse took
        rw [Netcore.inUse_queue sound.valid,inUse] at less
        change left.queue.length < rounds
        omega
      obtain ⟨outcome,drains,returns⟩ :=
        ih sane (fun last reaches => plain last (.head ⟨packet,stepped⟩ reaches)) less
      refine ⟨outcome,?_,?_⟩
      · simpa only [readLoop,took,decoding] using .hands stepped drains
      · simpa only [readLoop,took,decoding] using returns

theorem receive_drains (exact : env.Exact) (decodes : env.Decodes) (sane : net.Sane) {read : Read} {roomy : Netcore}
    (arrived : arrive env net read = some roomy)
    (plain : Reading.Plain env (net.reading sane) (net.queue ++ read.chunk)) :
    ∃ outcome, Drains (Reading.step env) (net.reading sane) (net.queue ++ read.chunk)
        (decoded (receive env net read).trace) outcome ∧ Returns (receive env net read).outcome outcome := by
  obtain ⟨_,queue,settings,size⟩ := arrive_spec sane.valid arrived
  have sound := arrive_sane exact.bounded sane arrived
  have same : net.reading sane = (roomy.received read.chunk.length).reading sound :=
    Netcore.reading_congr settings.symm size.symm
  rw [same,← queue] at plain ⊢
  rw [receive_arrived arrived]
  refine readLoop_drains exact decodes sound plain ?_
  rw [Netcore.inUse_queue sound.valid]
  omega

/-- The buffer finds room for every read of the run. -/
def Roomy (env : Env Pak) : Netcore → List Read → Prop
  | _,[] => True
  | net,read::reads => (arrive env net read).isSome ∧
    ∀ next, (receive env net read).outcome = some next → Roomy env next reads

theorem run_feeds (exact : env.Exact) (decodes : env.Decodes) (sane : net.Sane) {reads : List Read}
    (roomy : Roomy env net reads)
    (safe : Reading.Safe env (net.reading sane) (net.queue ++ (reads.map Read.chunk).flatten)) :
    ∃ outcome, Feeds (Reading.step env) (net.reading sane) net.queue (reads.map Read.chunk)
        (decoded (run env net reads).trace) outcome ∧ Returns (run env net reads).outcome outcome := by
  induction reads generalizing net with
  | nil => exact ⟨_,.done,.waiting sane⟩
  | cons read reads ih =>
    obtain ⟨room,rooms⟩ := roomy
    obtain ⟨roomy,arrived⟩ := Option.isSome_iff_exists.mp room
    rw [List.map_cons,List.flatten_cons,← List.append_assoc] at safe
    obtain ⟨outcome,drains,returns⟩ := receive_drains exact decodes sane arrived safe.plain
    generalize returned : (receive env net read).outcome = last at returns
    cases returns with
    | stopped =>
      refine ⟨none,?_,?_⟩
      · simpa only [run,returned,List.map_cons] using .stop drains
      · simpa only [run,returned] using .stopped
    | @waiting next sound =>
      obtain ⟨_,safe,_⟩ := drains.append_waiting (Reading.steady env) safe
      obtain ⟨outcome,feeds,returns⟩ := ih sound (rooms next returned) safe
      refine ⟨outcome,?_,?_⟩
      · simpa only [run,returned,List.map_cons,decoded_append] using .next drains feeds
      · simpa only [run,returned] using returns

/-- The same packets are dispatched, and both runs stop the process or both reach the end with the
same bytes unread and the same size pending. -/
structure Agree (first second : Call) : Prop where
  packets : decoded first.trace = decoded second.trace
  ends : (first.outcome = none ∧ second.outcome = none) ∨
    ∃ left right, first.outcome = some left ∧ second.outcome = some right ∧
      left.readBuf.queue = right.readBuf.queue ∧ left.nextPacketSize = right.nextPacketSize

theorem Returns.ends {first second : Option Netcore} {outcome : Option (Reading × List UInt8)}
    (returns : Returns first outcome) (again : Returns second outcome) :
    (first = none ∧ second = none) ∨ ∃ left right, first = some left ∧ second = some right ∧
      left.readBuf.queue = right.readBuf.queue ∧ left.nextPacketSize = right.nextPacketSize := by
  cases returns with
  | stopped => cases again with
    | stopped => exact .inl ⟨rfl,rfl⟩
  | @waiting left sane =>
    generalize same : some (left.reading sane,left.queue) = outcome at again
    cases again with
    | stopped => cases same
    | @waiting right sound =>
      obtain ⟨reading,queue⟩ := Prod.mk.inj (Option.some.inj same)
      exact .inr ⟨left,right,rfl,rfl,queue,congrArg Reading.nextPacketSize reading⟩

/-- The frames at the front of the stream leave compression off. -/
def StaysUncompressed (env : Env Pak) (settings : Settings) (bytes : List UInt8) : Prop :=
  ∀ packets front rest, Framed env env.Inflates settings packets front → bytes = front ++ rest →
    (packets.foldl (Settings.after env) settings).compression = .uncompressed

/-- Behind some frames the stream has a length of -1, which is the value for no length, and behind
that a whole number or one that is refused. -/
def Dropped (env : Env Pak) (settings : Settings) (bytes : List UInt8) : Prop :=
  ∃ packets front size rest, Framed env env.Inflates settings packets front ∧ Varint size ∧
    (varintValue size).toInt = noSize ∧ bytes = front ++ (size ++ rest) ∧
    walkVarint rest rest.length ≠ some varnumOverrun

structure Cuts (env : Env Pak) (net : Netcore) (bytes : List UInt8) (reads : List Read) : Prop where
  whole : (reads.map Read.chunk).flatten = bytes
  roomy : Roomy env net reads

/-- Any two ways to cut the stream come to the same. -/
def CutsAgree (env : Env Pak) (net : Netcore) (bytes : List UInt8) : Prop :=
  ∀ first second, Cuts env net bytes first → Cuts env net bytes second → Agree (run env net first) (run env net second)

section Frames
variable {settings : Settings} {bytes : List UInt8}

theorem Reading.step_frame {packet : Packet} {next : Reading} {left : List UInt8}
    (handed : (Reading.fresh settings).step env bytes = .hands packet next left) :
    next = .fresh (settings.after env packet) ∧ ∃ size body, Varint size ∧ (varintValue size).toInt = body.length ∧
      Body env.Inflates .uncompressed packet body ∧ bytes = size ++ (body ++ left) := by
  cases head_total bytes with
  | cut walked => rw [Reading.step_cut rfl walked] at handed; cases handed
  | bad walked => rw [Reading.step_bad rfl walked] at handed; cases handed
  | @number size rest number split =>
    rw [split,Reading.step_number rfl number] at handed
    have framing := Reading.frame_framing env (.sized settings (varintValue size)) rest
    change (Reading.sized settings (varintValue size)).frame env rest = _ at handed
    rw [handed] at framing
    cases framing with
    | @packet id payload rest varint total behind =>
      exact ⟨rfl,size,id ++ payload,number,total,.uncompressed varint,by rw [split,behind,List.append_assoc]⟩

theorem reaches_framed (stays : StaysUncompressed env settings bytes) {after : Reading × List UInt8}
    (reaches : Reaches (Reading.step env) (.fresh settings,bytes) after) :
    ∃ packets front, Framed env env.Inflates settings packets front ∧ bytes = front ++ after.2 ∧
      after.1 = .fresh (packets.foldl (Settings.after env) settings) := by
  induction reaches with
  | refl => exact ⟨[],[],.nil,rfl,rfl⟩
  | @tail middle last _ handed ih =>
    obtain ⟨packets,front,framed,split,reading⟩ := ih
    obtain ⟨packet,handed⟩ := handed
    rw [reading] at handed
    obtain ⟨next,size,body,number,total,frame,behind⟩ := Reading.step_frame handed
    have mode := stays packets front _ framed split
    rw [← mode] at frame
    refine ⟨packets ++ [packet],front ++ (size ++ (body ++ [])),framed.append (.cons number total frame .nil),?_,?_⟩
    · rw [split,behind]
      simp
    · rw [next,List.foldl_append]
      rfl

theorem Framed.drains {packets : List Packet} {front rest : List UInt8}
    (framed : Framed env env.Inflates settings packets front) (stays : StaysUncompressed env settings (front ++ rest))
    {items : List Packet} {outcome : Option (Reading × List UInt8)}
    (drains : Drains (Reading.step env) (.fresh (packets.foldl (Settings.after env) settings)) rest items outcome) :
    Drains (Reading.step env) (.fresh settings) (front ++ rest) (packets ++ items) outcome := by
  induction framed with
  | nil => exact drains
  | @cons settings packet packets size body behind number total frame tail ih =>
    have mode : settings.compression = .uncompressed := stays [] [] _ .nil rfl
    have further : StaysUncompressed env (settings.after env packet) (behind ++ rest) := by
      intro others front left framed split
      refine stays (packet::others) (size ++ (body ++ front)) left (.cons number total frame framed) ?_
      rw [List.append_assoc,List.append_assoc,split]
      simp
    have onward := ih further drains
    rw [mode] at frame
    cases frame with
    | @uncompressed id payload varint =>
      refine .hands ?_ onward
      rw [List.append_assoc,List.append_assoc,List.append_assoc,Reading.step_number rfl number]
      exact Reading.frame_packet varint total

theorem stays_plain (stays : StaysUncompressed env settings bytes) :
    Reading.Plain env (.fresh settings) bytes := by
  intro after reaches
  obtain ⟨packets,front,framed,split,reading⟩ := reaches_framed stays reaches
  rw [reading]
  exact stays packets front _ framed split

theorem stays_safe (stays : StaysUncompressed env settings bytes) (kept : ¬ Dropped env settings bytes) :
    Reading.Safe env (.fresh settings) bytes := by
  intro after reaches
  refine ⟨stays_plain stays after reaches,?_⟩
  rintro ⟨_,size,rest,number,nothing,behind,complete⟩
  obtain ⟨packets,front,framed,split,_⟩ := reaches_framed stays reaches
  exact kept ⟨packets,front,size,rest,framed,number,nothing,by rw [split,behind],complete⟩

end Frames

theorem Netcore.reading_fresh (sane : net.Sane) (fresh : net.nextPacketSize = noSize) :
    net.reading sane = .fresh net.settings := by
  simp only [reading,Reading.fresh,fresh]

theorem cutsAgree_of_kept (exact : env.Exact) (decodes : env.Decodes) (sane : net.Sane)
    (fresh : net.nextPacketSize = noSize) (empty : net.queue = []) {bytes : List UInt8}
    (stays : StaysUncompressed env net.settings bytes) (kept : ¬ Dropped env net.settings bytes) :
    CutsAgree env net bytes := by
  rintro first second ⟨whole,roomy⟩ ⟨same,rooms⟩
  have safe := stays_safe stays kept
  have idle : Reading.step env (.fresh net.settings) [] = .waits (.fresh net.settings) [] :=
    Reading.step_cut rfl rfl
  have reading := net.reading_fresh sane fresh
  obtain ⟨outcome,feeds,returns⟩ := run_feeds exact decodes sane roomy (by rwa [reading,empty,List.nil_append,whole])
  obtain ⟨other,again,ends⟩ := run_feeds exact decodes sane rooms (by rwa [reading,empty,List.nil_append,same])
  rw [reading,empty] at feeds again
  obtain ⟨packets,rfl⟩ := feeds.unique (Reading.steady env) again (whole.trans same.symm) idle
    (by rwa [List.nil_append,whole])
  exact ⟨packets,returns.ends ends⟩

theorem Env.Exact.arrives (exact : env.Exact) {read : Read} (empty : net.readBuf.inUse = 0) (small : read.size < 2^63) :
    ∃ roomy, arrive env net read = some roomy := by
  obtain ⟨block,granted⟩ := exact.granted net.requests (show net.readBuf.inUse + read.size < 2^63 by omega)
  exact arrive_granted granted

theorem receive_resumes (exact : env.Exact) (decodes : env.Decodes) (sane : net.Sane)
    (fresh : net.nextPacketSize = noSize) (mode : net.settings.compression = .uncompressed) (empty : net.queue = [])
    {read : Read} {roomy : Netcore} (arrived : arrive env net read = some roomy)
    (complete : walkVarint read.chunk read.chunk.length ≠ some varnumOverrun)
    (quiet : decoded (receive env net read).trace = []) {right : Netcore}
    (returned : (receive env net read).outcome = some right) : right.queue ≠ read.chunk := by
  obtain ⟨_,queue,settings,size⟩ := arrive_spec sane.valid arrived
  have sound := arrive_sane exact.bounded sane arrived
  rw [receive_arrived arrived] at quiet returned
  generalize roomy.received read.chunk.length = received at quiet returned queue settings size sound
  have follows := Netcore.takeFrame_follows exact sound (settings ▸ mode)
  rw [empty,List.nil_append] at queue
  generalize took : received.takeFrame env = flow at follows
  generalize stepped : (received.reading sound).step env received.queue = step at follows
  cases follows with
  | stops => simp [readLoop,took] at returned
  | @waits left sane =>
    simp only [readLoop,took,Option.some.injEq] at returned
    subst returned
    intro same
    rcases Reading.step_waits stepped with ⟨_,_,cut⟩ | ⟨_,prefixed,number,split,_⟩
    · rw [queue] at cut
      exact complete (cut (size.trans fresh))
    · have positive := number.length_pos
      have length := congrArg List.length split
      rw [queue,same,List.length_append] at length
      omega
  | @hands packet left _ _ _ =>
    obtain ⟨pak,decoding⟩ := Option.isSome_iff_exists.mp (decodes left.settings.protoState packet.id packet.payload)
    simp [readLoop,took,decoding,decoded] at quiet

theorem StaysUncompressed.front {settings : Settings} {bytes more : List UInt8}
    (stays : StaysUncompressed env settings (bytes ++ more)) : StaysUncompressed env settings bytes := by
  intro packets front rest framed split
  exact stays packets front (rest ++ more) framed (by rw [split,List.append_assoc])

/-- A call that takes a dropped length ends with it, whatever else it has been given. -/
theorem receive_dropped (exact : env.Exact) (decodes : env.Decodes) (sane : net.Sane)
    (fresh : net.nextPacketSize = noSize) (empty : net.queue = []) {packets : List Packet}
    {front size more : List UInt8} (framed : Framed env env.Inflates net.settings packets front)
    (number : Varint size) (nothing : (varintValue size).toInt = noSize)
    (stays : StaysUncompressed env net.settings (front ++ (size ++ more))) {read : Read}
    (chunk : read.chunk = front ++ (size ++ more)) {roomy : Netcore} (arrived : arrive env net read = some roomy)
    (small : more.length < 2^63) :
    ∃ left, left.Sane ∧ (receive env net read).outcome = some left ∧ decoded (receive env net read).trace = packets ∧
      left.queue = more ∧ left.nextPacketSize = noSize ∧
      left.settings = packets.foldl (Settings.after env) net.settings := by
  have reading := net.reading_fresh sane fresh
  obtain ⟨outcome,drains,returns⟩ := receive_drains exact decodes sane arrived
    (by rw [reading,empty,List.nil_append,chunk]; exact stays_plain stays)
  rw [reading,empty,List.nil_append,chunk] at drains
  let settings := packets.foldl (Settings.after env) net.settings
  have taken : Reading.step env (.fresh settings) (size ++ more) = .waits (.sized settings (varintValue size)) more := by
    refine (Reading.step_number rfl number).trans (Reading.frame_short ?_)
    change more.length < sizeT (varintValue size).toInt
    have never : sizeT (varintValue size).toInt = 2^64 - 1 := by rw [nothing]; rfl
    omega
  obtain ⟨trace,rfl⟩ := drains.unique (framed.drains stays (.waits taken))
  rw [List.append_nil] at trace
  generalize returned : (receive env net read).outcome = last at returns
  generalize same : some (Reading.sized settings (varintValue size),more) = outcome at returns
  cases returns with
  | stopped => cases same
  | @waiting left sane =>
    obtain ⟨reading,queue⟩ := Prod.mk.inj (Option.some.inj same)
    have pending : (varintValue size).toInt = left.nextPacketSize := congrArg Reading.nextPacketSize reading
    exact ⟨left,sane,rfl,trace,queue.symm,pending.symm.trans nothing,(congrArg Reading.settings reading).symm⟩

theorem run_single (net : Netcore) (read : Read) : run env net [read] = receive env net read := by
  simp only [run]
  split
  next => rfl
  next next returned => rw [List.append_nil,← returned]

theorem not_cutsAgree_of_dropped (exact : env.Exact) (decodes : env.Decodes) (sane : net.Sane)
    (fresh : net.nextPacketSize = noSize) (empty : net.queue = []) {bytes : List UInt8}
    (stays : StaysUncompressed env net.settings bytes) (small : bytes.length < 2^63)
    (dropped : Dropped env net.settings bytes) : ¬ CutsAgree env net bytes := by
  obtain ⟨packets,front,size,rest,framed,number,nothing,split,complete⟩ := dropped
  have length := congrArg List.length split
  simp only [List.length_append] at length
  have inUse : net.readBuf.inUse = 0 := by rw [Netcore.inUse_queue sane.valid,empty]; rfl
  -- all of the stream in one call
  let whole : Read := ⟨bytes.length,bytes,Nat.le_refl _⟩
  obtain ⟨_,arrived⟩ := exact.arrives inUse (show whole.size < 2^63 from small)
  obtain ⟨left,_,returned,trace,unread,_,_⟩ := receive_dropped exact decodes sane fresh empty framed number nothing
    (split ▸ stays) split arrived (show rest.length < 2^63 by omega)
  -- a call that ends behind the dropped length, and one with the rest
  let half : Read := ⟨(front ++ size).length,front ++ size,Nat.le_refl _⟩
  have short : half.size < 2^63 := by
    change (front ++ size).length < 2^63
    rw [List.length_append]
    omega
  obtain ⟨_,came⟩ := exact.arrives inUse short
  have stops : StaysUncompressed env net.settings (front ++ (size ++ [])) := by
    rw [split,← List.append_assoc] at stays
    rw [List.append_nil]
    exact stays.front
  obtain ⟨middle,sound,paused,begun,drained,pending,settings⟩ := receive_dropped exact decodes sane fresh empty framed
    number nothing stops (show half.chunk = front ++ (size ++ []) by rw [List.append_nil]) came (by simp)
  let last : Read := ⟨rest.length,rest,Nat.le_refl _⟩
  have nothing : middle.readBuf.inUse = 0 := by rw [Netcore.inUse_queue sound.valid,drained]; rfl
  obtain ⟨_,again⟩ := exact.arrives nothing (show last.size < 2^63 by change rest.length < 2^63; omega)
  have one : Cuts env net bytes [whole] := ⟨by simp [whole],by simp [arrived],fun _ _ => trivial⟩
  have two : Cuts env net bytes [half,last] := by
    refine ⟨by simp [half,last,split],by simp [came],fun next outcome => ?_⟩
    rw [paused] at outcome
    cases outcome
    exact ⟨by simp [again],fun _ _ => trivial⟩
  intro agrees
  obtain ⟨same,ends⟩ := agrees _ _ one two
  have second : run env net [half,last] =
      ⟨(receive env net half).trace ++ (receive env middle last).trace,(receive env middle last).outcome⟩ := by
    rw [run]
    simp only [paused,run_single]
  rw [run_single,second] at same ends
  simp only [decoded_append,trace,begun] at same
  rcases ends with ⟨stopped,_⟩ | ⟨final,right,final_eq,outcome,queue,_⟩
  · rw [returned] at stopped
    cases stopped
  · rw [returned] at final_eq
    cases final_eq
    have mode : middle.settings.compression = .uncompressed := settings ▸ stays packets front _ framed split
    refine receive_resumes exact decodes sound pending mode drained again complete ?_ outcome (queue.symm.trans unread)
    exact List.append_right_eq_self.mp same.symm

/-- Wherever an uncompressed stream is cut, the same packets are dispatched and the core is left in the same
state, if no length of the stream is dropped. Of a stream with a dropped length two cuts differ. -/
theorem run_cuts (exact : env.Exact) (decodes : env.Decodes) (sane : net.Sane)
    (fresh : net.nextPacketSize = noSize) (empty : net.queue = []) {bytes : List UInt8}
    (stays : StaysUncompressed env net.settings bytes) :
    (¬ Dropped env net.settings bytes → CutsAgree env net bytes) ∧
      (bytes.length < 2^63 → CutsAgree env net bytes → ¬ Dropped env net.settings bytes) :=
  ⟨cutsAgree_of_kept exact decodes sane fresh empty stays,
    fun small agrees dropped => not_cutsAgree_of_dropped exact decodes sane fresh empty stays small dropped agrees⟩

theorem Framed.before_dropped {zip : List UInt8 → List UInt8 → Prop} {settings : Settings} {packets : List Packet}
    {front rest size more : List UInt8} (framed : Framed env zip settings packets front) (number : Varint size)
    (nothing : (varintValue size).toInt = noSize) (split : size ++ more = front ++ rest) : packets = [] ∧ front = [] := by
  cases framed with
  | nil => exact ⟨rfl,rfl⟩
  | cons other total _ _ =>
    rw [List.append_assoc] at split
    obtain ⟨rfl,_⟩ := Groups.unique number other split
    rw [nothing,noSize] at total
    omega

theorem storedZip_exact : storedZip.Exact := by
  intro requests size
  change (if size < 2^63 then some _ else none : Option (Block size)).isSome ↔ _
  split
  next small => exact iff_of_true rfl small
  next large => exact iff_of_false (by simp) large

theorem storedZip_decodes : storedZip.Decodes := fun _ _ _ => rfl

theorem loginNet_sane : loginNet.Sane := by
  refine ⟨loginNet_valid,?_,by decide,by decide⟩
  change (List.replicate 4096 (0 : UInt8)).length < 2^63
  rw [List.length_replicate]
  decide

def minusOne : List UInt8 := [0xFF,0xFF,0xFF,0xFF,0x0F]

theorem minusOne_varint : Varint minusOne :=
  .more (by decide) (.more (by decide) (.more (by decide) (.more (by decide) (.last (by decide)))))

theorem minusOne_value : (varintValue minusOne).toInt = noSize := by decide +kernel

theorem minusOne_stays (more : List UInt8) : StaysUncompressed storedZip loginNet.settings (minusOne ++ more) := by
  intro packets front rest framed split
  obtain ⟨rfl,_⟩ := framed.before_dropped minusOne_varint minusOne_value split
  rfl

/-- Behind the dropped length there is only the beginning of a number. -/
theorem run_cuts_minusOne : CutsAgree storedZip loginNet (minusOne ++ [0x81]) := by
  refine (run_cuts storedZip_exact storedZip_decodes loginNet_sane rfl rfl (minusOne_stays _)).1 ?_
  rintro ⟨packets,front,size,rest,framed,number,nothing,split,complete⟩
  obtain ⟨_,rfl⟩ := framed.before_dropped minusOne_varint minusOne_value split
  obtain ⟨rfl,rfl⟩ := Groups.unique minusOne_varint number split
  exact complete rfl

/-- A packet behind a dropped length: it is only taken if another call begins before it. -/
def oneRead : List Read := [⟨4096,minusOne ++ [0x01,0x00],by decide⟩]
def twoReads : List Read := [⟨4096,minusOne,by decide⟩,⟨4096,[0x01,0x00],by decide⟩]

theorem run_cuts_fails : ¬ ∀ (env : Env (List UInt8)) (net : Netcore) (bytes : List UInt8), env.Exact → env.Decodes →
    net.Sane → net.nextPacketSize = noSize → net.queue = [] → StaysUncompressed env net.settings bytes →
    CutsAgree env net bytes := by
  intro agrees
  have one : Cuts storedZip loginNet (minusOne ++ [0x01,0x00]) oneRead :=
    ⟨rfl,by decide +kernel,fun _ _ => trivial⟩
  have two : Cuts storedZip loginNet (minusOne ++ [0x01,0x00]) twoReads := by
    refine ⟨rfl,by decide +kernel,fun next outcome => ⟨?_,fun _ _ => trivial⟩⟩
    have room : ((receive storedZip loginNet ⟨4096,minusOne,by decide⟩).outcome.map fun next =>
        (arrive storedZip next ⟨4096,[0x01,0x00],by decide⟩).isSome) = some true := by decide +kernel
    rw [outcome] at room
    exact Option.some.inj room
  have same := (agrees storedZip loginNet _ storedZip_exact storedZip_decodes loginNet_sane rfl rfl
    (minusOne_stays _) oneRead twoReads one two).packets
  have first : decoded (run storedZip loginNet oneRead).trace = [] := by decide +kernel
  have second : decoded (run storedZip loginNet twoReads).trace = [⟨0,[]⟩] := by decide +kernel
  rw [first,second] at same
  cases same

end CSpock.Net
