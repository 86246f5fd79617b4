import CSpock.Net.Framing

/-! What the read path makes of any stream, framed or not. -/
namespace CSpock.Net
open CSpock.Numeric CSpock.Varnum

variable {Pak : Type}

/-- The relation between a content and its stream that zlib itself testifies to. -/
def Env.Inflates (env : Env Pak) (content stream : List UInt8) : Prop :=
  env.inflate stream content.length = some content

/-- A passage of the loop that goes on, up to the next one. -/
inductive Round (env : Env Pak) : Netcore → Netcore → Prop where
  | mk {net left : Netcore} {packet : Packet} {pak : Pak} (took : net.takeFrame env = .goesOn packet left)
      (decodes : env.genericToclientDecode left.settings.protoState packet.id packet.payload = some pak) :
      Round env net { left with settings := emit env left.settings packet.id pak }

/-- The loop begins a passage in the state `head` somewhere in the run. -/
inductive Enters (env : Env Pak) : Netcore → List Read → Netcore → Prop where
  | first {net roomy head : Netcore} {read : Read} {reads : List Read} (arrived : arrive env net read = some roomy)
      (rounds : Relation.ReflTransGen (Round env) (roomy.received read.chunk.length) head) :
      Enters env net (read::reads) head
  | later {net next head : Netcore} {read : Read} {reads : List Read}
      (outcome : (receive env net read).outcome = some next) (enters : Enters env next reads head) :
      Enters env net (read::reads) head

namespace Netcore

/-- The queue holds a whole frame with its length prefix taken, or with it in front. -/
def Ready (net : Netcore) (body behind : List UInt8) : Prop :=
  (net.nextPacketSize = body.length ∧ net.queue = body ++ behind) ∨
    (net.nextPacketSize = noSize ∧ ∃ size, Varint size ∧ (varintValue size).toInt = body.length ∧
      net.queue = size ++ (body ++ behind))

/-- What the code takes on trust from the other side: sizes that are not negative, a data length inside
of its frame and a stream that inflates to as many bytes as announced. -/
structure Announced (env : Env Pak) (net : Netcore) : Prop where
  size : net.nextPacketSize = noSize → ∀ size behind, Varint size → net.queue = size ++ behind →
    0 ≤ (varintValue size).toInt
  zipped : net.settings.compression = .compressed → ∀ body behind, net.Ready body behind →
    ∀ dataLen after, Varint dataLen → body ++ behind = dataLen ++ after → 0 < (varintValue dataLen).toInt →
      ∃ stream, body = dataLen ++ stream ∧ ∀ written,
        env.inflate stream (varintValue dataLen).toInt.toNat = some written →
          written.length = (varintValue dataLen).toInt

/-- A state to wait in: a prefix is not complete, or the frame that it announces is not. -/
inductive Awaits (net : Netcore) : Prop where
  | size (fresh : net.nextPacketSize = noSize)
      (cut : ∀ size behind, net.queue = size ++ behind → ¬ Varint size) : Awaits net
  | body (length : Nat) (small : length < 2^31) (size : net.nextPacketSize = length)
      (short : net.queue.length < length) : Awaits net

variable {env : Env Pak} {net left : Netcore}

theorem sizeT_sub {size step : Nat} (small : size < 2^31) (short : step ≤ 10)
    (fits : sizeT (size - step : Int) < 2^63) : step ≤ size ∧ sizeT (size - step : Int) = size - step := by
  by_cases inside : step ≤ size
  · exact ⟨inside,sizeSub_natCast inside (by omega)⟩
  · have wraps := sizeT_of_neg (show (size - step : Int) < 0 by omega) (by omega)
    omega

theorem takePacket_uncompressed (bounded : env.Bounded) (valid : net.Valid)
    (mode : net.settings.compression = .uncompressed) {size : Nat} (announced : net.nextPacketSize = size)
    (small : size < 2^31) (whole : size ≤ net.queue.length) {packet : Packet}
    (took : net.takePacket env = .goesOn packet left) :
    ∃ body, body.length = size ∧ net.Takes body left ∧ Body env.Inflates .uncompressed packet body := by
  simp only [takePacket,mode,Flow.andThen_goesOn] at took
  obtain ⟨⟨id,ret⟩,middle,tookId,payload,last,tookPayload,same⟩ := took
  cases same
  obtain ⟨idBytes,takesId,number,rfl,rfl⟩ := takeVarint_goesOn valid tookId
  have queued := congrArg List.length takesId.queue
  rw [List.length_append] at queued
  dsimp only at tookPayload
  rw [takesId.size,announced] at tookPayload
  have short : idBytes.length ≤ 10 := Nat.le_trans number.length_le (by omega)
  obtain ⟨fits,length,takesPayload⟩ := takeBytes_goesOn bounded takesId.valid tookPayload fun fits => by
    have := sizeT_sub small short fits
    omega
  obtain ⟨inside,remains⟩ := sizeT_sub small short fits
  refine ⟨idBytes ++ payload,?_,takesId.trans takesPayload,.uncompressed number⟩
  rw [List.length_append,length,remains]
  omega

theorem takePacket_verbatim (bounded : env.Bounded) {size : Nat}
    (announced : net.nextPacketSize = size) (small : size < 2^31) (whole : size ≤ net.queue.length)
    {zero : List UInt8} (plain : Varint zero) {middle : Netcore} (takesZero : net.Takes zero middle)
    {id : Int32} {ret : Int} {next : Netcore} (tookId : middle.takeVarint = .goesOn (id,ret) next)
    {payload : List UInt8}
    (tookPayload : next.takeBytes env (sizeSub (sizeT (net.nextPacketSize - zero.length)) ret) = .goesOn payload left) :
    ∃ idBytes, Varint idBytes ∧ id = varintValue idBytes ∧ (zero ++ (idBytes ++ payload)).length = size ∧
      net.Takes (zero ++ (idBytes ++ payload)) left := by
  obtain ⟨idBytes,takesId,number,rfl,rfl⟩ := takeVarint_goesOn takesZero.valid tookId
  have queued := congrArg List.length takesZero.queue
  have further := congrArg List.length takesId.queue
  rw [List.length_append] at queued further
  have shortZero := plain.length_le
  have shortId := number.length_le
  have short : zero.length + idBytes.length ≤ 10 := by
    have := plain.length_le
    have := number.length_le
    omega
  have folded : sizeSub (sizeT (net.nextPacketSize - zero.length)) idBytes.length =
      sizeT (size - (zero.length + idBytes.length : Nat)) := by
    rw [announced]
    unfold sizeSub sizeT
    omega
  rw [folded] at tookPayload
  obtain ⟨fits,length,takesPayload⟩ := takeBytes_goesOn bounded takesId.valid tookPayload fun fits => by
    have := sizeT_sub small short fits
    omega
  obtain ⟨inside,remains⟩ := sizeT_sub small short fits
  refine ⟨idBytes,number,rfl,?_,takesZero.trans (takesId.trans takesPayload)⟩
  simp only [List.length_append,length,remains]
  omega

theorem takeInflated_nonneg (bounded : env.Bounded) {length : Int} (low : -2^31 ≤ length) {compressedSize : Nat}
    {packet : Packet} (took : net.takeInflated env (sizeT length) compressedSize = .goesOn packet left) :
    0 ≤ length := by
  by_contra negative
  have refused := bounded net.requests _ (sizeT_of_neg (show length < 0 by omega) (by omega))
  simp [takeInflated,refused] at took

theorem takeInflated_sound (valid : net.Valid) {length : Int} {stream behind : List UInt8}
    (small : length < 2^31) (nonneg : 0 ≤ length) (split : net.queue = stream ++ behind)
    (short : stream.length < 2^32)
    (inflates : ∀ written, env.inflate stream length.toNat = some written → written.length = length)
    {packet : Packet} (took : net.takeInflated env (sizeT length) stream.length = .goesOn packet left) :
    net.Takes stream left ∧ ∃ id payload, Varint id ∧ packet = ⟨varintValue id,payload⟩ ∧
      length = (id ++ payload).length ∧ env.Inflates (id ++ payload) stream := by
  obtain ⟨stale,cursor⟩ := cursor_split net
  have window : net.cursor.take (stream.length % 2^32) = stream := by
    rw [cursor,split,Nat.mod_eq_of_lt short,List.append_assoc,List.take_left]
  unfold takeInflated at took
  split at took
  next => cases took
  next block granted =>
    obtain ⟨dataLen,rfl⟩ := Int.eq_ofNat_of_zero_le nonneg
    have size : sizeT (dataLen : Int) = dataLen := sizeT_natCast (by omega)
    simp only [size,window,Nat.mod_eq_of_lt (show dataLen < 2^32 by omega)] at took
    split at took
    next => cases took
    next written inflated =>
      have full : written.length = dataLen := by
        have := inflates written inflated
        omega
      have nothing : block.1.drop written.length = [] := List.drop_eq_nil_of_le (by rw [block.2,size,full])
      simp only [nothing,List.append_nil] at took
      split at took
      next => cases took
      next ret walked =>
        split at took
        next => cases took
        next accepted =>
          obtain ⟨id,payload,rfl,number,rfl,inside⟩ := walkVarint_accepts walked (by omega)
          rw [decVarint_varint number] at took
          have remains : sizeSub dataLen id.length = payload.length := by
            rw [sizeSub_natCast inside (by omega),← full,List.length_append]
            omega
          simp only [remains,List.take_length] at took
          cases took
          obtain ⟨takes,_⟩ := adv_takes valid split
          refine ⟨takes.requested _,id,payload,number,rfl,by rw [full],?_⟩
          rw [Env.Inflates,full]
          exact inflated

theorem takePacket_sound (bounded : env.Bounded) (valid : net.Valid) {size : Nat}
    (announcedSize : net.nextPacketSize = size) (small : size < 2^31) (whole : size ≤ net.queue.length)
    (announced : Announced env net) {packet : Packet} (took : net.takePacket env = .goesOn packet left) :
    ∃ body, body.length = size ∧ net.Takes body left ∧ Body env.Inflates net.settings.compression packet body := by
  cases mode : net.settings.compression with
  | uncompressed => exact takePacket_uncompressed bounded valid mode announcedSize small whole took
  | compressed =>
    simp only [takePacket,mode,Flow.andThen_goesOn] at took
    obtain ⟨⟨tmp,ret⟩,middle,tookLen,took⟩ := took
    obtain ⟨dataLen,takesLen,header,rfl,rfl⟩ := takeVarint_goesOn valid tookLen
    dsimp only at took
    rw [takesLen.size] at took
    split at took
    next something =>
      have nonneg := takeInflated_nonneg bounded (varintValue dataLen).le_toInt took
      have positive : 0 < (varintValue dataLen).toInt := by
        have nonzero : (varintValue dataLen).toInt ≠ 0 := fun zero => something (Int32.toInt_inj.mp zero)
        omega
      have length : (net.queue.take size).length = size := by
        rw [List.length_take]
        omega
      have ready : net.Ready (net.queue.take size) (net.queue.drop size) :=
        .inl ⟨by rw [length,announcedSize],(List.take_append_drop ..).symm⟩
      obtain ⟨stream,body,inflates⟩ := announced.zipped mode _ _ ready dataLen middle.queue header
        ((List.take_append_drop ..).trans takesLen.queue) positive
      have total : size = dataLen.length + stream.length := by rw [← length,body,List.length_append]
      have behind : middle.queue = stream ++ net.queue.drop size := by
        have split := (List.take_append_drop size net.queue).trans takesLen.queue
        rw [body,List.append_assoc,List.append_cancel_left_eq] at split
        exact split.symm
      have remains : sizeT (net.nextPacketSize - dataLen.length) = stream.length := by
        have inside : sizeT (size - dataLen.length : Int) = size - dataLen.length :=
          sizeSub_natCast (by omega) (by omega)
        rw [announcedSize,inside]
        omega
      rw [remains] at took
      obtain ⟨takesStream,id,payload,number,rfl,announces,zips⟩ := takeInflated_sound takesLen.valid
        (varintValue dataLen).toInt_lt nonneg behind (by omega) inflates took
      exact ⟨dataLen ++ stream,by rw [List.length_append,total],takesLen.trans takesStream,
        .zipped header number announces zips⟩
    next nothing =>
      have nothing : varintValue dataLen = 0 := not_not.mp nothing
      simp only [Flow.andThen_goesOn] at took
      obtain ⟨⟨id,ret⟩,next,tookId,payload,last,tookPayload,same⟩ := took
      cases same
      obtain ⟨idBytes,number,rfl,length,takes⟩ := takePacket_verbatim bounded announcedSize small whole header
        takesLen tookId tookPayload
      exact ⟨_,length,takes,.verbatim header nothing number⟩

/-- The length prefix that has left the queue already, if its frame has not. -/
inductive Carried (net : Netcore) : List UInt8 → Prop where
  | nothing (fresh : net.nextPacketSize = noSize) : Carried net []
  | size {size : List UInt8} (number : Varint size) (announced : net.nextPacketSize = (varintValue size).toInt)
      (nonneg : 0 ≤ (varintValue size).toInt) : Carried net size

/-- What a passage of the loop does with the stream, a carried prefix in front. -/
inductive Orderly (env : Env Pak) (net : Netcore) (stream : List UInt8) : Flow Packet → Prop where
  | refused : Orderly env net stream .stops
  | awaited {left : Netcore} {carried : List UInt8} (valid : left.Valid) (carries : left.Carried carried)
      (same : stream = carried ++ left.queue) (settings : left.settings = net.settings) (awaits : left.Awaits) :
      Orderly env net stream (.breaks left)
  | dispatched {left : Netcore} {packet : Packet} {size body : List UInt8} (valid : left.Valid)
      (fresh : left.nextPacketSize = noSize) (settings : left.settings = net.settings) (number : Varint size)
      (total : (varintValue size).toInt = body.length)
      (frame : Body env.Inflates net.settings.compression packet body)
      (split : stream = size ++ (body ++ left.queue)) : Orderly env net stream (.goesOn packet left)

theorem takeFrame_carried (bounded : env.Bounded) (valid : net.Valid) {size : List UInt8} (number : Varint size)
    (announcedSize : net.nextPacketSize = (varintValue size).toInt) (nonneg : 0 ≤ (varintValue size).toInt)
    (announced : Announced env net) : Orderly env net (size ++ net.queue) (net.takeFrame env) := by
  have small := (varintValue size).toInt_lt
  obtain ⟨length,value⟩ := Int.eq_ofNat_of_zero_le nonneg
  have sized : net.nextPacketSize ≠ noSize := by
    rw [announcedSize,value]
    simp [noSize]
  have unsigned : sizeT net.nextPacketSize = length := by rw [announcedSize,value,sizeT_natCast (by omega)]
  by_cases short : sizeT net.nextPacketSize > net.readBuf.inUse
  · simp only [takeFrame,takeSize_sized sized,Flow.andThen,awaitPacket,if_pos short]
    refine .awaited valid (.size number announcedSize nonneg) rfl rfl (.body length (by omega) (announcedSize.trans value) ?_)
    rw [inUse_queue valid,unsigned] at short
    exact short
  · have whole : length ≤ net.queue.length := by
      rw [inUse_queue valid,unsigned] at short
      omega
    generalize flow_eq : net.takePacket env = flow
    cases flow with
    | stops =>
      simp only [takeFrame,takeSize_sized sized,Flow.andThen,awaitPacket,if_neg short,flow_eq]
      exact .refused
    | breaks left => exact absurd flow_eq takePacket_breaks
    | goesOn packet left =>
      obtain ⟨body,full,takes,frame⟩ :=
        takePacket_sound bounded valid (announcedSize.trans value) (by omega) whole announced flow_eq
      simp only [takeFrame,takeSize_sized sized,Flow.andThen,awaitPacket,if_neg short,flow_eq]
      have split : size ++ net.queue = size ++ (body ++ left.queue) := by rw [takes.queue]
      exact .dispatched takes.valid rfl takes.settings number (by rw [value,full]) frame split

theorem takeFrame_orderly (bounded : env.Bounded) (valid : net.Valid) {carried : List UInt8}
    (carries : net.Carried carried) (announced : Announced env net) :
    Orderly env net (carried ++ net.queue) (net.takeFrame env) := by
  cases carries with
  | size number announcedSize nonneg => exact takeFrame_carried bounded valid number announcedSize nonneg announced
  | nothing fresh =>
    cases walked : walkVarint net.cursor net.readBuf.inUse with
    | none =>
      simp only [takeFrame,takeSize,fresh,walked,if_true,Flow.andThen]
      exact .refused
    | some ret =>
      rcases walkVarint_answers walked with rfl | rfl | accepted
      · simp only [takeFrame,takeSize,fresh,walked,if_true,Flow.andThen]
        refine .awaited valid (.nothing fresh) rfl rfl (.size fresh fun size behind split number => ?_)
        obtain ⟨found,_⟩ := walk_head valid number split
        rw [walked,Option.some.injEq,varnumOverrun] at found
        omega
      · simp only [takeFrame,takeSize,fresh,walked,if_true,if_neg (show varnumInvalid ≠ varnumOverrun by decide),
          Flow.andThen]
        exact .refused
      · obtain ⟨size,behind,queued,number,_⟩ := walk_found valid walked accepted
        have nonneg := announced.size fresh size behind number queued
        obtain ⟨takes,queue⟩ := adv_takes valid queued
        let next : Netcore := { net.adv size.length with nextPacketSize := (varintValue size).toInt }
        have valid' : next.Valid := takes.valid
        have sized : next.nextPacketSize ≠ noSize := by
          have : next.nextPacketSize = (varintValue size).toInt := rfl
          rw [this,noSize]
          omega
        have announced' : Announced env next := by
          refine ⟨fun fresh => absurd fresh sized,fun mode body rest ready => announced.zipped mode body rest ?_⟩
          rcases ready with ⟨total,split⟩ | ⟨fresh,_⟩
          · refine .inr ⟨fresh,size,number,total,?_⟩
            have split : (net.adv size.length).queue = body ++ rest := split
            rw [queued,← queue,split]
          · exact absurd fresh sized
        have orderly := takeFrame_carried bounded valid' number rfl nonneg announced'
        have stream : size ++ next.queue = [] ++ net.queue := by
          have : next.queue = behind := queue
          rw [this,queued,List.nil_append]
        rw [stream] at orderly
        rw [takeFrame_takeSize (takeSize_queued valid fresh number queued) sized]
        change Orderly env net ([] ++ net.queue) (next.takeFrame env)
        generalize next.takeFrame env = flow at orderly
        cases orderly with
        | refused => exact .refused
        | awaited valid carries same settings awaits => exact .awaited valid carries same settings awaits
        | dispatched valid fresh settings number total frame split =>
          exact .dispatched valid fresh settings number total frame split

end Netcore

theorem Framed.append {env : Env Pak} {zip : List UInt8 → List UInt8 → Prop} {settings : Settings}
    {front back : List Packet} {bytes rest : List UInt8} (first : Framed env zip settings front bytes)
    (second : Framed env zip (front.foldl (Settings.after env) settings) back rest) :
    Framed env zip settings (front ++ back) (bytes ++ rest) := by
  induction first with
  | nil => exact second
  | cons number total frame tail ih =>
    simp only [List.append_assoc,List.cons_append]
    exact .cons number total frame (ih second)

variable {env : Env Pak} {net : Netcore}

def Complete (bytes : List UInt8) : Prop :=
  ∃ size body behind, Varint size ∧ (varintValue size).toInt = body.length ∧ bytes = size ++ (body ++ behind)

theorem Netcore.Awaits.not_complete {carried : List UInt8} (awaits : net.Awaits) (carries : net.Carried carried) :
    ¬ Complete (carried ++ net.queue) := by
  rintro ⟨size,body,behind,number,total,split⟩
  cases awaits with
  | size fresh cut =>
    cases carries with
    | nothing => exact cut size _ split number
    | size _ announced nonneg =>
      rw [announced,noSize] at fresh
      omega
  | body length small sized short =>
    cases carries with
    | nothing fresh =>
      rw [sized,noSize] at fresh
      omega
    | size prefixed announced _ =>
      obtain ⟨rfl,rest⟩ := Groups.unique prefixed number split
      have enough := congrArg List.length rest
      rw [List.length_append] at enough
      omega

/-- The stream of a run, taken in frames up to a rest that a state of waiting stands for. -/
structure Served (env : Env Pak) (settings : Settings) (stream : List UInt8) (call : Call) (bytes left : List UInt8) :
    Prop where
  split : stream = bytes ++ left
  framed : Framed env env.Inflates settings (decoded call.trace) bytes
  returned : ∀ net, call.outcome = some net → net.Valid ∧ net.Awaits ∧
    net.settings = (decoded call.trace).foldl (Settings.after env) settings ∧
      ∃ carried, net.Carried carried ∧ left = carried ++ net.queue

theorem readLoop_served (bounded : env.Bounded) (rounds : Nat) (valid : net.Valid) {carried : List UInt8}
    (carries : net.Carried carried)
    (announced : ∀ head, Relation.ReflTransGen (Round env) net head → head.Announced env) :
    ∃ bytes left, Served env net.settings (carried ++ net.queue) (readLoop env rounds net) bytes left := by
  induction rounds generalizing net carried with
  | zero => exact ⟨[],_,rfl,.nil,by simp [readLoop]⟩
  | succ rounds ih =>
    have orderly := net.takeFrame_orderly bounded valid carries (announced net .refl)
    generalize flow_eq : net.takeFrame env = flow at orderly
    cases orderly with
    | refused => exact ⟨[],_,rfl,by simp only [readLoop,flow_eq]; exact .nil,by simp [readLoop,flow_eq]⟩
    | @awaited left taken valid carries same settings awaits =>
      refine ⟨[],_,rfl,by simp only [readLoop,flow_eq]; exact .nil,?_⟩
      simp only [readLoop,flow_eq,Option.some.injEq,forall_eq']
      exact ⟨valid,awaits,settings,taken,carries,same⟩
    | @dispatched left packet size body valid fresh settings number total frame split =>
      cases decodes : env.genericToclientDecode left.settings.protoState packet.id packet.payload with
      | none =>
        refine ⟨size ++ (body ++ []),left.queue,by simp [split],?_,by simp [readLoop,flow_eq,decodes]⟩
        simp only [readLoop,flow_eq,decodes]
        exact .cons number total frame .nil
      | some pak =>
        let next : Netcore := { left with settings := emit env left.settings packet.id pak }
        have round : Round env net next := .mk flow_eq decodes
        have after : next.settings = net.settings.after env packet := by
          rw [← settings]
          simp only [Settings.after,decodes,next]
        have valid' : next.Valid := valid
        obtain ⟨bytes,rest,served⟩ := ih valid' (.nothing fresh) fun head rounds => announced head (.head round rounds)
        have trace : decoded (readLoop env (rounds+1) net).trace = packet :: decoded (readLoop env rounds next).trace := by
          simp only [readLoop,flow_eq,decodes]
          rfl
        have outcome : (readLoop env (rounds+1) net).outcome = (readLoop env rounds next).outcome := by
          simp only [readLoop,flow_eq,decodes,next]
        have later : left.queue = bytes ++ rest := served.split
        refine ⟨size ++ (body ++ bytes),rest,?_,?_,?_⟩
        · rw [split,later]
          simp only [List.append_assoc]
        · rw [trace]
          have tail := served.framed
          rw [after] at tail
          exact .cons number total frame tail
        · rw [trace,outcome]
          have returned := served.returned
          rw [after] at returned
          exact returned

theorem receive_served (bounded : env.Bounded) (read : Read) (valid : net.Valid) {carried : List UInt8}
    (carries : net.Carried carried)
    (announced : ∀ roomy, arrive env net read = some roomy → ∀ head,
      Relation.ReflTransGen (Round env) (roomy.received read.chunk.length) head → head.Announced env) :
    ∃ bytes left, Served env net.settings (carried ++ net.queue ++ read.chunk) (receive env net read) bytes left := by
  cases arrived : arrive env net read with
  | none => exact ⟨[],_,rfl,by simp only [receive,arrived]; exact .nil,by simp [receive,arrived]⟩
  | some roomy =>
    obtain ⟨valid,queue,settings,size⟩ := arrive_spec valid arrived
    have carries : (roomy.received read.chunk.length).Carried carried := by
      cases carries with
      | nothing fresh => exact .nothing (size.trans fresh)
      | size number announced nonneg => exact .size number (size.trans announced) nonneg
    obtain ⟨bytes,left,served⟩ := readLoop_served bounded ((roomy.received read.chunk.length).readBuf.inUse+1)
      valid carries (announced roomy arrived)
    rw [queue,settings,← List.append_assoc] at served
    refine ⟨bytes,left,served.split,?_,?_⟩
    · rw [receive_arrived arrived]
      exact served.framed
    · rw [receive_arrived arrived]
      exact served.returned

theorem run_served (bounded : env.Bounded) (reads : List Read) (valid : net.Valid) (awaits : net.Awaits)
    {carried : List UInt8} (carries : net.Carried carried)
    (announced : ∀ head, Enters env net reads head → head.Announced env) :
    ∃ bytes left, Served env net.settings (carried ++ net.queue ++ (reads.map Read.chunk).flatten) (run env net reads)
      bytes left := by
  induction reads generalizing net carried with
  | nil =>
    refine ⟨[],carried ++ net.queue,by simp,.nil,?_⟩
    rintro _ ⟨⟩
    exact ⟨valid,awaits,rfl,carried,carries,rfl⟩
  | cons read reads ih =>
    obtain ⟨bytes,left,first⟩ := receive_served bounded read valid carries
      fun roomy arrived head rounds => announced head (.first arrived rounds)
    have whole : carried ++ net.queue ++ ((read::reads).map Read.chunk).flatten =
        bytes ++ (left ++ (reads.map Read.chunk).flatten) := by
      rw [List.map_cons,List.flatten_cons,← List.append_assoc,first.split,List.append_assoc]
    cases outcome : (receive env net read).outcome with
    | none =>
      have stopped : run env net (read::reads) = receive env net read := by simp only [run,outcome]
      refine ⟨bytes,_,whole,?_,?_⟩
      · rw [stopped]
        exact first.framed
      · rw [stopped,outcome]
        simp
    | some next =>
      obtain ⟨valid,awaits,settings,taken,carries,rest⟩ := first.returned next outcome
      obtain ⟨more,last,second⟩ := ih valid awaits carries fun head enters => announced head (.later outcome enters)
      have trace : decoded (run env net (read::reads)).trace =
          decoded (receive env net read).trace ++ decoded (run env next reads).trace := by
        simp only [run,outcome,decoded_append]
      have result : (run env net (read::reads)).outcome = (run env next reads).outcome := by
        simp only [run,outcome]
      refine ⟨bytes ++ more,last,?_,?_,?_⟩
      · rw [whole,rest,second.split,List.append_assoc]
      · rw [trace]
        have framed := second.framed
        rw [settings] at framed
        exact first.framed.append framed
      · rw [trace,result,List.foldl_append,← settings]
        exact second.returned

/-- Every packet that is handed to the decoder is one frame of the stream, with no byte between them, and a
run that returns has not left a whole frame behind. -/
def FrameByFrame (env : Env Pak) (net : Netcore) (reads : List Read) : Prop :=
  ∃ bytes left, (reads.map Read.chunk).flatten = bytes ++ left ∧
    Framed env env.Inflates net.settings (decoded (run env net reads).trace) bytes ∧
    ((run env net reads).outcome.isSome → ¬ Complete left)

/-- Where what the other side announces is true, a stream of any bytes in any reads is taken frame by frame. -/
theorem run_sound (bounded : env.Bounded) (valid : net.Valid) (between : net.nextPacketSize = noSize)
    (empty : net.queue = []) (reads : List Read)
    (announced : ∀ head, Enters env net reads head → head.Announced env) : FrameByFrame env net reads := by
  have awaits : net.Awaits := by
    refine .size between fun size behind split number => ?_
    have positive := number.length_pos
    have length := congrArg List.length split
    rw [empty,List.length_append,List.length_nil] at length
    omega
  obtain ⟨bytes,left,served⟩ := run_served bounded reads valid awaits (.nothing between) announced
  refine ⟨bytes,left,?_,served.framed,?_⟩
  · rw [← served.split,empty]
    rfl
  · intro returned
    obtain ⟨last,outcome⟩ := Option.isSome_iff_exists.mp returned
    obtain ⟨_,awaits,_,carried,carries,rest⟩ := served.returned last outcome
    rw [rest]
    exact awaits.not_complete carries

theorem Framed.head {zip : List UInt8 → List UInt8 → Prop} {settings : Settings} {packet : Packet}
    {packets : List Packet} {bytes left size body rest : List UInt8}
    (framed : Framed env zip settings (packet::packets) bytes) (number : Varint size)
    (total : (varintValue size).toInt = body.length) (split : size ++ (body ++ rest) = bytes ++ left) :
    Body zip settings.compression packet body ∧
      ∃ tail, Framed env zip (settings.after env packet) packets tail ∧ rest = tail ++ left := by
  cases framed with
  | @cons _ _ _ prefixed content tail number' total' frame framed =>
    rw [List.append_assoc] at split
    obtain ⟨rfl,behind⟩ := Groups.unique number number' split
    rw [List.append_assoc] at behind
    obtain ⟨rfl,rests⟩ := List.append_inj behind (by omega)
    exact ⟨frame,tail,framed,rests⟩

theorem Netcore.announced_empty {net : Netcore} (fresh : net.nextPacketSize = noSize) (empty : net.queue = []) :
    net.Announced env := by
  have none (size behind : List UInt8) (number : Varint size) : net.queue ≠ size ++ behind := by
    intro split
    have positive := number.length_pos
    have length := congrArg List.length split
    rw [empty,List.length_append,List.length_nil] at length
    omega
  refine ⟨fun _ size behind number split => absurd split (none size behind number),fun _ body behind ready => ?_⟩
  rcases ready with ⟨sized,_⟩ | ⟨_,size,number,_,split⟩
  · rw [fresh,noSize] at sized
    omega
  · exact absurd split (none size _ number)

def zippedNet : Netcore := { loginNet with settings := { loginNet.settings with compression := .compressed } }

def zippedRead : Read := ⟨65536,[0x0F] ++ (([0x03] ++ storedStream) ++ []),by decide⟩

theorem announced_zippedRead {head : Netcore} (fresh : head.nextPacketSize = noSize)
    (queue : head.queue = zippedRead.chunk) : head.Announced storedZip := by
  constructor
  · intro _ size behind number split
    rw [queue] at split
    obtain ⟨rfl,_⟩ := Groups.unique (Varint.single (by decide)) number split
    decide +kernel
  · intro _ body behind ready dataLen after header split _
    rcases ready with ⟨sized,_⟩ | ⟨_,size,number,total,frame⟩
    · rw [fresh,noSize] at sized
      omega
    · rw [queue] at frame
      obtain ⟨rfl,rest⟩ := Groups.unique (Varint.single (by decide)) number frame
      have fifteen : (varintValue [0x0F]).toInt = (([0x03] ++ storedStream).length : Int) := by decide +kernel
      obtain ⟨rfl,rfl⟩ := List.append_inj rest (by omega)
      rw [List.append_assoc] at split
      obtain ⟨rfl,_⟩ := Groups.unique (Varint.single (by decide)) header split
      refine ⟨storedStream,rfl,fun written inflated => ?_⟩
      have content : storedZip.inflate storedStream (varintValue [0x03]).toInt.toNat = some storedContent := by
        decide +kernel
      rw [content] at inflated
      cases inflated
      decide +kernel

theorem run_sound_zipped : FrameByFrame storedZip zippedNet [zippedRead] := by
  have valid : zippedNet.Valid := loginNet_valid
  have announced {head : Netcore} (fresh : head.nextPacketSize = noSize)
      (queue : head.queue = zippedRead.chunk ∨ head.queue = []) : head.Announced storedZip :=
    queue.elim (announced_zippedRead fresh) (Netcore.announced_empty fresh)
  refine run_sound storedZip_bounded valid rfl rfl [zippedRead] fun head enters => ?_
  cases enters with
  | later _ enters => cases enters
  | @first _ roomy _ _ _ arrived rounds =>
    have heads : head.Valid ∧ head.nextPacketSize = noSize ∧ (head.queue = zippedRead.chunk ∨ head.queue = []) := by
      induction rounds with
      | refl =>
        obtain ⟨valid,queue,_,size⟩ := arrive_spec valid arrived
        exact ⟨valid,size,.inl queue⟩
      | tail _ round ih =>
        obtain ⟨valid,fresh,queue⟩ := ih
        obtain ⟨took,_⟩ := round
        have orderly := Netcore.takeFrame_orderly storedZip_bounded valid (.nothing fresh) (announced fresh queue)
        rw [took] at orderly
        cases orderly with
        | dispatched valid fresh _ number total _ split =>
          refine ⟨valid,fresh,.inr ?_⟩
          rcases queue with queue | empty
          · rw [queue] at split
            obtain ⟨rfl,rest⟩ := Groups.unique (Varint.single (by decide)) number split
            have fifteen : (varintValue [0x0F]).toInt = (([0x03] ++ storedStream).length : Int) := by decide +kernel
            exact (List.append_inj rest (by omega)).2.symm
          · have positive := number.length_pos
            have length := congrArg List.length split
            rw [empty] at length
            simp at length
            omega
    exact announced heads.2.1 heads.2.2

/-- Compression is switched on, and a data length of five is followed by a stream of three bytes. -/
def shortReads : List Read := [⟨65536,[0x02,0x03,0x00,0x0F,0x05] ++ storedStream,by decide⟩]

theorem run_sound_fails : storedZip.Bounded ∧ ¬ FrameByFrame storedZip loginNet shortReads := by
  refine ⟨storedZip_bounded,?_⟩
  rintro ⟨bytes,left,split,framed,_⟩
  have trace : decoded (run storedZip loginNet shortReads).trace = [⟨3,[0x00]⟩,⟨0,[0x01,0x61,0x00,0x00]⟩] := by
    decide +kernel
  rw [trace] at framed
  have stream : (shortReads.map Read.chunk).flatten =
      [0x02] ++ ([0x03,0x00] ++ ([0x0F] ++ (([0x05] ++ storedStream) ++ []))) := by decide +kernel
  rw [stream] at split
  obtain ⟨_,tail,framed,rest⟩ := framed.head (.single (by decide)) (by decide +kernel) split
  obtain ⟨frame,_⟩ := framed.head (.single (by decide)) (by decide +kernel) rest
  generalize content : [0x05] ++ storedStream = body at frame
  have mode : (loginNet.settings.after storedZip ⟨3,[0x00]⟩).compression = .compressed := by decide +kernel
  rw [mode] at frame
  generalize packet_eq : (⟨0,[0x01,0x61,0x00,0x00]⟩ : Packet) = packet at frame
  cases frame with
  | @verbatim zero id payload none nothing number =>
    obtain ⟨rfl,_⟩ := Groups.unique (Varint.single (by decide)) none content
    exact absurd nothing (by decide +kernel)
  | @zipped size id payload stream announced number length zips =>
    obtain ⟨rfl,rfl⟩ := Groups.unique (Varint.single (by decide)) announced content
    have five : (varintValue [0x05]).toInt = 5 := by decide +kernel
    rw [five] at length
    have written : some storedContent = some (id ++ payload) := by
      have long : 3 ≤ (id ++ payload).length := by omega
      rw [← zips]
      exact (if_pos ⟨rfl,long⟩).symm
    rw [← Option.some.inj written] at length
    exact absurd length (by decide)

end CSpock.Net
