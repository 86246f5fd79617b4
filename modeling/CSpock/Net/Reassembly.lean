import CSpock.Net.Framing

/-! Reassembly: however a stream of frames is cut into reads, its packets come out in
their order. The invariant is about the stream, the part that is queued and the part to come. -/
namespace CSpock.Net
open CSpock.Numeric CSpock.Varnum

variable {Pak : Type}

structure Env.Cooperates (env : Env Pak) (zip : List UInt8 → List UInt8 → Prop) : Prop where
  allocates : env.Allocates
  inflates : ∀ content stream, zip content stream → env.inflate stream content.length = some content
  decodes : ∀ state id payload, (env.genericToclientDecode state id payload).isSome

/-- The packets of the stream from the queue on, with a length prefix taken or not. -/
inductive Pending (env : Env Pak) (zip : List UInt8 → List UInt8 → Prop) (net : Netcore)
    (future : List UInt8) : List Packet → Prop where
  | between {packets : List Packet} (size : net.nextPacketSize = noSize)
      (framed : Framed env zip net.settings packets (net.queue ++ future)) : Pending env zip net future packets
  | inside {packet : Packet} {packets : List Packet} {body rest : List UInt8}
      (size : net.nextPacketSize = body.length) (small : body.length < 2^31)
      (frame : Body zip net.settings.compression packet body) (stream : net.queue ++ future = body ++ rest)
      (tail : Framed env zip (net.settings.after env packet) packets rest) :
      Pending env zip net future (packet::packets)

/-- A state in which the loop is left: when nothing is to come, nothing is missing. -/
structure Waits (env : Env Pak) (zip : List UInt8 → List UInt8 → Prop) (future : List UInt8)
    (packets : List Packet) (net : Netcore) : Prop where
  valid : net.Valid
  pending : Pending env zip net future packets
  ended : future = [] → packets = [] ∧ net.queue = [] ∧ net.nextPacketSize = noSize

/-- What a passage of the loop makes of a pending stream. -/
inductive Advances (env : Env Pak) (zip : List UInt8 → List UInt8 → Prop) (net : Netcore) (future : List UInt8)
    (packets : List Packet) : Flow Packet → Prop where
  | waits {left : Netcore} (rests : Waits env zip future packets left) :
      Advances env zip net future packets (.breaks left)
  | hands {packet : Packet} {rest : List Packet} {left : Netcore} (head : packets = packet::rest)
      (valid : left.Valid) (settings : left.settings = net.settings)
      (shorter : left.queue.length < net.queue.length) (size : left.nextPacketSize = noSize)
      (tail : Framed env zip (net.settings.after env packet) rest (left.queue ++ future)) :
      Advances env zip net future packets (.goesOn packet left)

variable {env : Env Pak} {zip : List UInt8 → List UInt8 → Prop} {net : Netcore} {future : List UInt8}
  {packets : List Packet}

theorem Body.length_pos {compression : CompressionState} {packet : Packet} {body : List UInt8}
    (frame : Body zip compression packet body) : 0 < body.length := by
  cases frame with
  | uncompressed number => have := number.length_pos; simp; omega
  | verbatim none _ _ => have := none.length_pos; simp; omega
  | zipped announced _ _ _ => have := announced.length_pos; simp; omega

theorem queued_or_cut {queue future bytes rest : List UInt8} (stream : queue ++ future = bytes ++ rest) :
    (∃ behind, queue = bytes ++ behind ∧ rest = behind ++ future) ∨
      ∃ missing, missing ≠ [] ∧ bytes = queue ++ missing ∧ future = missing ++ rest := by
  rcases List.append_eq_append_iff.mp stream with ⟨missing,bytes_eq,future_eq⟩ | ⟨behind,queue_eq,rest_eq⟩
  · cases missing with
    | nil => exact .inl ⟨[],by simpa using bytes_eq.symm,by simpa using future_eq.symm⟩
    | cons byte missing => exact .inr ⟨byte::missing,by simp,bytes_eq,future_eq⟩
  · exact .inl ⟨behind,queue_eq,rest_eq⟩

namespace Netcore

theorem takeFrame_inside (cooperates : env.Cooperates zip) (valid : net.Valid) {packet : Packet}
    {body rest : List UInt8} (size : net.nextPacketSize = body.length) (small : body.length < 2^31)
    (frame : Body zip net.settings.compression packet body) (stream : net.queue ++ future = body ++ rest)
    (tail : Framed env zip (net.settings.after env packet) packets rest) :
    Advances env zip net future (packet::packets) (net.takeFrame env) := by
  have sized : net.nextPacketSize ≠ noSize := by
    rw [size]
    simp [noSize]
  have awaited : sizeT net.nextPacketSize = body.length := by rw [size,sizeT_natCast (by omega)]
  have length := congrArg List.length stream
  simp only [List.length_append] at length
  rcases queued_or_cut stream with ⟨behind,queued,rfl⟩ | ⟨missing,some_missing,cut,rfl⟩
  · obtain ⟨left,took,takes,queue⟩ :=
      takePacket_body cooperates.allocates cooperates.inflates valid frame queued size small
    have positive := frame.length_pos
    have enough : ¬ body.length > net.readBuf.inUse := by
      rw [inUse_queue valid,queued,List.length_append]
      omega
    simp only [takeFrame,takeSize_sized sized,awaitPacket,awaited,if_neg enough,Flow.andThen,took]
    refine .hands rfl takes.valid takes.settings ?_ rfl ?_
    · change left.queue.length < _
      rw [takes.queue,List.length_append]
      omega
    · change Framed env zip _ packets (left.queue ++ future)
      rwa [queue]
  · have nonempty := List.length_pos_iff.mpr some_missing
    have short : body.length > net.readBuf.inUse := by
      rw [inUse_queue valid,cut,List.length_append]
      omega
    simp only [takeFrame,takeSize_sized sized,awaitPacket,awaited,if_pos short,Flow.andThen]
    exact .waits ⟨valid,.inside size small frame stream tail,by simp [some_missing]⟩

theorem takeFrame_pending (cooperates : env.Cooperates zip) (valid : net.Valid)
    (pending : Pending env zip net future packets) : Advances env zip net future packets (net.takeFrame env) := by
  cases pending with
  | inside size small frame stream tail => exact takeFrame_inside cooperates valid size small frame stream tail
  | between fresh framed =>
    generalize whole : net.queue ++ future = bytes at framed
    cases framed with
    | nil =>
      obtain ⟨empty,ended⟩ := List.append_eq_nil_iff.mp whole
      have walked : walkVarint net.cursor net.readBuf.inUse = some varnumOverrun := by
        rw [inUse_queue valid,empty]
        rfl
      simp only [takeFrame,takeSize,fresh,walked,if_true,Flow.andThen]
      refine .waits ⟨valid,.between fresh ?_,fun _ => ⟨rfl,empty,fresh⟩⟩
      rw [empty,ended]
      exact .nil
    | @cons _ packet packets size body rest number total frame tail =>
      have room := (varintValue size).toInt_lt
      rcases queued_or_cut whole with ⟨behind,queued,rest_eq⟩ | ⟨missing,some_missing,cut,future_eq⟩
      · have sized : (varintValue size).toInt ≠ noSize := by
          rw [total]
          simp [noSize]
        obtain ⟨takes,queue⟩ := adv_takes valid queued
        rw [takeFrame_takeSize (takeSize_queued valid fresh number queued) sized]
        let next : Netcore := { net.adv size.length with nextPacketSize := (varintValue size).toInt }
        have stream : next.queue ++ future = body ++ rest := by
          rw [rest_eq]
          exact congrArg (· ++ future) queue
        have valid : next.Valid := takes.valid
        have advances : Advances env zip next future (packet::packets) (next.takeFrame env) :=
          takeFrame_inside cooperates valid total (by omega) frame stream tail
        have shorter : next.queue.length ≤ net.queue.length := by
          have queue : next.queue = behind := queue
          rw [queue,queued,List.length_append]
          omega
        change Advances env zip net future (packet::packets) (next.takeFrame env)
        generalize next.takeFrame env = flow at advances
        cases advances with
        | waits rests => exact .waits rests
        | hands head valid settings less size tail =>
          exact .hands head valid settings (Nat.lt_of_lt_of_le less shorter) size tail
      · have ended : future ≠ [] := by simp [future_eq,some_missing]
        simp only [takeFrame,takeSize_cut valid fresh number some_missing cut,Flow.andThen]
        refine .waits ⟨valid,.between fresh ?_,fun nothing => absurd nothing ended⟩
        rw [whole]
        exact .cons number total frame tail

end Netcore

/-- A loop with a round for each byte hands out all that is whole and then waits. -/
theorem readLoop_pending (cooperates : env.Cooperates zip) {rounds : Nat} (valid : net.Valid)
    (pending : Pending env zip net future packets) (enough : net.queue.length < rounds) :
    ∃ handed rest left, packets = handed ++ rest ∧ decoded (readLoop env rounds net).trace = handed ∧
      (readLoop env rounds net).outcome = some left ∧ Waits env zip future rest left := by
  induction rounds generalizing net packets with
  | zero => omega
  | succ rounds ih =>
    have advances := net.takeFrame_pending cooperates valid pending
    generalize flow_eq : net.takeFrame env = flow at advances
    cases advances with
    | waits rests => exact ⟨[],packets,_,rfl,by simp [readLoop,flow_eq,decoded],by simp [readLoop,flow_eq],rests⟩
    | @hands packet rest left head valid settings shorter size tail =>
      obtain ⟨pak,decodes⟩ :=
        Option.isSome_iff_exists.mp (cooperates.decodes left.settings.protoState packet.id packet.payload)
      have after : emit env left.settings packet.id pak = net.settings.after env packet := by
        rw [← settings]
        simp only [Settings.after,decodes]
      let next : Netcore := { left with settings := emit env left.settings packet.id pak }
      have again : Pending env zip next future rest := by
        refine .between size ?_
        change Framed env zip (emit env left.settings packet.id pak) rest (left.queue ++ future)
        rwa [after]
      have less : next.queue.length < rounds := by
        have : next.queue = left.queue := rfl
        rw [this]
        omega
      have valid : next.Valid := valid
      obtain ⟨handed,rest,last,split,trace,outcome,waits⟩ := ih valid again less
      refine ⟨packet::handed,rest,last,by rw [head,split]; rfl,?_,?_,waits⟩
      · simp only [readLoop,flow_eq,decodes]
        change packet :: decoded (readLoop env rounds next).trace = packet :: handed
        rw [trace]
      · simp only [readLoop,flow_eq,decodes]
        exact outcome

theorem receive_pending (cooperates : env.Cooperates zip) (read : Read) (valid : net.Valid)
    (pending : Pending env zip net (read.chunk ++ future) packets) :
    ∃ handed rest left, packets = handed ++ rest ∧ decoded (receive env net read).trace = handed ∧
      (receive env net read).outcome = some left ∧ Waits env zip future rest left := by
  obtain ⟨block,granted⟩ := cooperates.allocates net.requests (net.readBuf.inUse + read.size)
  obtain ⟨roomy,arrived⟩ := arrive_granted granted
  obtain ⟨wellFormed,queue,settings,size⟩ := arrive_spec valid arrived
  generalize received_eq : roomy.received read.chunk.length = received at wellFormed queue settings size
  have stream : received.queue ++ future = net.queue ++ (read.chunk ++ future) := by
    rw [queue,List.append_assoc]
  have pending : Pending env zip received future packets := by
    cases pending with
    | between fresh framed =>
      refine .between (size.trans fresh) ?_
      rwa [stream,settings]
    | inside prefixed small frame split tail =>
      refine .inside (size.trans prefixed) small ?_ (stream.trans split) ?_
      · rwa [settings]
      · rwa [settings]
  have enough : received.queue.length < received.readBuf.inUse + 1 := by
    rw [Netcore.inUse_queue wellFormed]
    omega
  obtain ⟨handed,rest,left,split,trace,outcome,waits⟩ := readLoop_pending cooperates wellFormed pending enough
  refine ⟨handed,rest,left,split,?_,?_,waits⟩
  · rw [receive_arrived arrived,received_eq]
    exact trace
  · rw [receive_arrived arrived,received_eq]
    exact outcome

theorem run_pending (cooperates : env.Cooperates zip) (reads : List Read) (waits : Waits env zip
    ((reads.map Read.chunk).flatten ++ future) packets net) :
    ∃ handed rest left, packets = handed ++ rest ∧ decoded (run env net reads).trace = handed ∧
      (run env net reads).outcome = some left ∧ Waits env zip future rest left := by
  induction reads generalizing net packets with
  | nil => exact ⟨[],packets,net,rfl,rfl,rfl,waits⟩
  | cons read reads ih =>
    have pending := waits.pending
    rw [List.map_cons,List.flatten_cons,List.append_assoc] at pending
    obtain ⟨first,rest,middle,split,firstTrace,firstOutcome,waits⟩ :=
      receive_pending cooperates read waits.valid pending
    obtain ⟨second,last,left,again,secondTrace,secondOutcome,waits⟩ := ih waits
    refine ⟨first ++ second,last,left,by rw [split,again,List.append_assoc],?_,?_,waits⟩
    · simp only [run,firstOutcome,decoded_append,firstTrace,secondTrace]
    · simp only [run,firstOutcome,secondOutcome]

/-- Between two frames with nothing queued, the packets of a framed stream are handed to the decoder
in their order, wherever the stream is cut, and the core is between two frames again. -/
theorem run_framed (cooperates : env.Cooperates zip) (valid : net.Valid) (between : net.nextPacketSize = noSize)
    (empty : net.queue = []) {bytes : List UInt8} (framed : Framed env zip net.settings packets bytes)
    (reads : List Read) (cut : (reads.map Read.chunk).flatten = bytes) :
    ∃ left, (run env net reads).outcome = some left ∧ decoded (run env net reads).trace = packets ∧
      left.readBuf.inUse = 0 ∧ left.nextPacketSize = noSize := by
  have pending : Pending env zip net ((reads.map Read.chunk).flatten ++ []) packets := by
    refine .between between ?_
    rwa [empty,List.nil_append,List.append_nil,cut]
  have ended (nothing : (reads.map Read.chunk).flatten ++ [] = []) :
      packets = [] ∧ net.queue = [] ∧ net.nextPacketSize = noSize := by
    rw [List.append_nil,cut] at nothing
    subst nothing
    refine ⟨?_,empty,between⟩
    generalize whole : ([] : List UInt8) = bytes at framed
    cases framed with
    | nil => rfl
    | cons number => have := number.length_pos; have := congrArg List.length whole; simp at this; omega
  obtain ⟨handed,rest,left,split,trace,outcome,waits⟩ := run_pending cooperates reads ⟨valid,pending,ended⟩
  obtain ⟨rfl,drained,size⟩ := waits.ended rfl
  rw [List.append_nil] at split
  refine ⟨left,outcome,by rw [trace,split],?_,size⟩
  rw [Netcore.inUse_queue waits.valid,drained]
  rfl

def roomyZip : Env (List UInt8) :=
  { storedZip with malloc := fun _ size => some ⟨List.replicate size 0,Bbuf.length_zeros size⟩ }

theorem roomyZip_cooperates :
    roomyZip.Cooperates fun content stream => content = storedContent ∧ stream = storedStream where
  allocates _ _ := ⟨_,rfl⟩
  inflates := by
    rintro _ _ ⟨rfl,rfl⟩
    rfl
  decodes _ _ _ := rfl

/-- The switch to compression, then a packet in the new format, cut inside of both. -/
def compressReads : List Read :=
  [⟨65536,[0x02,0x03],by decide⟩,⟨65536,[0x00,0x0F,0x03,0x78],by decide⟩,⟨65536,storedStream.drop 1,by decide⟩]

theorem run_framed_compress :
    ∃ left, (run roomyZip loginNet compressReads).outcome = some left ∧
      decoded (run roomyZip loginNet compressReads).trace = [⟨3,[0x00]⟩,⟨0,[0x01,0x61]⟩] ∧
      left.readBuf.inUse = 0 ∧ left.nextPacketSize = noSize := by
  have switch := @Body.uncompressed (fun content stream => content = storedContent ∧ stream = storedStream)
    [0x03] [0x00] (.single (by decide))
  have zipped := @Body.zipped (fun content stream => content = storedContent ∧ stream = storedStream)
    [0x03] [0x00] [0x01,0x61] storedStream (.single (by decide)) (.single (by decide)) (by decide +kernel) ⟨rfl,rfl⟩
  have second := @Framed.cons _ roomyZip _ ⟨.compressed,0,.login⟩ _ [] [0x0F] _ [] (.single (by decide))
    (by decide +kernel) zipped .nil
  have first := @Framed.cons _ roomyZip _ loginNet.settings _ _ [0x02] _ _ (.single (by decide))
    (by decide +kernel) switch second
  exact run_framed roomyZip_cooperates loginNet_valid rfl rfl first compressReads (by decide +kernel)

end CSpock.Net
