import CSpock.Net.ReadCb

/-! Frames. The grammar is stated over the bytes of the stream; the read path is
followed through the queue that its buffer stands for. -/
namespace CSpock.Net
open CSpock.Library.Cursor CSpock.Numeric CSpock.Varnum

variable {Pak : Type}

/-- What follows a length prefix. `zip content stream` says that the stream is
compressed from the content. -/
inductive Body (zip : List UInt8 → List UInt8 → Prop) : CompressionState → Packet → List UInt8 → Prop where
  | uncompressed {id payload : List UInt8} (number : Varint id) :
      Body zip .uncompressed ⟨varintValue id,payload⟩ (id ++ payload)
  | verbatim {zero id payload : List UInt8} (plain : Varint zero) (nothing : varintValue zero = 0)
      (number : Varint id) : Body zip .compressed ⟨varintValue id,payload⟩ (zero ++ (id ++ payload))
  | zipped {size id payload stream : List UInt8} (announced : Varint size) (number : Varint id)
      (length : (varintValue size).toInt = (id ++ payload).length) (zips : zip (id ++ payload) stream) :
      Body zip .compressed ⟨varintValue id,payload⟩ (size ++ stream)

/-- The packets in order, each behind its length and in the format in force when its turn comes. -/
inductive Framed (env : Env Pak) (zip : List UInt8 → List UInt8 → Prop) :
    Settings → List Packet → List UInt8 → Prop where
  | nil {settings : Settings} : Framed env zip settings [] []
  | cons {settings : Settings} {packet : Packet} {packets : List Packet} {size body rest : List UInt8}
      (number : Varint size) (total : (varintValue size).toInt = body.length)
      (frame : Body zip settings.compression packet body)
      (tail : Framed env zip (settings.after env packet) packets rest) :
      Framed env zip settings (packet::packets) (size ++ (body ++ rest))

/-- No block is larger than the largest difference of two pointers. -/
def Env.Bounded (env : Env Pak) : Prop := ∀ requests size, 2^63 ≤ size → env.malloc requests size = none

def Env.Allocates (env : Env Pak) : Prop := ∀ requests size, ∃ block, env.malloc requests size = some block

namespace Netcore

def queue (net : Netcore) : List UInt8 := net.readBuf.queue

def Valid (net : Netcore) : Prop := net.readBuf.WellFormed

variable {net : Netcore}

theorem inUse_queue (valid : net.Valid) : net.readBuf.inUse = net.queue.length :=
  (Bbuf.length_queue valid).symm

theorem sbnetInitNet_valid (block : Block 4096) : (sbnetInitNet block).Valid := ⟨by simp [sbnetInitNet,block.2]⟩

/-- A step of the read path that takes `bytes` off the queue and leaves the rest as it is. -/
structure Takes (net : Netcore) (bytes : List UInt8) (left : Netcore) : Prop where
  valid : left.Valid
  queue : net.queue = bytes ++ left.queue
  settings : left.settings = net.settings
  size : left.nextPacketSize = net.nextPacketSize
  block : left.readBuf.mem.length = net.readBuf.mem.length

theorem Takes.trans {middle left : Netcore} {front back : List UInt8} (head : net.Takes front middle)
    (tail : middle.Takes back left) : net.Takes (front ++ back) left where
  valid := tail.valid
  queue := by rw [head.queue,tail.queue,List.append_assoc]
  settings := tail.settings.trans head.settings
  size := tail.size.trans head.size
  block := tail.block.trans head.block

theorem Takes.requested {left : Netcore} {bytes : List UInt8} (takes : net.Takes bytes left) (requests : Nat) :
    net.Takes bytes { left with requests := requests } :=
  ⟨takes.valid,takes.queue,takes.settings,takes.size,takes.block⟩

theorem adv_takes (valid : net.Valid) {bytes rest : List UInt8} (split : net.queue = bytes ++ rest) :
    net.Takes bytes (net.adv bytes.length) ∧ (net.adv bytes.length).queue = rest := by
  have inside : bytes.length ≤ net.readBuf.inUse := by
    rw [inUse_queue valid,split,List.length_append]
    omega
  obtain ⟨wellFormed,dropped,_⟩ := Bbuf.adv_queue valid inside
  have left : (net.adv bytes.length).queue = rest := by
    have dropped : (net.adv bytes.length).queue = net.queue.drop bytes.length := dropped
    rw [dropped,split,List.drop_left]
  exact ⟨⟨wellFormed,by rw [left,split],rfl,rfl,Bbuf.adv_block ..⟩,left⟩

theorem cursor_split (net : Netcore) : ∃ stale, net.cursor = net.queue ++ stale := net.readBuf.drop_cur

theorem walk_head (valid : net.Valid) {bytes rest : List UInt8} (number : Varint bytes)
    (split : net.queue = bytes ++ rest) :
    walkVarint net.cursor net.readBuf.inUse = some (bytes.length : Int) ∧
      ∃ behind, decVarint net.cursor = .ok (varintValue bytes) behind := by
  obtain ⟨stale,cursor⟩ := cursor_split net
  rw [cursor,split,List.append_assoc]
  refine ⟨walkVarint_varint number _ _ ?_,_,decVarint_varint number _⟩
  rw [inUse_queue valid,split,List.length_append]
  omega

theorem walk_found (valid : net.Valid) {ret : Int} (walked : walkVarint net.cursor net.readBuf.inUse = some ret)
    (accepted : 0 ≤ ret) : ∃ bytes rest, net.queue = bytes ++ rest ∧ Varint bytes ∧ ret = bytes.length := by
  obtain ⟨bytes,rest,split,number,length,inside⟩ := walkVarint_accepts walked accepted
  obtain ⟨stale,cursor⟩ := cursor_split net
  rw [cursor] at split
  rw [inUse_queue valid] at inside
  have head : bytes <+: net.queue :=
    List.prefix_of_prefix_length_le ⟨rest,split.symm⟩ (List.prefix_append net.queue stale) inside
  obtain ⟨behind,same⟩ := head
  exact ⟨bytes,behind,same.symm,number,length⟩

theorem takeVarint_head (valid : net.Valid) {bytes rest : List UInt8} (number : Varint bytes)
    (split : net.queue = bytes ++ rest) :
    net.takeVarint = .goesOn (varintValue bytes,(bytes.length : Int)) (net.adv bytes.length) := by
  obtain ⟨walked,behind,read⟩ := walk_head valid number split
  have short := number.length_le
  simp only [takeVarint,walked,read]
  rw [if_neg (by omega),sizeT_natCast (by omega)]

theorem takeVarint_goesOn (valid : net.Valid) {number : Int32} {ret : Int} {left : Netcore}
    (took : net.takeVarint = .goesOn (number,ret) left) :
    ∃ bytes, net.Takes bytes left ∧ Varint bytes ∧ number = varintValue bytes ∧ ret = bytes.length := by
  cases walked : walkVarint net.cursor net.readBuf.inUse with
  | none => simp [takeVarint,walked] at took
  | some answer =>
    by_cases accepted : answer < 0
    · simp [takeVarint,walked,accepted] at took
    · obtain ⟨bytes,rest,split,varint,_⟩ := walk_found valid walked (by omega)
      rw [takeVarint_head valid varint split] at took
      cases took
      exact ⟨bytes,(adv_takes valid split).1,varint,rfl,rfl⟩

theorem takeVarint_breaks {left : Netcore} : net.takeVarint ≠ .breaks left := by
  unfold takeVarint
  split
  · simp
  · split
    · simp
    · split <;> simp

theorem takeSize_sized (sized : net.nextPacketSize ≠ noSize) : net.takeSize = .goesOn () net := if_neg sized

/-- Once its prefix is taken, a frame is handled as if that had happened before. -/
theorem takeFrame_takeSize {env : Env Pak} {next : Netcore} (took : net.takeSize = .goesOn () next)
    (sized : next.nextPacketSize ≠ noSize) : net.takeFrame env = next.takeFrame env := by
  simp only [takeFrame,took,takeSize_sized sized]

theorem takeSize_queued (valid : net.Valid) (fresh : net.nextPacketSize = noSize) {size rest : List UInt8}
    (number : Varint size) (split : net.queue = size ++ rest) :
    net.takeSize = .goesOn () { net.adv size.length with nextPacketSize := (varintValue size).toInt } := by
  obtain ⟨walked,behind,read⟩ := walk_head valid number split
  have short := number.length_le
  simp only [takeSize,fresh,walked,read,if_true]
  rw [if_neg (by simp [varnumOverrun]),if_neg (by simp [varnumInvalid]),sizeT_natCast (by omega)]

theorem takeSize_cut (valid : net.Valid) (fresh : net.nextPacketSize = noSize) {size missing : List UInt8}
    (number : Varint size) (some_missing : missing ≠ []) (split : size = net.queue ++ missing) :
    net.takeSize = .breaks net := by
  obtain ⟨stale,cursor⟩ := cursor_split net
  subst split
  have walked : walkVarint net.cursor net.readBuf.inUse = some varnumOverrun := by
    rw [cursor,inUse_queue valid]
    exact walkVarint_cut number some_missing stale
  simp only [takeSize,fresh,walked,if_true]

section Packets
variable {env : Env Pak} {zip : List UInt8 → List UInt8 → Prop}

theorem takeBytes_exact (valid : net.Valid) {bytes rest : List UInt8} (split : net.queue = bytes ++ rest)
    {block : Block bytes.length} (granted : env.malloc net.requests bytes.length = some block) :
    ∃ left, net.takeBytes env bytes.length = .goesOn bytes left ∧ net.Takes bytes left ∧ left.queue = rest := by
  have inside : bytes.length ≤ net.readBuf.inUse := by
    rw [inUse_queue valid,split,List.length_append]
    omega
  obtain ⟨takes,left⟩ := adv_takes valid split
  refine ⟨{ net.adv bytes.length with requests := net.requests + 1 },?_,takes.requested _,left⟩
  have copied : net.readBuf.queue.take bytes.length = bytes := by
    change net.queue.take bytes.length = bytes
    rw [split,List.take_left]
  simp only [takeBytes,granted,Bbuf.recv_queue inside,copied]
  rfl

theorem takeBytes_goesOn (bounded : env.Bounded) (valid : net.Valid) {dataLen : Nat} {data : List UInt8}
    {left : Netcore} (took : net.takeBytes env dataLen = .goesOn data left)
    (short : dataLen < 2^63 → dataLen ≤ net.queue.length) :
    dataLen < 2^63 ∧ data.length = dataLen ∧ net.Takes data left := by
  cases granted : env.malloc net.requests dataLen with
  | none => simp [takeBytes,granted] at took
  | some block =>
    have small : dataLen < 2^63 := by
      by_contra large
      rw [bounded net.requests dataLen (by omega)] at granted
      cases granted
    have length : (net.queue.take dataLen).length = dataLen := by
      rw [List.length_take]
      have := short small
      omega
    obtain ⟨block,granted⟩ : ∃ block, env.malloc net.requests (net.queue.take dataLen).length = some block := by
      rw [length]
      exact ⟨block,granted⟩
    obtain ⟨other,exact,takes,_⟩ :=
      takeBytes_exact valid (List.take_append_drop dataLen net.queue).symm granted
    rw [length,took] at exact
    cases exact
    exact ⟨small,length,takes⟩

theorem takeBytes_breaks {dataLen : Nat} {left : Netcore} : net.takeBytes env dataLen ≠ .breaks left := by
  unfold takeBytes
  split
  · simp
  · dsimp only
    split <;> simp

theorem takeInflated_breaks {dataLen compressedSize : Nat} {left : Netcore} :
    net.takeInflated env dataLen compressedSize ≠ .breaks left := by
  unfold takeInflated
  split
  · simp
  · split
    · simp
    · dsimp only
      split
      · simp
      · split
        · simp
        · split <;> simp

theorem takePacket_breaks {left : Netcore} : net.takePacket env ≠ .breaks left := by
  intro took
  unfold takePacket at took
  split at took
  · simp [Flow.andThen_breaks,takeVarint_breaks,takeBytes_breaks] at took
  · simp only [Flow.andThen_breaks,takeVarint_breaks,false_or] at took
    obtain ⟨_,_,_,took⟩ := took
    split at took
    · exact takeInflated_breaks took
    · simp [Flow.andThen_breaks,takeVarint_breaks,takeBytes_breaks] at took

theorem takeInflated_exact (valid : net.Valid) {id payload stream rest : List UInt8} (number : Varint id)
    (split : net.queue = stream ++ rest) (short : stream.length < 2^32) (fits : (id ++ payload).length < 2^32)
    (inflated : env.inflate stream (id ++ payload).length = some (id ++ payload))
    {block : Block (id ++ payload).length} (granted : env.malloc net.requests (id ++ payload).length = some block) :
    ∃ left, net.takeInflated env (id ++ payload).length stream.length = .goesOn ⟨varintValue id,payload⟩ left ∧
      net.Takes stream left ∧ left.queue = rest := by
  obtain ⟨takes,left⟩ := adv_takes valid split
  refine ⟨{ net.adv stream.length with requests := net.requests + 1 },?_,takes.requested _,left⟩
  obtain ⟨stale,cursor⟩ := cursor_split net
  have window : net.cursor.take (stream.length % 2^32) = stream := by
    rw [cursor,split,Nat.mod_eq_of_lt short,List.append_assoc,List.take_left]
  have walked : walkVarint (id ++ (payload ++ block.1.drop (id ++ payload).length)) (id ++ payload).length =
      some (id.length : Int) := walkVarint_varint number _ _ (by simp)
  have remains : sizeSub (id ++ payload).length id.length = payload.length := by
    rw [sizeSub_natCast (by simp) (by omega)]
    simp
  simp only [takeInflated,granted,window,Nat.mod_eq_of_lt fits,inflated]
  rw [List.append_assoc,walked]
  dsimp only
  rw [if_neg (by omega),decVarint_varint number,remains]
  simp only [List.take_left]

theorem takePacket_body (allocates : env.Allocates)
    (inflates : ∀ content stream, zip content stream → env.inflate stream content.length = some content)
    (valid : net.Valid) {packet : Packet} {body rest : List UInt8}
    (frame : Body zip net.settings.compression packet body) (split : net.queue = body ++ rest)
    (size : net.nextPacketSize = body.length) (small : body.length < 2^31) :
    ∃ left, net.takePacket env = .goesOn packet left ∧ net.Takes body left ∧ left.queue = rest := by
  generalize mode : net.settings.compression = compression at frame
  unfold takePacket
  rw [mode]
  -- what is left of the announced size behind the numbers
  have remains {front back : List UInt8} (whole : body.length = front.length + back.length) :
      sizeT (net.nextPacketSize - front.length) = back.length := by
    rw [size,whole]
    exact (sizeSub_natCast (by omega) (by omega)).trans (Nat.add_sub_cancel_left ..)
  cases frame with
  | @uncompressed id payload number =>
    rw [List.append_assoc] at split
    obtain ⟨first,behind⟩ := adv_takes valid split
    obtain ⟨block,granted⟩ := allocates (net.adv id.length).requests payload.length
    obtain ⟨left,copied,second,queue⟩ := takeBytes_exact first.valid behind granted
    refine ⟨left,?_,first.trans second,queue⟩
    simp only [takeVarint_head valid number split,Flow.andThen,first.size,remains (List.length_append ..),copied]
  | @verbatim zero id payload none nothing number =>
    simp only [List.append_assoc] at split
    obtain ⟨first,behind⟩ := adv_takes valid split
    obtain ⟨second,further⟩ := adv_takes first.valid behind
    obtain ⟨block,granted⟩ := allocates ((net.adv zero.length).adv id.length).requests payload.length
    obtain ⟨left,copied,third,queue⟩ := takeBytes_exact second.valid further granted
    have length : sizeSub (id ++ payload).length id.length = payload.length := by
      rw [sizeSub_natCast (by simp) (by simp at small ⊢; omega)]
      simp
    refine ⟨left,?_,first.trans (second.trans third),queue⟩
    simp only [takeVarint_head valid none split,Flow.andThen,nothing,first.size,
      remains (List.length_append ..),ne_eq,not_true_eq_false,if_false,
      takeVarint_head first.valid number behind,length,copied]
  | @zipped announced id payload stream header number length zips =>
    rw [List.append_assoc] at split
    obtain ⟨first,behind⟩ := adv_takes valid split
    have room := (varintValue announced).toInt_lt
    have positive := number.length_pos
    have something : varintValue announced ≠ 0 := by
      intro nothing
      rw [nothing] at length
      simp only [List.length_append] at length
      exact absurd length (by simp; omega)
    obtain ⟨block,granted⟩ := allocates (net.adv announced.length).requests (id ++ payload).length
    obtain ⟨left,inflated,second,queue⟩ := takeInflated_exact first.valid number behind
      (by simp at small; omega) (by omega) (inflates _ _ zips) granted
    refine ⟨left,?_,first.trans second,queue⟩
    simp only [takeVarint_head valid header split,Flow.andThen,first.size,remains (List.length_append ..),
      ne_eq,something,not_false_eq_true,if_true,length]
    rw [sizeT_natCast (by omega),inflated]

theorem takeInflated_advances {dataLen compressedSize : Nat} {packet : Packet} {left : Netcore}
    (took : net.takeInflated env dataLen compressedSize = .goesOn packet left) :
    left = { net.adv compressedSize with requests := net.requests + 1 } := by
  unfold takeInflated at took
  split at took
  next => cases took
  next =>
    split at took
    next => cases took
    next =>
      dsimp only at took
      split at took
      next => cases took
      next =>
        split at took
        next => cases took
        next =>
          split at took
          next => cases took; rfl
          next => cases took

end Packets

/-! Each passage that goes on takes a byte, so that the rounds of `readLoop` are enough. -/

theorem adv_inUse (net : Netcore) (dist : Nat) : (net.adv dist).readBuf.inUse ≤ net.readBuf.inUse := by
  simp only [adv,Bbuf.adv]
  split
  · exact Nat.le_refl _
  · exact Nat.sub_le ..

theorem takeVarint_inUse {number : Int32 × Int} {left : Netcore} (took : net.takeVarint = .goesOn number left) :
    left.readBuf.inUse < net.readBuf.inUse := by
  unfold takeVarint at took
  split at took
  next => cases took
  next ret walked =>
    split at took
    next => cases took
    next accepted =>
      split at took
      next =>
        cases took
        obtain ⟨bytes,_,_,varint,rfl,inside⟩ := walkVarint_accepts walked (by omega)
        have positive := varint.length_pos
        rw [sizeT_natCast (by have := varint.length_le; omega)]
        simp only [adv,Bbuf.adv,if_neg (Nat.not_lt.mpr inside)]
        omega
      next => cases took

theorem takeBytes_inUse {env : Env Pak} {dataLen : Nat} {data : List UInt8} {left : Netcore}
    (took : net.takeBytes env dataLen = .goesOn data left) : left.readBuf.inUse ≤ net.readBuf.inUse := by
  unfold takeBytes at took
  split at took
  next => cases took
  next =>
    dsimp only at took
    split at took
    next read =>
      cases took
      unfold Bbuf.recv at read
      split at read
      next => cases read
      next =>
        cases read
        exact Nat.sub_le ..
    next =>
      cases took
      exact Nat.le_refl _

theorem takePacket_inUse {env : Env Pak} {packet : Packet} {left : Netcore}
    (took : net.takePacket env = .goesOn packet left) : left.readBuf.inUse < net.readBuf.inUse := by
  unfold takePacket at took
  split at took
  · simp only [Flow.andThen_goesOn] at took
    obtain ⟨_,_,number,_,_,bytes,same⟩ := took
    cases same
    exact Nat.lt_of_le_of_lt (takeBytes_inUse bytes) (takeVarint_inUse number)
  · simp only [Flow.andThen_goesOn] at took
    obtain ⟨_,middle,number,took⟩ := took
    have less := takeVarint_inUse number
    split at took
    · rw [takeInflated_advances took]
      exact Nat.lt_of_le_of_lt (adv_inUse middle _) less
    · simp only [Flow.andThen_goesOn] at took
      obtain ⟨_,_,id,_,_,bytes,same⟩ := took
      cases same
      exact Nat.lt_of_le_of_lt (takeBytes_inUse bytes) ((takeVarint_inUse id).trans less)

theorem takeSize_inUse {left : Netcore} (took : net.takeSize = .goesOn () left) :
    left.readBuf.inUse ≤ net.readBuf.inUse := by
  unfold takeSize at took
  split at took
  next =>
    split at took
    next => cases took
    next ret walked =>
      split at took
      next => cases took
      next =>
        split at took
        next => cases took
        next =>
          split at took
          next =>
            cases took
            exact adv_inUse net _
          next => cases took
  next =>
    cases took
    exact Nat.le_refl _

theorem takeFrame_inUse {env : Env Pak} {packet : Packet} {left : Netcore}
    (took : net.takeFrame env = .goesOn packet left) : left.readBuf.inUse < net.readBuf.inUse := by
  simp only [takeFrame,Flow.andThen_goesOn] at took
  obtain ⟨_,_,⟨_,sized,size,_,awaited,await,packet⟩,same⟩ := took
  cases same
  unfold awaitPacket at await
  split at await
  · cases await
  · cases await
    have less := takePacket_inUse packet
    exact Nat.lt_of_lt_of_le less (takeSize_inUse size)

/-- More rounds than there are bytes change nothing: the loop is never cut short. -/
theorem readLoop_enough {env : Env Pak} {rounds : Nat} (enough : net.readBuf.inUse < rounds) :
    readLoop env rounds net = readLoop env (rounds+1) net := by
  induction rounds generalizing net with
  | zero => omega
  | succ rounds ih =>
    rw [readLoop,readLoop]
    split
    next => rfl
    next => rfl
    next packet left took =>
      have less := takeFrame_inUse took
      split
      next => rfl
      next pak _ =>
        rw [ih (by change left.readBuf.inUse < rounds; omega)]

end Netcore

section Reads
variable {env : Env Pak} {net : Netcore} {read : Read} {roomy : Netcore}

theorem arrive_spec (valid : net.Valid) (arrived : arrive env net read = some roomy) :
    (roomy.received read.chunk.length).Valid ∧
      (roomy.received read.chunk.length).queue = net.queue ++ read.chunk ∧
      (roomy.received read.chunk.length).settings = net.settings ∧
      (roomy.received read.chunk.length).nextPacketSize = net.nextPacketSize := by
  obtain ⟨moved,allocated,rfl⟩ := Option.map_eq_some_iff.mp arrived
  obtain ⟨buf,made,rfl⟩ := Option.map_eq_some_iff.mp allocated
  obtain ⟨wellFormed,same,room⟩ := Bbuf.makeRoom_wellFormed valid made
  obtain ⟨received,queue⟩ := Bbuf.write_received wellFormed (Nat.le_trans read.fits room)
  refine ⟨received,?_,rfl,rfl⟩
  change ((buf.write read.chunk).received read.chunk.length).queue = net.readBuf.queue ++ read.chunk
  rw [queue,same]

theorem arrive_granted {block : Block (net.readBuf.inUse + read.size)}
    (granted : env.malloc net.requests (net.readBuf.inUse + read.size) = some block) :
    ∃ roomy, arrive env net read = some roomy := by
  obtain ⟨buf,made⟩ := Bbuf.makeRoom_granted granted
  exact ⟨_,by rw [arrive,sbnetAllocCb,made]; rfl⟩

theorem receive_arrived (arrived : arrive env net read = some roomy) :
    receive env net read = 
      let loop := readLoop env ((roomy.received read.chunk.length).readBuf.inUse+1)
        (roomy.received read.chunk.length)
      ⟨.wrlock :: loop.trace,loop.outcome⟩ := by
  simp only [receive,arrived,sbnetReadCb]
  rw [if_neg (by omega),Int.toNat_natCast]

end Reads

section Sample

/-- What zlib makes of the three bytes of `storedContent` when it does not compress them. -/
def storedStream : List UInt8 := [0x78,0x01,0x01,0x03,0x00,0xFC,0xFF,0x00,0x01,0x61,0x00,0x66,0x00,0x63]

def storedContent : List UInt8 := [0x00,0x01,0x61]

/-- A world for runs on given bytes. Of zlib it knows one stream, of the protocol its packet that
switches to compression. -/
def storedZip : Env (List UInt8) where
  malloc _ size := if size < 2^63 then some ⟨List.replicate size 0,Bbuf.length_zeros size⟩ else none
  inflate window availOut := if window = storedStream ∧ 3 ≤ availOut then some storedContent else none
  genericToclientDecode _ _ payload := some payload
  protocolStrings state id := if state = .login ∧ id = 3 then "login_toclient_compress" else ""
  threshold _ := 0

theorem storedZip_bounded : storedZip.Bounded := fun _ _ large => if_neg (Nat.not_lt.mpr large)

def loginNet : Netcore := sbnetConnectCb (sbnetInitNet ⟨List.replicate 4096 0,Bbuf.length_zeros 4096⟩)

theorem loginNet_valid : loginNet.Valid := Netcore.sbnetInitNet_valid _

end Sample

end CSpock.Net
