import CSpock.Net.Bbuf
import CSpock.Varnum

/-! The read path of `sb_net.c`: `sbnet_alloc_cb`, `sbnet_read_cb` and the two handlers
of incoming packets that `sbnet_init_net` registers. A packet's event is taken to be
over when `vgc_wait_for_counter` returns. -/
namespace CSpock.Net
open CSpock.Library.Cursor CSpock.Numeric CSpock.Varnum

inductive ProtoState where
  | handshaking
  | login
  | play
  deriving Repr, DecidableEq

inductive CompressionState where
  | uncompressed
  | compressed
  deriving Repr, DecidableEq

/-- What is outside of the repository: the allocator, by the number of requests made
before and the size, zlib, by the input window and the room for output, and the
generated protocol code. A result of `inflate` is what it wrote before Z_STREAM_END. -/
structure Env (Pak : Type) where
  malloc : Nat → (size : Nat) → Option (Block size)
  inflate : List UInt8 → Nat → Option (List UInt8)
  genericToclientDecode : ProtoState → Int32 → List UInt8 → Option Pak
  protocolStrings : ProtoState → Int32 → String
  threshold : Pak → Int32

structure Settings where
  compression : CompressionState
  threshold : Int32
  protoState : ProtoState
  deriving Repr, DecidableEq

structure Netcore where
  readBuf : Bbuf
  nextPacketSize : Int
  settings : Settings
  requests : Nat
  deriving Repr, DecidableEq

structure Packet where
  id : Int32
  payload : List UInt8
  deriving Repr, DecidableEq

inductive Event where
  | wrlock
  | wrunlock
  | decode (packet : Packet)
  deriving Repr, DecidableEq

/-- A call with what it did on the way; `none` is a process that has stopped. -/
structure Call where
  trace : List Event
  outcome : Option Netcore
  deriving Repr, DecidableEq

/-- A passage of the loop: it ends the process, leaves the loop or goes on. -/
inductive Flow (α : Type) where
  | stops
  | breaks (net : Netcore)
  | goesOn (value : α) (net : Netcore)

def Flow.andThen {α β : Type} : Flow α → (α → Netcore → Flow β) → Flow β
  | .stops,_ => .stops
  | .breaks net,_ => .breaks net
  | .goesOn value net,next => next value net

theorem Flow.andThen_assoc {α β γ : Type} (flow : Flow α) (next : α → Netcore → Flow β) (last : β → Netcore → Flow γ) :
    (flow.andThen next).andThen last = flow.andThen fun value net => (next value net).andThen last := by
  cases flow <;> rfl

theorem Flow.andThen_goesOn {α β : Type} {flow : Flow α} {next : α → Netcore → Flow β} {value : β}
    {net : Netcore} : flow.andThen next = .goesOn value net ↔
      ∃ first middle, flow = .goesOn first middle ∧ next first middle = .goesOn value net := by
  cases flow <;> simp [andThen]

theorem Flow.andThen_breaks {α β : Type} {flow : Flow α} {next : α → Netcore → Flow β} {net : Netcore} :
    flow.andThen next = .breaks net ↔
      flow = .breaks net ∨ ∃ first middle, flow = .goesOn first middle ∧ next first middle = .breaks net := by
  cases flow <;> simp [andThen]

def noSize : Int := -1

namespace Netcore

def cursor (net : Netcore) : List UInt8 := net.readBuf.mem.drop net.readBuf.cur

def adv (net : Netcore) (dist : Nat) : Netcore := { net with readBuf := net.readBuf.adv dist }

def received (net : Netcore) (nread : Nat) : Netcore := { net with readBuf := net.readBuf.received nread }

/-- The length prefix of a packet, if none is pending. -/
def takeSize (net : Netcore) : Flow Unit :=
  if net.nextPacketSize = noSize then
    match walkVarint net.cursor net.readBuf.inUse with
    | none => .stops
    | some ret =>
      if ret = varnumOverrun then .breaks net
      else if ret = varnumInvalid then .stops
      else match decVarint net.cursor with
        | .ok packetSize _ => .goesOn () { net.adv (sizeT ret) with nextPacketSize := packetSize.toInt }
        | _ => .stops
  else .goesOn () net

/-- The comparison is one of unsigned numbers. -/
def awaitPacket (net : Netcore) : Flow Unit :=
  if sizeT net.nextPacketSize > net.readBuf.inUse then .breaks net else .goesOn () net

def takeVarint (net : Netcore) : Flow (Int32 × Int) :=
  match walkVarint net.cursor net.readBuf.inUse with
  | none => .stops
  | some ret =>
    if ret < 0 then .stops else
      match decVarint net.cursor with
      | .ok number _ => .goesOn (number,ret) (net.adv (sizeT ret))
      | _ => .stops

variable {Pak : Type}

/-- The result of `sbnet_recv_bbuf` is not looked at: the block stays as it was allocated. -/
def takeBytes (env : Env Pak) (dataLen : Nat) (net : Netcore) : Flow (List UInt8) :=
  match env.malloc net.requests dataLen with
  | none => .stops
  | some block =>
    let net := { net with requests := net.requests + 1 }
    match net.readBuf.recv dataLen with
    | some (data,readBuf) => .goesOn data { net with readBuf := readBuf }
    | none => .goesOn block.1 net

/-- The two sizes are given to zlib as 32-bit numbers, and how much it wrote is not looked at. -/
def takeInflated (env : Env Pak) (dataLen compressedSize : Nat) (net : Netcore) : Flow Packet :=
  match env.malloc net.requests dataLen with
  | none => .stops
  | some block =>
    match env.inflate (net.cursor.take (compressedSize % 2^32)) (dataLen % 2^32) with
    | none => .stops
    | some written =>
      let net := { net.adv compressedSize with requests := net.requests + 1 }
      let data := written ++ block.1.drop written.length
      match walkVarint data dataLen with
      | none => .stops
      | some ret =>
        if ret < 0 then .stops else
          match decVarint data with
          | .ok id pdata => .goesOn ⟨id,pdata.take (sizeSub dataLen ret)⟩ net
          | _ => .stops

/-- The branches on `net->compression`. -/
def takePacket (env : Env Pak) (net : Netcore) : Flow Packet :=
  match net.settings.compression with
  | .uncompressed => net.takeVarint.andThen fun (id,ret) net =>
    (net.takeBytes env (sizeT (net.nextPacketSize - ret))).andThen fun payload net => .goesOn ⟨id,payload⟩ net
  | .compressed => net.takeVarint.andThen fun (tmp,ret) net =>
    if tmp ≠ 0 then net.takeInflated env (sizeT tmp.toInt) (sizeT (net.nextPacketSize - ret)) else
      let dataLen := sizeT (net.nextPacketSize - ret)
      net.takeVarint.andThen fun (id,ret) net =>
        (net.takeBytes env (sizeSub dataLen ret)).andThen fun payload net => .goesOn ⟨id,payload⟩ net

def takeFrame (env : Env Pak) (net : Netcore) : Flow Packet :=
  (net.takeSize.andThen fun _ net => net.awaitPacket.andThen fun _ net => net.takePacket env).andThen
    fun packet net => .goesOn packet { net with nextPacketSize := noSize }

end Netcore

section Handlers
variable {Pak : Type}

def sbnetCompressCb (env : Env Pak) (packet : Pak) (settings : Settings) : Settings :=
  { settings with threshold := env.threshold packet, compression := .compressed }

def sbnetSuccessCb (settings : Settings) : Settings := { settings with protoState := .play }

/-- The event of a packet, as far as it is handled by the network core itself. -/
def emit (env : Env Pak) (settings : Settings) (id : Int32) (packet : Pak) : Settings :=
  if env.protocolStrings settings.protoState id = "login_toclient_compress" then
    sbnetCompressCb env packet settings
  else if env.protocolStrings settings.protoState id = "login_toclient_success" then sbnetSuccessCb settings
  else settings

/-- The settings in force after a packet; a packet that is not decoded changes nothing. -/
def Settings.after (env : Env Pak) (settings : Settings) (packet : Packet) : Settings :=
  match env.genericToclientDecode settings.protoState packet.id packet.payload with
  | none => settings
  | some pak => emit env settings packet.id pak

end Handlers

variable {Pak : Type}

/-- The loop of `sbnet_read_cb`; each round that goes on takes a byte of the buffer. -/
def readLoop (env : Env Pak) : Nat → Netcore → Call
  | 0,_ => ⟨[],none⟩
  | rounds+1,net =>
    match net.takeFrame env with
    | .stops => ⟨[],none⟩
    | .breaks net => ⟨[],some net⟩
    | .goesOn packet net =>
      match env.genericToclientDecode net.settings.protoState packet.id packet.payload with
      | none => ⟨[.decode packet],none⟩
      | some pak =>
        let rest := readLoop env rounds { net with settings := emit env net.settings packet.id pak }
        ⟨.decode packet :: .wrunlock :: rest.trace,rest.outcome⟩

/-- The bytes are in the buffer already. -/
def sbnetReadCb (env : Env Pak) (net : Netcore) (nread : Int) : Call :=
  if nread < 0 then ⟨[],none⟩ else
    let net := net.received nread.toNat
    let loop := readLoop env (net.readBuf.inUse+1) net
    ⟨.wrlock :: loop.trace,loop.outcome⟩

def sbnetAllocCb (env : Env Pak) (net : Netcore) (size : Nat) : Option Netcore :=
  (net.readBuf.makeRoom (env.malloc net.requests) size).map fun readBuf =>
    { net with readBuf := readBuf, requests := net.requests + 1 }

/-- What libuv does to the callbacks: it asks for room and reads no more than that. -/
structure Read where
  size : Nat
  chunk : List UInt8
  fits : chunk.length ≤ size

/-- The state in which the loop finds a read. -/
def arrive (env : Env Pak) (net : Netcore) (read : Read) : Option Netcore :=
  (sbnetAllocCb env net read.size).map fun net => { net with readBuf := net.readBuf.write read.chunk }

def receive (env : Env Pak) (net : Netcore) (read : Read) : Call :=
  match arrive env net read with
  | none => ⟨[],none⟩
  | some net => sbnetReadCb env net read.chunk.length

def run (env : Env Pak) : Netcore → List Read → Call
  | net,[] => ⟨[],some net⟩
  | net,read::reads =>
    let call := receive env net read
    match call.outcome with
    | none => call
    | some net => ⟨call.trace ++ (run env net reads).trace,(run env net reads).outcome⟩

def decoded (trace : List Event) : List Packet :=
  trace.filterMap fun | .decode packet => some packet | _ => none

theorem decoded_append (front back : List Event) : decoded (front ++ back) = decoded front ++ decoded back :=
  List.filterMap_append

/-- The state that `sbnet_init_net` sets up, over the block that it allocates. -/
def sbnetInitNet (block : Block 4096) : Netcore :=
  ⟨⟨block.1,0,0,4096⟩,noSize,⟨.uncompressed,0,.handshaking⟩,0⟩

/-- As far as reading is concerned; the packets that are written on a connection are no part of it. -/
def sbnetConnectCb (net : Netcore) : Netcore :=
  { net with settings := { net.settings with protoState := .login } }

end CSpock.Net
