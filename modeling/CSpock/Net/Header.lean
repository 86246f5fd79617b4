import CSpock.Net.Reassembly
import CSpock.Varlong

/-! The header of an outgoing packet, and what the read path makes of it. -/
namespace CSpock.Net
open CSpock.Library.Cursor CSpock.Numeric CSpock.Varnum

def sbnetSizeUncomHdr (srcSize srcId : UInt32) : Nat :=
  let pidSize := sizeVarint srcId
  let totalSize := UInt32.ofNat (srcSize.toNat + pidSize)
  sizeVarint totalSize + pidSize

def sbnetEncUncomHdr (srcSize srcId : UInt32) : List UInt8 :=
  let totalSize := srcSize.toNat + sizeVarint srcId
  encVarint (UInt32.ofNat totalSize) ++ encVarint srcId

theorem sizeVarint_le (number : UInt32) : sizeVarint number ≤ (encVarint number).length ∧ (encVarint number).length ≤ 5 := by
  refine ⟨?_,(encVarint_varint number).length_le⟩
  have positive := (encVarint_varint number).length_pos
  by_cases counted : sizeVarint number = (encVarint number).length
  · exact counted.le
  · rw [sizeVarint_iff,not_not] at counted
    rw [sizeVarint,if_pos (by omega)]
    exact positive

/-- A header is as long as was said if neither of its numbers needs a byte for its eighth bit alone. -/
theorem length_sbnetEncUncomHdr (srcSize srcId : UInt32) :
    (sbnetEncUncomHdr srcSize srcId).length = sbnetSizeUncomHdr srcSize srcId ↔
      ¬(128 ≤ srcId.toNat ∧ srcId.toNat < 256) ∧
      ¬(128 ≤ (UInt32.ofNat (srcSize.toNat + sizeVarint srcId)).toNat ∧
        (UInt32.ofNat (srcSize.toNat + sizeVarint srcId)).toNat < 256) := by
  rw [← sizeVarint_iff,← sizeVarint_iff,sbnetEncUncomHdr,sbnetSizeUncomHdr,List.length_append]
  have id := sizeVarint_le srcId
  have total := sizeVarint_le (UInt32.ofNat (srcSize.toNat + sizeVarint srcId))
  omega

namespace Netcore
variable {Pak : Type} {env : Env Pak} {net : Netcore}

theorem takeBytes_length (valid : net.Valid) {dataLen : Nat} {data : List UInt8} {left : Netcore}
    (took : net.takeBytes env dataLen = .goesOn data left) : data.length = dataLen := by
  unfold takeBytes at took
  split at took
  next => cases took
  next block _ =>
    dsimp only at took
    by_cases inside : dataLen ≤ net.readBuf.inUse
    · rw [Bbuf.recv_queue inside] at took
      cases took
      rw [List.length_take,Bbuf.length_queue valid]
      omega
    · rw [Bbuf.recv,if_pos (by omega)] at took
      cases took
      exact block.2

theorem takeFrame_announced (valid : net.Valid) (fresh : net.nextPacketSize = noSize) {size body : List UInt8}
    (number : Varint size) (split : net.queue = size ++ body) (natural : 0 ≤ (varintValue size).toInt)
    (enough : (varintValue size).toInt ≤ body.length) :
    ∃ next : Netcore, next.Valid ∧ next.queue = body ∧ next.settings = net.settings ∧
      next.nextPacketSize = (varintValue size).toInt ∧ net.takeFrame env =
        (next.takePacket env).andThen fun packet net => .goesOn packet { net with nextPacketSize := noSize } := by
  obtain ⟨takes,queue⟩ := adv_takes valid split
  have sized : (varintValue size).toInt ≠ noSize := by
    rw [noSize]
    omega
  refine ⟨{ net.adv size.length with nextPacketSize := (varintValue size).toInt },takes.valid,queue,takes.settings,rfl,?_⟩
  rw [takeFrame_takeSize (takeSize_queued valid fresh number split) sized]
  have awaited : ¬sizeT (varintValue size).toInt > (net.adv size.length).readBuf.inUse := by
    have range := (varintValue size).toInt_lt
    have exact := sizeT_of_nonneg natural (by omega)
    rw [inUse_queue takes.valid,queue]
    omega
  rw [takeFrame,takeSize_sized sized]
  simp only [Flow.andThen,awaitPacket,if_neg awaited]

/-- A passage of the loop goes on with the packet and leaves the rest, at the start of a frame. -/
def Returns (env : Env Pak) (net : Netcore) (id : Int32) (payload rest : List UInt8) : Prop :=
  ∃ left : Netcore, net.takeFrame env = .goesOn ⟨id,payload⟩ left ∧ left.queue = rest ∧ left.nextPacketSize = noSize

/-- Exactly the payload comes back when the size that is announced is its own and that of the number in front. -/
theorem returns_iff (allocates : env.Allocates) (valid : net.Valid) (fresh : net.nextPacketSize = noSize)
    (mode : net.settings.compression = .uncompressed) {size id payload rest : List UInt8} (number : Varint size)
    (inner : Varint id) (split : net.queue = size ++ (id ++ (payload ++ rest)))
    (small : payload.length + 5 < 2^31) (natural : 0 ≤ (varintValue size).toInt)
    (enough : (varintValue size).toInt ≤ id.length + payload.length) :
    Returns env net (varintValue id) payload rest ↔ (varintValue size).toInt = id.length + payload.length := by
  have short := inner.length_le
  have range := (varintValue size).toInt_lt
  have inside : (varintValue size).toInt ≤ (id ++ (payload ++ rest)).length := by
    simp only [List.length_append]
    omega
  obtain ⟨next,sane,queue,settings,announced,frame⟩ :=
    @takeFrame_announced _ env _ valid fresh _ _ number split natural inside
  constructor
  · rintro ⟨left,took,_,_⟩
    rw [frame] at took
    obtain ⟨_,_,packet,same⟩ := Flow.andThen_goesOn.mp took
    cases same
    simp only [takePacket,settings,mode,takeVarint_head sane inner queue,Flow.andThen_goesOn] at packet
    obtain ⟨_,_,head,_,_,copied,same⟩ := packet
    cases head
    cases same
    have length : payload.length = sizeT (next.nextPacketSize - id.length) :=
      takeBytes_length (adv_takes sane queue).1.valid copied
    rw [announced] at length
    rcases Int.lt_or_le ((varintValue size).toInt - id.length) 0 with negative | natural
    · have := sizeT_of_neg negative (by omega)
      omega
    · have := sizeT_of_nonneg natural (by omega)
      omega
  · intro total
    have body : Body (fun _ _ => False) next.settings.compression ⟨varintValue id,payload⟩ (id ++ payload) := by
      rw [settings,mode]
      exact .uncompressed inner
    have length : (id ++ payload).length = id.length + payload.length := List.length_append
    obtain ⟨left,took,_,behind⟩ := takePacket_body allocates (fun _ _ never => never.elim) sane body
      (by rw [queue,List.append_assoc]) (by rw [announced,total,length,Nat.cast_add]) (by omega)
    refine ⟨{ left with nextPacketSize := noSize },?_,behind,rfl⟩
    rw [frame,took]
    rfl

end Netcore

/-- The header and its packet, for every payload of the size that was given. -/
theorem sbnetUncomHdr_iff {Pak : Type} {env : Env Pak} (allocates : env.Allocates) {srcSize srcId : UInt32}
    (small : srcSize.toNat + 5 < 2^31) {payload rest : List UInt8} (size : payload.length = srcSize.toNat)
    {net : Netcore} (valid : net.Valid) (fresh : net.nextPacketSize = noSize)
    (mode : net.settings.compression = .uncompressed)
    (split : net.queue = sbnetEncUncomHdr srcSize srcId ++ (payload ++ rest)) :
    ((sbnetEncUncomHdr srcSize srcId).length = sbnetSizeUncomHdr srcSize srcId ↔
      ¬(128 ≤ srcId.toNat ∧ srcId.toNat < 256) ∧
      ¬(128 ≤ srcSize.toNat + sizeVarint srcId ∧ srcSize.toNat + sizeVarint srcId < 256)) ∧
    (net.Returns env srcId.toInt32 payload rest ↔ ¬(128 ≤ srcId.toNat ∧ srcId.toNat < 256)) := by
  have bounds := sizeVarint_le srcId
  have stored : (UInt32.ofNat (srcSize.toNat + sizeVarint srcId)).toNat = srcSize.toNat + sizeVarint srcId := by
    rw [UInt32.toNat_ofNat']
    omega
  refine ⟨by rw [length_sbnetEncUncomHdr,stored],?_⟩
  have total : (varintValue (encVarint (UInt32.ofNat (srcSize.toNat + sizeVarint srcId)))).toInt =
      srcSize.toNat + sizeVarint srcId := by
    rw [varintValue_encVarint,toInt_toInt32,stored,cInt_natCast (by omega),Nat.cast_add]
  rw [sbnetEncUncomHdr,List.append_assoc] at split
  rw [← varintValue_encVarint srcId,Netcore.returns_iff allocates valid fresh mode (encVarint_varint _) (encVarint_varint _)
    split (by omega) (by omega) (by omega),total,size,← sizeVarint_iff]
  omega

def queuedNet (bytes : List UInt8) : Netcore := { loginNet with readBuf := ⟨bytes,0,bytes.length,0⟩ }

theorem queuedNet_valid (bytes : List UInt8) : (queuedNet bytes).Valid := ⟨by simp [queuedNet]⟩

theorem queuedNet_queue (bytes : List UInt8) : (queuedNet bytes).queue = bytes := by
  simp [queuedNet,Netcore.queue,Bbuf.queue]

theorem sbnetUncomHdr_iff_letter :
    ((sbnetEncUncomHdr 1 7).length = sbnetSizeUncomHdr 1 7 ↔
      ¬(128 ≤ (7 : UInt32).toNat ∧ (7 : UInt32).toNat < 256) ∧
      ¬(128 ≤ (1 : UInt32).toNat + sizeVarint 7 ∧ (1 : UInt32).toNat + sizeVarint 7 < 256)) ∧
    ((queuedNet (sbnetEncUncomHdr 1 7 ++ ([0x61] ++ [9]))).Returns roomyZip (7 : UInt32).toInt32 [0x61] [9] ↔
      ¬(128 ≤ (7 : UInt32).toNat ∧ (7 : UInt32).toNat < 256)) :=
  sbnetUncomHdr_iff roomyZip_cooperates.allocates (by decide) (by decide) (queuedNet_valid _) rfl rfl (queuedNet_queue _)

/-- The number 128 takes two bytes, and is counted as one: for the size of the header, and for that of the packet. -/
theorem sbnetUncomHdr_fails : ¬∀ (srcSize srcId : UInt32), srcSize.toNat + 5 < 2^31 →
    (sbnetEncUncomHdr srcSize srcId).length = sbnetSizeUncomHdr srcSize srcId ∧
    ∀ (env : Env (List UInt8)) (net : Netcore) (payload rest : List UInt8), env.Allocates →
      payload.length = srcSize.toNat → net.Valid → net.nextPacketSize = noSize →
      net.settings.compression = .uncompressed → net.queue = sbnetEncUncomHdr srcSize srcId ++ (payload ++ rest) →
      net.Returns env srcId.toInt32 payload rest := by
  intro agrees
  have same := (agrees 1 128 (by decide)).1
  have three : (sbnetEncUncomHdr 1 128).length = 3 := by decide +kernel
  have two : sbnetSizeUncomHdr 1 128 = 2 := by decide +kernel
  omega

end CSpock.Net
