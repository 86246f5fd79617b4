import CSpock.Net.Soundness

/-! The write lock of the network core over runs of the read callback. -/
namespace CSpock.Net
open CSpock.Numeric CSpock.Varnum

/-- The lock after a trace, held or free; `none` is a lock that is taken while it is held or
given back while it is free. -/
def lockRun : Bool → List Event → Option Bool
  | held,[] => some held
  | held,.decode _::trace => lockRun held trace
  | false,.wrlock::trace => lockRun true trace
  | true,.wrunlock::trace => lockRun false trace
  | _,_ => none

structure Balanced (call : Call) : Prop where
  paired : (lockRun false call.trace).isSome
  freed : call.outcome.isSome → lockRun false call.trace = some false

theorem lockRun_append (held : Bool) (front back : List Event) :
    lockRun held (front ++ back) = (lockRun held front).bind fun held => lockRun held back := by
  induction front generalizing held with
  | nil => rfl
  | cons event front ih => cases event <;> cases held <;> simp [lockRun,ih]

/-- The size in front, with the queue behind it. -/
inductive Announces (pending : Int) (queue : List UInt8) : Nat → List UInt8 → Prop where
  | carried (sized : pending ≠ noSize) : Announces pending queue (sizeT pending) queue
  | prefixed {size rest : List UInt8} (fresh : pending = noSize) (number : Varint size)
      (split : queue = size ++ rest) : Announces pending queue (sizeT (varintValue size).toInt) rest

/-- The queue ends inside of a length prefix or of the frame that it announces. -/
inductive Starved (pending : Int) (queue : List UInt8) : Prop where
  | size (fresh : pending = noSize) (cut : walkVarint queue queue.length = some varnumOverrun) : Starved pending queue
  | body {size : Nat} {rest : List UInt8} (announces : Announces pending queue size rest)
      (short : rest.length < size) : Starved pending queue

/-- There is a frame to take, and behind it none that is whole. A frame ends behind its announced size, or
behind its first number where that is longer. -/
structure OneFrame (pending : Int) (queue : List UInt8) : Prop where
  whole : ¬ Starved pending queue
  single : ∀ size rest, Announces pending queue size rest → ∀ first after, Varint first → rest = first ++ after →
    ∀ next behind, Varint next → rest.drop (max size first.length) = next ++ behind →
      behind.length < sizeT (varintValue next).toInt

namespace Netcore

structure Sane (net : Netcore) : Prop where
  valid : net.Valid
  block : net.readBuf.mem.length < 2^63
  low : -2^31 ≤ net.nextPacketSize
  high : net.nextPacketSize < 2^31

end Netcore

variable {Pak : Type} {env : Env Pak} {net left : Netcore}

theorem Body.first {zip : List UInt8 → List UInt8 → Prop} {compression : CompressionState} {packet : Packet}
    {body : List UInt8} (frame : Body zip compression packet body) :
    ∃ first more, Varint first ∧ body = first ++ more := by
  cases frame with
  | uncompressed number => exact ⟨_,_,number,rfl⟩
  | verbatim none => exact ⟨_,_,none,rfl⟩
  | zipped announced => exact ⟨_,_,announced,rfl⟩

namespace Netcore

theorem Sane.inUse_lt (sane : net.Sane) : net.readBuf.inUse < 2^63 := by
  have total := sane.valid.total
  have block := sane.block
  omega

theorem adv_rest (valid : net.Valid) (block : net.readBuf.mem.length < 2^63) {size step : Nat} (small : size < 2^31)
    (whole : size - step ≤ net.queue.length) (short : step ≤ 5) :
    (net.adv (sizeT (size - step))).Valid ∧
      (net.adv (sizeT (size - step))).readBuf.mem.length = net.readBuf.mem.length ∧
      (net.adv (sizeT (size - step))).queue = net.queue.drop (size - step) := by
  by_cases inside : step ≤ size
  · have remains : sizeT (size - step : Int) = size - step := sizeSub_natCast inside (by omega)
    have length : (net.queue.take (size - step)).length = size - step := by
      rw [List.length_take]
      omega
    obtain ⟨takes,queue⟩ := adv_takes valid (List.take_append_drop (size - step) net.queue).symm
    rw [length] at takes queue
    rw [remains]
    exact ⟨takes.valid,takes.block,queue⟩
  · have wraps := sizeT_of_neg (show (size - step : Int) < 0 by omega) (by omega)
    have total := valid.total
    have refused : net.adv (sizeT (size - step)) = net := by
      have same : net.readBuf.adv (sizeT (size - step)) = net.readBuf := if_pos (by omega)
      rw [adv,same]
    rw [refused,Nat.sub_eq_zero_of_le (by omega)]
    exact ⟨valid,rfl,rfl⟩

theorem takePacket_extent (bounded : env.Bounded) (sane : net.Sane) {size : Nat}
    (announced : net.nextPacketSize = size) (whole : size ≤ net.queue.length) {packet : Packet}
    (took : net.takePacket env = .goesOn packet left) :
    ∃ first after, Varint first ∧ net.queue = first ++ after ∧ left.Valid ∧
      left.readBuf.mem.length = net.readBuf.mem.length ∧ left.queue = net.queue.drop (max size first.length) := by
  have small : size < 2^31 := by
    have := sane.high
    omega
  have fitting {body first more : List UInt8} (takes : net.Takes body left) (number : Varint first)
      (split : body = first ++ more) (length : body.length = size) :
      ∃ first after, Varint first ∧ net.queue = first ++ after ∧ left.Valid ∧
        left.readBuf.mem.length = net.readBuf.mem.length ∧ left.queue = net.queue.drop (max size first.length) := by
    refine ⟨first,more ++ left.queue,number,?_,takes.valid,takes.block,?_⟩
    · rw [takes.queue,split,List.append_assoc]
    · have inside : max size first.length = body.length := by
        rw [split,List.length_append] at length
        rw [split,List.length_append]
        omega
      rw [takes.queue,inside,List.drop_left]
  cases mode : net.settings.compression with
  | uncompressed =>
    obtain ⟨body,length,takes,frame⟩ := takePacket_uncompressed bounded sane.valid mode announced small whole took
    obtain ⟨first,more,number,split⟩ := frame.first
    exact fitting takes number split length
  | compressed =>
    simp only [takePacket,mode,Flow.andThen_goesOn] at took
    obtain ⟨⟨tmp,ret⟩,middle,tookLen,took⟩ := took
    obtain ⟨dataLen,takesLen,header,rfl,rfl⟩ := takeVarint_goesOn sane.valid tookLen
    dsimp only at took
    rw [takesLen.size] at took
    split at took
    next =>
      obtain rfl := takeInflated_advances took
      have short := header.length_le
      have queued := congrArg List.length takesLen.queue
      rw [List.length_append] at queued
      obtain ⟨valid,block,queue⟩ := adv_rest takesLen.valid (takesLen.block ▸ sane.block) small (by omega) short
      rw [announced]
      refine ⟨dataLen,middle.queue,header,takesLen.queue,valid,block.trans takesLen.block,queue.trans ?_⟩
      have gone : dataLen.drop (max size dataLen.length) = [] := List.drop_eq_nil_of_le (by omega)
      rw [takesLen.queue,List.drop_append,gone,List.nil_append]
      congr 1
      omega
    next nothing =>
      simp only [Flow.andThen_goesOn] at took
      obtain ⟨⟨id,ret⟩,next,tookId,payload,last,tookPayload,same⟩ := took
      cases same
      obtain ⟨idBytes,_,_,length,takes⟩ := takePacket_verbatim bounded announced small whole header
        takesLen tookId tookPayload
      exact fitting takes header rfl length

/-- What a passage of the loop does to the queue, as far as the lock depends on it. -/
inductive Passage (net : Netcore) : Flow Packet → Prop where
  | refused : Passage net .stops
  | starves {left : Netcore} (sane : left.Sane) (starved : Starved net.nextPacketSize net.queue) : Passage net (.breaks left)
  | takes {packet : Packet} {left : Netcore} {size : Nat} {rest first after : List UInt8} (sane : left.Sane)
      (fresh : left.nextPacketSize = noSize) (announces : Announces net.nextPacketSize net.queue size rest) (whole : size ≤ rest.length)
      (number : Varint first) (split : rest = first ++ after)
      (queue : left.queue = rest.drop (max size first.length)) : Passage net (.goesOn packet left)

/-- The part of a passage behind the length prefix. -/
def takeAnnounced (env : Env Pak) (net : Netcore) : Flow Packet :=
  net.awaitPacket.andThen fun _ net => (net.takePacket env).andThen fun packet net =>
    .goesOn packet { net with nextPacketSize := noSize }

theorem takeFrame_eq (env : Env Pak) (net : Netcore) :
    net.takeFrame env = net.takeSize.andThen fun _ net => net.takeAnnounced env := by
  simp only [takeFrame,takeAnnounced,Flow.andThen_assoc]

theorem takeAnnounced_passage (bounded : env.Bounded) (sane : net.Sane) {before : Netcore}
    (announces : Announces before.nextPacketSize before.queue (sizeT net.nextPacketSize) net.queue) :
    Passage before (net.takeAnnounced env) := by
  by_cases short : sizeT net.nextPacketSize > net.readBuf.inUse
  · simp only [takeAnnounced,awaitPacket,if_pos short,Flow.andThen]
    rw [inUse_queue sane.valid] at short
    exact .starves sane (.body announces short)
  · have nonneg : 0 ≤ net.nextPacketSize := by
      by_contra negative
      have low := sane.low
      have := sane.inUse_lt
      have := sizeT_of_neg (show net.nextPacketSize < 0 by omega) (by omega)
      omega
    obtain ⟨size,announced⟩ := Int.eq_ofNat_of_zero_le nonneg
    have high := sane.high
    have unsigned : sizeT net.nextPacketSize = size := by rw [announced,sizeT_natCast (by omega)]
    rw [unsigned] at announces
    have whole : size ≤ net.queue.length := by
      rw [unsigned,inUse_queue sane.valid] at short
      omega
    simp only [takeAnnounced,awaitPacket,if_neg short,Flow.andThen]
    generalize took : net.takePacket env = flow
    cases flow with
    | stops => exact .refused
    | breaks => exact absurd took takePacket_breaks
    | goesOn packet left =>
      obtain ⟨first,after,number,split,valid,block,queue⟩ := takePacket_extent bounded sane announced whole took
      refine .takes ⟨valid,?_,by simp [noSize],by simp [noSize]⟩ rfl announces whole number split queue
      have := sane.block
      change left.readBuf.mem.length < 2^63
      omega

theorem takeFrame_passage (bounded : env.Bounded) (sane : net.Sane) : Passage net (net.takeFrame env) := by
  rw [takeFrame_eq]
  by_cases fresh : net.nextPacketSize = noSize
  · obtain ⟨stale,cursor⟩ := cursor_split net
    have inside : walkVarint net.cursor net.readBuf.inUse = walkVarint net.queue net.queue.length := by
      rw [cursor,inUse_queue sane.valid,walkVarint_inside]
    cases walked : walkVarint net.cursor net.readBuf.inUse with
    | none =>
      simp only [takeSize,fresh,walked,if_true,Flow.andThen]
      exact .refused
    | some ret =>
      rcases walkVarint_answers walked with rfl | rfl | accepted
      · simp only [takeSize,fresh,walked,if_true,Flow.andThen]
        exact .starves sane (.size fresh (inside.symm.trans walked))
      · simp only [takeSize,fresh,walked,if_true,if_neg (show varnumInvalid ≠ varnumOverrun by decide),Flow.andThen]
        exact .refused
      · obtain ⟨size,behind,queued,number,_⟩ := walk_found sane.valid walked accepted
        obtain ⟨takes,queue⟩ := adv_takes sane.valid queued
        rw [takeSize_queued sane.valid fresh number queued]
        let next : Netcore := { net.adv size.length with nextPacketSize := (varintValue size).toInt }
        have sane : next.Sane :=
          ⟨takes.valid,takes.block ▸ sane.block,(varintValue size).le_toInt,(varintValue size).toInt_lt⟩
        have left : next.queue = behind := queue
        exact takeAnnounced_passage bounded sane (left ▸ .prefixed fresh number queued)
  · rw [takeSize_sized fresh]
    exact takeAnnounced_passage bounded sane (.carried fresh)

end Netcore

theorem arrive_sane {read : Read} {roomy : Netcore} (bounded : env.Bounded) (sane : net.Sane)
    (arrived : arrive env net read = some roomy) : (roomy.received read.chunk.length).Sane := by
  obtain ⟨valid,_,_,size⟩ := arrive_spec sane.valid arrived
  refine ⟨valid,?_,size ▸ sane.low,size ▸ sane.high⟩
  obtain ⟨moved,allocated,rfl⟩ := Option.map_eq_some_iff.mp arrived
  obtain ⟨buf,made,rfl⟩ := Option.map_eq_some_iff.mp allocated
  refine Bbuf.write_block sane.valid made read.fits (fun size block given => ?_) sane.block
  by_contra large
  rw [bounded net.requests size (by omega)] at given
  cases given

/-- What the loop does where there is one frame: it ends the process, or it returns without the lock. -/
theorem readLoop_oneFrame (bounded : env.Bounded) (sane : net.Sane) (one : OneFrame net.nextPacketSize net.queue)
    (rounds : Nat) : (lockRun true (readLoop env rounds net).trace).isSome ∧
      ∀ left, (readLoop env rounds net).outcome = some left →
        left.Sane ∧ lockRun true (readLoop env rounds net).trace = some false := by
  cases rounds with
  | zero => simp [readLoop,lockRun]
  | succ rounds =>
    have passage := net.takeFrame_passage bounded sane
    generalize took : net.takeFrame env = flow at passage
    cases passage with
    | refused => simp [readLoop,took,lockRun]
    | starves _ starved => exact absurd starved one.whole
    | @takes packet left size rest first after sane fresh announces whole number split queue =>
      cases decodes : env.genericToclientDecode left.settings.protoState packet.id packet.payload with
      | none => simp [readLoop,took,decodes,lockRun]
      | some pak =>
        simp only [readLoop,took,decodes,lockRun]
        generalize next_eq : { left with settings := emit env left.settings packet.id pak } = next
        have again : next.Sane ∧ next.nextPacketSize = noSize ∧ next.queue = rest.drop (max size first.length) := by
          subst next_eq
          exact ⟨⟨sane.valid,sane.block,sane.low,sane.high⟩,fresh,queue⟩
        obtain ⟨sane,fresh,queue⟩ := again
        cases rounds with
        | zero => simp [readLoop,lockRun]
        | succ rounds =>
          have passage := next.takeFrame_passage bounded sane
          generalize took : next.takeFrame env = flow at passage
          cases passage with
          | refused => simp [readLoop,took,lockRun]
          | starves sane _ => simpa [readLoop,took,lockRun] using sane
          | takes _ _ more enough _ _ _ =>
            -- a second whole frame is what is excluded
            cases more with
            | carried sized => exact absurd fresh sized
            | prefixed _ second behind =>
              rw [queue] at behind
              have := one.single size rest announces first after number split _ _ second behind
              omega

theorem receive_oneFrame (bounded : env.Bounded) (sane : net.Sane) {read : Read}
    (one : OneFrame net.nextPacketSize (net.queue ++ read.chunk)) :
    Balanced (receive env net read) ∧ ∀ left, (receive env net read).outcome = some left → left.Sane := by
  cases arrived : arrive env net read with
  | none => exact ⟨⟨by simp [receive,arrived,lockRun],by simp [receive,arrived]⟩,by simp [receive,arrived]⟩
  | some roomy =>
    obtain ⟨_,queue,_,size⟩ := arrive_spec sane.valid arrived
    rw [← queue,← size] at one
    obtain ⟨paired,returned⟩ := readLoop_oneFrame bounded (arrive_sane bounded sane arrived) one
      ((roomy.received read.chunk.length).readBuf.inUse+1)
    rw [receive_arrived arrived]
    refine ⟨⟨paired,fun some_left => ?_⟩,fun left outcome => (returned left outcome).1⟩
    obtain ⟨left,outcome⟩ := Option.isSome_iff_exists.mp some_left
    exact (returned left outcome).2

theorem Announces.unique {pending : Int} {queue rest other : List UInt8} {size another : Nat}
    (announces : Announces pending queue size rest) (again : Announces pending queue another other) :
    size = another ∧ rest = other := by
  cases announces with
  | carried sized =>
    cases again with
    | carried => exact ⟨rfl,rfl⟩
    | prefixed fresh => exact absurd fresh sized
  | prefixed fresh number split =>
    cases again with
    | carried sized => exact absurd fresh sized
    | prefixed _ number' split' =>
      obtain ⟨rfl,rfl⟩ := Groups.unique number number' (split.symm.trans split')
      exact ⟨rfl,rfl⟩

theorem Announces.starved_iff {pending : Int} {queue rest : List UInt8} {size : Nat}
    (announces : Announces pending queue size rest) : Starved pending queue ↔ rest.length < size := by
  refine ⟨fun starved => ?_,.body announces⟩
  cases starved with
  | body again short =>
    obtain ⟨rfl,rfl⟩ := announces.unique again
    exact short
  | size fresh cut =>
    cases announces with
    | carried sized => exact absurd fresh sized
    | prefixed _ number split =>
      rw [split,walkVarint_varint number _ _ (by simp),Option.some.injEq,varnumOverrun] at cut
      omega

theorem readLoop_oneFrame_of_freed (bounded : env.Bounded) (sane : net.Sane) {rounds : Nat} {last : Netcore}
    (outcome : (readLoop env rounds net).outcome = some last)
    (freed : lockRun true (readLoop env rounds net).trace = some false) :
    OneFrame net.nextPacketSize net.queue := by
  cases rounds with
  | zero => cases outcome
  | succ rounds =>
    have passage := net.takeFrame_passage bounded sane
    generalize took : net.takeFrame env = flow at passage
    cases passage with
    | refused => simp [readLoop,took] at outcome
    | starves => simp [readLoop,took,lockRun] at freed
    | @takes packet left size rest first after sane fresh announces whole number split queue =>
      refine ⟨fun starved => absurd (announces.starved_iff.mp starved) (Nat.not_lt.mpr whole),?_⟩
      intro size' rest' announces' first' after' number' split' second behind secondNumber gone
      obtain ⟨rfl,rfl⟩ := announces.unique announces'
      obtain ⟨rfl,_⟩ := Groups.unique number number' (split.symm.trans split')
      rw [← queue] at gone
      cases decodes : env.genericToclientDecode left.settings.protoState packet.id packet.payload with
      | none => simp [readLoop,took,decodes] at outcome
      | some pak =>
        simp only [readLoop,took,decodes,lockRun] at outcome freed
        generalize next_eq : { left with settings := emit env left.settings packet.id pak } = next at outcome freed
        have again : next.Sane ∧ next.nextPacketSize = noSize ∧ next.queue = left.queue := by
          subst next_eq
          exact ⟨⟨sane.valid,sane.block,sane.low,sane.high⟩,fresh,rfl⟩
        obtain ⟨sane,fresh,same⟩ := again
        cases rounds with
        | zero => simp [readLoop] at outcome
        | succ rounds =>
          have passage := next.takeFrame_passage bounded sane
          generalize took : next.takeFrame env = flow at passage
          cases passage with
          | refused => simp [readLoop,took] at outcome
          | starves _ starved =>
            have announces : Announces next.nextPacketSize next.queue _ _ :=
              .prefixed fresh secondNumber (same.trans gone)
            exact announces.starved_iff.mp starved
          | @takes packet left =>
            cases decodes : env.genericToclientDecode left.settings.protoState packet.id packet.payload with
            | none => simp [readLoop,took,decodes] at outcome
            | some pak => simp [readLoop,took,decodes,lockRun] at freed

/-- A call that returns treats the lock well exactly when there was one frame for it. -/
theorem receive_balanced_iff (bounded : env.Bounded) (sane : net.Sane) {read : Read} {last : Netcore}
    (outcome : (receive env net read).outcome = some last) :
    Balanced (receive env net read) ↔ OneFrame net.nextPacketSize (net.queue ++ read.chunk) := by
  refine ⟨fun balanced => ?_,fun one => (receive_oneFrame bounded sane one).1⟩
  have freed := balanced.freed (by rw [outcome]; rfl)
  cases arrived : arrive env net read with
  | none => simp [receive,arrived] at outcome
  | some roomy =>
    obtain ⟨_,queue,_,size⟩ := arrive_spec sane.valid arrived
    rw [receive_arrived arrived] at outcome freed
    rw [← queue,← size]
    exact readLoop_oneFrame_of_freed bounded (arrive_sane bounded sane arrived) outcome freed

/-- Before every call of a run, its pending size and its bytes are as `condition` asks. -/
def EveryCall (env : Env Pak) (condition : Int → List UInt8 → Prop) : Netcore → List Read → Prop
  | _,[] => True
  | net,read::reads => condition net.nextPacketSize (net.queue ++ read.chunk) ∧
      ∀ next, (receive env net read).outcome = some next → EveryCall env condition next reads

/-- After each of the calls the lock is free, and no call has taken or given it back wrongly. -/
def LockBalanced (env : Env Pak) (net : Netcore) (reads : List Read) : Prop :=
  ∀ calls, calls <+: reads → Balanced (run env net calls)

theorem run_balanced (bounded : env.Bounded) (sane : net.Sane) (reads : List Read)
    (one : EveryCall env OneFrame net reads) : LockBalanced env net reads := by
  intro calls front
  induction calls generalizing net reads with
  | nil => exact ⟨rfl,fun _ => rfl⟩
  | cons read calls ih =>
    obtain ⟨reads,rfl⟩ := front
    obtain ⟨balanced,left⟩ := receive_oneFrame bounded sane one.1
    cases outcome : (receive env net read).outcome with
    | none =>
      have stopped : run env net (read::calls) = receive env net read := by simp only [run,outcome]
      rwa [stopped]
    | some next =>
      have rest := ih (left next outcome) (calls ++ reads) (one.2 next outcome) (List.prefix_append ..)
      have freed : lockRun false (receive env net read).trace = some false := balanced.freed (by rw [outcome]; rfl)
      have lock : lockRun false (run env net (read::calls)).trace = lockRun false (run env next calls).trace := by
        simp only [run,outcome,lockRun_append,freed,Option.bind_some]
      have result : (run env net (read::calls)).outcome = (run env next calls).outcome := by
        simp only [run,outcome]
      constructor
      · rw [lock]
        exact rest.paired
      · rw [lock,result]
        exact rest.freed

theorem run_balanced_one : LockBalanced storedZip loginNet [⟨65536,[0x01,0x00],by decide⟩] := by
  have sane : loginNet.Sane := ⟨loginNet_valid,by decide +kernel,by decide,by decide⟩
  refine run_balanced storedZip_bounded sane _ ⟨⟨?_,?_⟩,fun _ _ => trivial⟩
  · change ¬ Starved noSize [0x01,0x00]
    intro starved
    cases starved with
    | size _ cut => exact absurd cut (by decide)
    | body announces short =>
      cases announces with
      | carried sized => exact sized rfl
      | prefixed _ number split =>
        obtain ⟨rfl,rfl⟩ := Groups.unique (Varint.single (by decide)) number split
        exact absurd short (by decide +kernel)
  · change ∀ size rest, Announces noSize [0x01,0x00] size rest → _
    intro size rest announces first after _ _ next behind last gone
    cases announces with
    | carried sized => exact absurd rfl sized
    | prefixed _ number split =>
      obtain ⟨rfl,rfl⟩ := Groups.unique (Varint.single (by decide)) number split
      have size : sizeT (varintValue [0x01]).toInt = 1 := by decide +kernel
      have positive := last.length_pos
      have length := congrArg List.length gone
      rw [size] at length
      simp at length
      omega

def cutRead : Read := ⟨65536,[0x02,0x00],by decide⟩

def doubleRead : Read := ⟨65536,[0x01,0x00,0x01,0x00],by decide⟩

theorem run_balanced_fails : ¬ LockBalanced storedZip loginNet [cutRead] ∧ ¬ LockBalanced storedZip loginNet [doubleRead] := by
  constructor
  · intro balanced
    have freed := (balanced [cutRead] List.prefix_rfl).freed (by decide +kernel)
    have held : lockRun false (run storedZip loginNet [cutRead]).trace = some true := by decide +kernel
    rw [held] at freed
    cases freed
  · intro balanced
    have paired := (balanced [doubleRead] List.prefix_rfl).paired
    have twice : lockRun false (run storedZip loginNet [doubleRead]).trace = none := by decide +kernel
    rw [twice] at paired
    cases paired

end CSpock.Net
