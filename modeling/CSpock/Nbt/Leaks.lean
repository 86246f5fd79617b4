import CSpock.Nbt.Build
import CSpock.Nbt.Clone
import CSpock.Nbt.Sentinel

/-! What the parser allocates is the tree that it parses. When there is no tree everything has been freed, unless
there was an error before the payload of the first tag. -/
namespace CSpock.Nbt
open CSpock.Library.Circular CSpock.Library.Endian CSpock.Numeric

section Rooms
variable {memory memory' : Memory} {cells : List Ptr}

theorem Fresh.roomy (fresh : Fresh memory memory' cells) (roomy : memory.Roomy) : memory'.Roomy := by
  refine (roomy.sdiff cells.finite_toSet).mono fun address there => ?_
  exact (fresh.cell address there.2).trans there.1

theorem Memory.put_fresh {address : Ptr} (free : memory.cell address = none) (cell : Cell) :
    Fresh memory (memory.put address cell) [address] where
  nodup := List.nodup_singleton _
  free one there := by rwa [List.mem_singleton.mp there]
  used one there := by
    rw [List.mem_singleton.mp there,put_cell memory]
    exact Option.some_ne_none _
  cell one away := Function.update_of_ne (fun same => away (List.mem_singleton.mpr same)) ..
  flink _ _ := rfl
  blink _ _ := rfl

end Rooms

theorem Parsed.map_id {α : Type} (first : Parsed α) : first.map id = first := by
  cases first <;> rfl

/-- A reader of trees and one that allocates agree. The latter has added to `base` what it gives back, of no more than three
structures for each byte, or else nothing, unless there was an error before. -/
def Agree {α β : Type} (base : Memory) (before : Stream) (slack : Nat) (held : Memory → β → α → List Ptr → Prop) :
    Parsed α → Built β → Prop
  | .fault,.fault => True
  | .null stream,.null stream' memory => stream' = stream ∧ stream.errno ≠ .ok ∧ ∃ leaked, Fresh base memory leaked ∧
      (before.errno = .ok → leaked = [])
  | .done value stream,.done built stream' memory => stream' = stream ∧ ∃ cells, Fresh base memory cells ∧
      held memory built value cells ∧ cells.length + slack + 3 * stream.memory.length ≤ 3 * before.memory.length
  | _,_ => False

section Agreement
variable {α β γ δ : Type} {arena : Arena} {base memory memory' : Memory} {before stream after : Stream} {slack : Nat}
  {held : Memory → β → α → List Ptr → Prop}

theorem Agree.error (base : Memory) (fresh : Fresh base memory []) (stream : Stream) :
    Agree base before slack held (.null stream.parseError) (buildError stream memory) :=
  ⟨rfl,parseError_errno stream,[],fresh,fun _ => rfl⟩

theorem Agree.read {first : Parsed γ} {next : γ → Stream → Parsed α} {onError : Stream → Built β} {next' : γ → Stream → Built β}
    (refused : ∀ stream, first = .null stream → Agree base before slack held (.null stream.parseError) (onError stream))
    (went : ∀ value stream, first = .done value stream → Agree base before slack held (next value stream) (next' value stream)) :
    Agree base before slack held (first.orFail next) (first.into onError next') := by
  cases first with
  | fault => trivial
  | null stream => exact refused stream rfl
  | done value stream => exact went value stream rfl

theorem malloc_both {Both : Parsed α → Built β → Prop} {site : Site} {size : Nat} {onError next : Stream → Parsed α}
    {onError' : Stream → Memory → Built β} {next' : Ptr → Memory → Built β} (roomy : memory.Roomy)
    (refused : Both (onError { stream with errno := .emem }) (onError' { stream with errno := .emem } memory))
    (granted : ∀ address bytes, memory.cell address = none → Both (next stream)
      (next' address (memory.put address (.block bytes)))) :
    Both (checkedMalloc arena.heap site size stream onError next) (buildMalloc arena site size stream memory onError' next') := by
  unfold checkedMalloc buildMalloc
  split
  · exact granted _ _ (arena.free memory size roomy)
  · exact refused

theorem Agree.orElse {Both : Parsed α → Built β → Prop} {part : Parsed γ} {part' : Built δ}
    {held' : Memory → δ → γ → List Ptr → Prop} {next : γ → Stream → Parsed α} {onError : Stream → Memory → Built β}
    {next' : δ → Stream → Memory → Built β} (agree : Agree memory stream slack held' part part') (faulted : Both .fault .fault)
    (refused : ∀ after memory' leaked, after.errno ≠ .ok → Fresh memory memory' leaked → (stream.errno = .ok → leaked = []) →
      part = .null after → Both (.null after.parseError) (onError after memory'))
    (went : ∀ value built after memory' cells, Fresh memory memory' cells → held' memory' built value cells →
      cells.length + slack + 3 * after.memory.length ≤ 3 * stream.memory.length → part = .done value after →
      Both (next value after) (next' built after memory')) :
    Both (part.orFail next) (part'.orElse onError next') := by
  cases part <;> cases part' <;> simp only [Agree] at agree
  · exact faulted
  · obtain ⟨rfl,failed,leaked,fresh,spotless⟩ := agree
    exact refused _ _ leaked failed fresh spotless rfl
  · obtain ⟨rfl,cells,fresh,there,few⟩ := agree
    exact went _ _ _ _ cells fresh there few rfl

theorem Agree.map {part : Parsed γ} {part' : Built δ} {held' : Memory → δ → γ → List Ptr → Prop} (wrap : γ → α) (wrap' : δ → β)
    (agree : Agree base before slack held' part part')
    (wraps : ∀ memory value built cells, held' memory built value cells → held memory (wrap' built) (wrap value) cells) :
    Agree base before slack held (part.map wrap)
      (part'.orElse buildError fun built stream memory => .done (wrap' built) stream memory) := by
  cases part <;> cases part' <;> simp only [Agree] at agree
  · trivial
  · obtain ⟨rfl,failed,leaked⟩ := agree
    exact ⟨if_neg failed,failed,leaked⟩
  · obtain ⟨rfl,cells,fresh,there,few⟩ := agree
    exact ⟨rfl,cells,fresh,wraps _ _ _ _ there,few⟩

end Agreement

section Leaves
variable {arena : Arena} {memory : Memory} {before stream after : Stream} {slack : Nat}

theorem emem_parseError (stream : Stream) : Stream.parseError { stream with errno := .emem } = { stream with errno := .emem } :=
  if_neg nofun

theorem readGeneric_parseError {n : Nat} (ran : readGeneric n stream = .null after) : after.parseError = after :=
  if_neg (readGeneric_null ran)

theorem Took.left {bytes : List UInt8} (took : Took before bytes after) :
    before.memory.length = bytes.length + after.memory.length := by
  rw [took.memory,List.length_append]

theorem freeError_eq {α : Type} {address : Ptr} {cell : Cell} (there : memory.cell address = some cell) (stream : Stream) :
    freeError (α := α) address stream memory = .null stream.parseError (memory.without [address]) := by
  rw [freeError,Memory.free_eq there]
  rfl

theorem agree_fill {α β : Type} {held : Memory → β → α → List Ptr → Prop} {ret : Ptr} {junk : List UInt8} {n : Nat}
    (free : memory.cell ret = none) (finish : List UInt8 → α) (finish' : β) (block : List UInt8 → List UInt8)
    (short : 1 + slack + 3 * stream.memory.length ≤ 3 * before.memory.length)
    (filled : ∀ bytes memory', bytes.length = n → memory'.cell ret = some (.block (block bytes)) →
      held memory' finish' (finish bytes) [ret]) :
    Agree memory before slack held ((readGeneric n stream).map finish)
      ((readGeneric n stream).into (freeError ret · (memory.put ret (.block junk))) fun bytes stream =>
        .done finish' stream ((memory.put ret (.block junk)).put ret (.block (block bytes)))) := by
  have fresh := Memory.put_fresh free (.block junk)
  cases read : readGeneric n stream with
  | fault => trivial
  | null after =>
    rw [Parsed.into,freeError_eq (Memory.put_cell ..),readGeneric_parseError read]
    exact ⟨rfl,readGeneric_null read,[],fresh.withoutAll,fun _ => rfl⟩
  | done bytes after =>
    obtain ⟨took,width⟩ := readGeneric_took read
    refine ⟨rfl,[ret],fresh.put (List.mem_singleton_self _),filled _ _ width (Memory.put_cell ..),?_⟩
    have left := took.left
    rw [List.length_singleton]
    omega

theorem readSwapped_left {n number : Nat} (ran : readSwapped n stream = .done number after) :
    stream.memory.length = n + after.memory.length := by
  obtain ⟨_,took,width,_⟩ := readSwapped_took ran
  rw [took.left,width]

theorem readSwapped_agree {α β : Type} {held : Memory → β → α → List Ptr → Prop} {n : Nat} {next : Nat → Stream → Parsed α}
    {next' : Nat → Stream → Built β}
    (went : ∀ number after, before.memory.length = n + after.memory.length →
      Agree memory before slack held (next number after) (next' number after)) :
    Agree memory before slack held ((readSwapped n before).orFail next)
      ((readSwapped n before).into (buildError · memory) next') :=
  .read (fun stream _ => .error memory (.refl memory) stream) fun number after ran => went number after (readSwapped_left ran)

theorem agree_refused {α β : Type} {held : Memory → β → α → List Ptr → Prop} (memory : Memory) (stream : Stream) :
    Agree memory before slack held (.null { stream with errno := .emem }) (buildError { stream with errno := .emem } memory) :=
  ⟨emem_parseError stream,nofun,[],.refl memory,fun _ => rfl⟩

def TextHeld (memory : Memory) (text : Ptr) (value : List UInt8) (cells : List Ptr) : Prop :=
  memory.cell text = some (.block (value ++ [0])) ∧ cells = [text]

theorem buildString_agree (arena : Arena) (roomy : memory.Roomy) (stream : Stream) :
    Agree memory stream 2 TextHeld (readString arena.heap stream) (buildString arena stream memory) := by
  refine readSwapped_agree fun size after short => ?_
  dsimp only
  split
  · exact .error memory (.refl memory) after
  split
  · exact .error memory (.refl memory) after
  refine malloc_both roomy (agree_refused memory after) fun ret junk free => ?_
  nth_rewrite 1 [← Parsed.map_id (readGeneric _ after)]
  refine agree_fill free id ret (· ++ [0]) ?_ fun bytes memory' _ there => ⟨there,rfl⟩
  omega

def BytesHeld (memory : Memory) (array : Ptr × Nat) (value : List UInt8) (cells : List Ptr) : Prop :=
  memory.cell array.1 = some (.block value) ∧ array.2 = value.length ∧ cells = [array.1]

theorem buildByteArray_agree (arena : Arena) (roomy : memory.Roomy) (stream : Stream) :
    Agree memory stream 2 BytesHeld (readByteArray arena.heap stream) (buildByteArray arena stream memory) := by
  refine readSwapped_agree fun size after short => ?_
  dsimp only
  split
  · exact .error memory (.refl memory) after
  refine malloc_both roomy (agree_refused memory after) fun data junk free => ?_
  nth_rewrite 1 [← Parsed.map_id (readGeneric _ after)]
  refine agree_fill free id (data,_) id ?_ fun bytes memory' width there => ⟨there,width.symm,rfl⟩
  omega

theorem length_swapInts (count : Nat) (bytes : List UInt8) : (swapInts count bytes).length = count := by
  induction count generalizing bytes with
  | zero => rfl
  | succ count ih => rw [swapInts,List.length_cons,ih]

theorem swapBlock_eq {count : Nat} {bytes : List UInt8} (sized : bytes.length = count * 4) :
    swapBlock count bytes = intBytes (swapInts count bytes) := by
  induction count generalizing bytes with
  | zero => exact List.eq_nil_of_length_eq_zero (sized.trans (Nat.zero_mul 4))
  | succ count ih =>
    have four : (bytes.take 4).length = 4 := by
      rw [List.length_take]
      omega
    have small := value_lt (bytes.take 4)
    have back := bigEndian_value (bytes.take 4)
    rw [four] at small back
    rw [swapBlock,swapInts,intBytes,List.flatMap_cons,← intBytes,UInt32.toNat_ofNat_of_lt' (by omega),back,
      ih (by rw [List.length_drop]; omega)]

def IntsHeld (memory : Memory) (array : Ptr × Nat) (value : List UInt32) (cells : List Ptr) : Prop :=
  memory.cell array.1 = some (.block (intBytes value)) ∧ array.2 = value.length ∧ cells = [array.1]

theorem buildIntArray_agree (arena : Arena) (roomy : memory.Roomy) (stream : Stream) :
    Agree memory stream 2 IntsHeld (readIntArray arena.heap stream) (buildIntArray arena stream memory) := by
  refine readSwapped_agree fun size after short => ?_
  dsimp only
  split
  · exact .error memory (.refl memory) after
  refine malloc_both roomy (agree_refused memory after) fun data junk free => ?_
  refine agree_fill free _ (data,_) (swapBlock _) ?_ fun bytes memory' width there => ⟨?_,?_,rfl⟩
  · omega
  · rw [there,swapBlock_eq width]
  · exact (length_swapInts ..).symm

theorem readGeneric_errno {n : Nat} {bytes : List UInt8} (ran : readGeneric n stream = .done bytes after) :
    after.errno = stream.errno := by
  unfold readGeneric at ran
  split at ran
  · cases ran
  · split at ran <;> cases ran
    rfl

theorem readSwapped_errno {n number : Nat} (ran : readSwapped n stream = .done number after) : after.errno = stream.errno := by
  obtain ⟨_,ran,_⟩ := Parsed.map_eq_done ran
  exact readGeneric_errno ran

theorem readString_errno {heap : Heap} {text : List UInt8} (ran : readString heap stream = .done text after) :
    after.errno = stream.errno := by
  obtain ⟨size,middle,first,ran⟩ := Parsed.orFail_eq_done ran
  dsimp only at ran
  split at ran
  · cases ran
  split at ran
  · cases ran
  exact (readGeneric_errno (checkedMalloc_eq_done ran)).trans (readSwapped_errno first)

theorem readGeneric_refused {n : Nat} (ran : readGeneric n stream = .null after) : after.memory = stream.memory := by
  unfold readGeneric at ran
  split at ran
  · cases ran
    unfold Stream.parseError
    split <;> rfl
  · split at ran <;> cases ran

/-- A string that cannot be read has not put anything back. -/
theorem readString_refused {heap : Heap} (ran : readString heap stream = .null after) :
    after.memory.length ≤ stream.memory.length := by
  have kept (one : Stream) : one.parseError.memory = one.memory := by
    unfold Stream.parseError
    split <;> rfl
  unfold readString at ran
  cases header : readSwapped 2 stream with
  | fault => rw [header] at ran; cases ran
  | null failed =>
    rw [header] at ran
    cases ran
    cases first : readGeneric 2 stream <;> simp only [readSwapped,first,Parsed.map] at header <;> cases header
    rw [kept,readGeneric_refused first]
  | done size middle =>
    rw [header] at ran
    have left := readSwapped_left header
    have shorter : middle.memory.length ≤ stream.memory.length := by omega
    simp only [Parsed.orFail] at ran
    split at ran
    · cases ran
      rwa [kept]
    split at ran
    · cases ran
      rwa [kept]
    unfold checkedMalloc at ran
    split at ran
    · rwa [readGeneric_refused ran]
    · cases ran
      exact shorter

theorem readByteArray_errno {heap : Heap} {data : List UInt8} (ran : readByteArray heap stream = .done data after) :
    after.errno = stream.errno := by
  obtain ⟨size,middle,first,ran⟩ := Parsed.orFail_eq_done ran
  dsimp only at ran
  split at ran
  · cases ran
  exact (readGeneric_errno (checkedMalloc_eq_done ran)).trans (readSwapped_errno first)

theorem readIntArray_errno {heap : Heap} {data : List UInt32} (ran : readIntArray heap stream = .done data after) :
    after.errno = stream.errno := by
  obtain ⟨size,middle,first,ran⟩ := Parsed.orFail_eq_done ran
  dsimp only at ran
  split at ran
  · cases ran
  obtain ⟨_,ran,_⟩ := Parsed.map_eq_done (checkedMalloc_eq_done ran)
  exact (readGeneric_errno ran).trans (readSwapped_errno first)

theorem readListLoop_clean {heap : Heap} {parse : TagParser} (sound : ParsesTags parse) {type : UInt8} {elems : Nat}
    {entries : List NbtNode} (ran : readListLoop heap parse type elems stream = .done entries after)
    (clean : stream.errno = .ok) : after.errno = .ok := by
  induction elems generalizing stream entries with
  | zero => cases ran; exact clean
  | succ elems ih =>
    obtain ⟨_,_,parsed,ran⟩ := Parsed.orFail_eq_done (checkedMalloc_eq_done ran)
    obtain ⟨_,ran,_⟩ := Parsed.map_eq_done ran
    exact ih ran (sound _ _ _ _ _ parsed).1

theorem readList_clean {heap : Heap} {parse : TagParser} (sound : ParsesTags parse) {payload : NbtPayload}
    (ran : readList heap parse stream = .done payload after) (clean : stream.errno = .ok) : after.errno = .ok := by
  have ran := checkedMalloc_eq_done ran
  dsimp only at ran
  unfold checkedMalloc at ran
  split at ran
  · obtain ⟨_,_,typed,ran⟩ := Parsed.orFail_eq_done ran
    obtain ⟨_,_,counted,ran⟩ := Parsed.orFail_eq_done ran
    obtain ⟨_,ran,_⟩ := Parsed.map_eq_done ran
    exact readListLoop_clean sound ran ((readSwapped_errno counted).trans ((readSwapped_errno typed).trans clean))
  · cases ran

theorem readCompoundLoop_clean {heap : Heap} {parse : TagParser} (sound : ParsesTags parse) {rounds : Nat}
    {entries : List NbtNode} (ran : readCompoundLoop heap parse rounds stream = .done entries after)
    (clean : stream.errno = .ok) : after.errno = .ok := by
  induction rounds generalizing stream entries with
  | zero => cases ran
  | succ rounds ih =>
    obtain ⟨_,_,typed,ran⟩ := Parsed.orFail_eq_done ran
    dsimp only at ran
    split at ran
    · cases ran
      exact (readSwapped_errno typed).trans clean
    obtain ⟨_,_,_,ran⟩ := Parsed.orFail_eq_done ran
    obtain ⟨_,_,parsed,ran⟩ := Parsed.orFail_eq_done (checkedMalloc_eq_done ran)
    obtain ⟨_,ran,_⟩ := Parsed.map_eq_done ran
    exact ih ran (sound _ _ _ _ _ parsed).1

theorem readCompound_clean {heap : Heap} {parse : TagParser} (sound : ParsesTags parse) {payload : NbtPayload}
    (ran : readCompound heap parse stream = .done payload after) (clean : stream.errno = .ok) : after.errno = .ok := by
  obtain ⟨_,ran,_⟩ := Parsed.map_eq_done (checkedMalloc_eq_done ran)
  exact readCompoundLoop_clean sound ran clean

theorem parsePayload_clean {heap : Heap} {parse : TagParser} (sound : ParsesTags parse) {type : UInt8} {payload : NbtPayload}
    (ran : parsePayload heap parse type stream = .done payload after) (clean : stream.errno = .ok) : after.errno = .ok := by
  have number {n : Nat} {wrap : Nat → NbtPayload} (ran : (readSwapped n stream).map wrap = .done payload after) :
      after.errno = .ok := by
    obtain ⟨_,ran,_⟩ := Parsed.map_eq_done ran
    exact (readSwapped_errno ran).trans clean
  unfold parsePayload at ran
  split at ran
  · exact number ran
  · exact number ran
  · exact number ran
  · exact number ran
  · exact number ran
  · exact number ran
  · obtain ⟨_,ran,_⟩ := Parsed.map_eq_done ran
    exact (readByteArray_errno ran).trans clean
  · obtain ⟨_,ran,_⟩ := Parsed.map_eq_done ran
    exact (readIntArray_errno ran).trans clean
  · obtain ⟨_,ran,_⟩ := Parsed.map_eq_done ran
    exact (readString_errno ran).trans clean
  · exact readList_clean sound ran clean
  · exact readCompound_clean sound ran clean
  · cases ran

end Leaves

section Growth
variable {arena : Arena} {base memory memory' : Memory} {before stream after : Stream} {ret : Ptr} {type : Option UInt8}
  {nodes : List NbtNode} {cells : List Ptr} {limit extra steps : Nat}

theorem ListAt.live (at' : ListAt memory true ret type nodes cells) : Live memory cells := by
  obtain ⟨items,front,owned,head,entries,rfl⟩ := at'
  exact head.live.append (EntriesAt.live nodes entries)

theorem ListAt.frame (at' : ListAt memory true ret type nodes cells) (same : Same memory memory' cells) :
    ListAt memory' true ret type nodes cells := by
  obtain ⟨items,front,owned,head,entries,rfl⟩ := at'
  refine ⟨items,front,owned,head.frame same entries.items_mem,EntriesAt.frame nodes entries (same.mono fun one here => ?_),rfl⟩
  exact List.mem_cons_of_mem _ (List.mem_append_right _ here)

theorem ListAt.addEntry {new data : Ptr} {tree : NbtNode} {inner : List Ptr} (at' : ListAt memory true ret type nodes cells)
    (fresh : Fresh base memory cells) (later : Fresh memory memory' (new :: inner)) (node : NodeAt memory' true data tree inner) :
    ∃ cells', Fresh base (memory'.addEntry new data ret) cells' ∧
      ListAt (memory'.addEntry new data ret) true ret type (nodes ++ [tree]) cells' ∧
      cells'.length = cells.length + inner.length + 1 := by
  obtain ⟨items,front,owned,head,entries,rfl⟩ := at'
  have apart := (List.nodup_cons.mp later.nodup).1
  obtain ⟨whole,head,entries⟩ := entries_addTail fresh head entries (later.put (List.mem_cons_self ..))
    (Memory.put_cell memory' new (.entry (some data))) (NodeAt.frame tree node (.put apart))
  refine ⟨_,whole,⟨_,front,_,head,entries,rfl⟩,?_⟩
  simp only [List.length_cons,List.length_append]
  omega

/-- Both loops have come to their ends, or to an error with a list that can still be freed. -/
def Grown (base : Memory) (ret : Ptr) (type : Option UInt8) (limit extra : Nat) (nodes : List NbtNode)
    (before : Stream) : Parsed (List NbtNode) → Built Unit → Prop
  | .fault,.fault => True
  | .null stream,.null stream' memory => stream' = stream ∧ stream.errno ≠ .ok ∧ ∃ nodes' cells leaked,
      Fresh base memory (cells ++ leaked) ∧ ListAt memory true ret type nodes' cells ∧ cells.length ≤ limit ∧
      (before.errno = .ok → leaked = [])
  | .done more stream,.done _ stream' memory => stream' = stream ∧ ∃ cells, Fresh base memory cells ∧
      ListAt memory true ret type (nodes ++ more) cells ∧ cells.length + 3 * stream.memory.length + extra ≤ limit
  | _,_ => False

theorem Grown.cons {node : NbtNode} {part : Parsed (List NbtNode)} {part' : Built Unit}
    (grown : Grown base ret type limit extra (nodes ++ [node]) after part part') (clean : after.errno = .ok) :
    Grown base ret type limit extra nodes before (part.map (node :: ·)) part' := by
  cases part <;> cases part' <;> simp only [Grown] at grown
  · trivial
  · obtain ⟨rfl,failed,nodes',cells,leaked,fresh,there,few,spotless⟩ := grown
    exact ⟨rfl,failed,nodes',cells,leaked,fresh,there,few,fun _ => spotless clean⟩
  · obtain ⟨rfl,cells,fresh,there,few⟩ := grown
    rw [List.append_assoc] at there
    exact ⟨rfl,cells,fresh,there,few⟩

theorem Grown.error {leaked : List Ptr} (at' : ListAt memory true ret type nodes cells) (fresh : Fresh base memory cells)
    (later : Fresh memory memory' leaked) (few : cells.length ≤ limit) (failed : after.errno ≠ .ok)
    (spotless : before.errno = .ok → leaked = []) : Grown base ret type limit extra nodes before (.null after) (.null after memory') :=
  ⟨rfl,failed,nodes,cells,leaked,fresh.trans later,at'.frame (later.same at'.live),few,spotless⟩

theorem Grown.finish {held : Memory → Ptr → NbtPayload → List Ptr → Prop} {part : Parsed (List NbtNode)} {part' : Built Unit}
    (grown : Grown base ret type limit extra [] stream part part') (wrap : List NbtNode → NbtPayload) (enough : limit < steps)
    (few : limit + 2 ≤ 3 * before.memory.length + extra) (errno : stream.errno = before.errno)
    (wraps : ∀ memory nodes cells, ListAt memory true ret type nodes cells → held memory ret (wrap nodes) cells) :
    Agree base before 2 held (part.map wrap)
      (part'.orElse (freeListError steps ret) fun _ stream memory => .done ret stream memory) := by
  cases part <;> cases part' <;> simp only [Grown] at grown
  · trivial
  · obtain ⟨rfl,failed,nodes',cells,leaked,fresh,there,short,spotless⟩ := grown
    have freed := nbtFreeList_list there (List.nodup_append.mp fresh.nodup).1 (show _ < steps by omega)
    simp only [Built.orElse,freeListError,freed,Built.freed]
    exact ⟨if_neg failed,failed,leaked,(fresh.perm List.perm_append_comm).without,fun clean => spotless (errno.trans clean)⟩
  · obtain ⟨rfl,cells,fresh,there,short⟩ := grown
    exact ⟨rfl,cells,fresh,wraps _ _ _ there,by omega⟩

/-- A node without its name, which it shares with the caller. -/
def TagHeld (nameAddress : Option Ptr) (name : Option (List UInt8)) (memory : Memory) (node : Ptr) (tree : NbtNode)
    (cells : List Ptr) : Prop :=
  ∃ member payload owned, tree = .mk name payload ∧ memory.cell node = some (.node nameAddress member) ∧
    PayloadAt memory true member payload owned ∧ cells = node :: owned

theorem TagHeld.node {nameAddress : Option Ptr} {name : Option (List UInt8)} {node : Ptr} {tree : NbtNode} {named : List Ptr}
    (held : TagHeld nameAddress name memory node tree cells) (at' : NameAt memory nameAddress name named) :
    ∃ owned, NodeAt memory true node tree (node :: (named ++ owned)) ∧ cells = node :: owned := by
  obtain ⟨member,payload,owned,rfl,there,inside,rfl⟩ := held
  exact ⟨owned,⟨nameAddress,member,named,owned,there,at',inside,rfl⟩,rfl⟩

/-- A parser of tags, and one that allocates them. -/
def BuildsTags (steps : Nat) (parse : TagParser) (build : TagBuilder) : Prop :=
  ∀ type nameAddress name (stream : Stream) (memory : Memory), memory.Roomy → 3 * stream.memory.length + 2 < steps →
    Agree memory stream 1 (TagHeld nameAddress name) (parse type name stream) (build type nameAddress stream memory)

section Loops
variable (arena) {parse : TagParser} {build : TagBuilder} (builds : BuildsTags steps parse build)
  (sound : ParsesTags parse) (roomy : base.Roomy)
include builds sound roomy

theorem buildListLoop_grown (kind : UInt8) (elems : Nat) (at' : ListAt memory true ret type nodes cells)
    (fresh : Fresh base memory cells) (few : cells.length + 3 * stream.memory.length ≤ limit)
    (enough : 3 * stream.memory.length + 2 < steps) :
    Grown base ret type limit 0 nodes stream (readListLoop arena.heap parse kind elems stream)
      (buildListLoop arena build kind ret elems stream memory) := by
  induction elems generalizing stream memory nodes cells with
  | zero =>
    refine ⟨rfl,cells,fresh,?_,few⟩
    rwa [List.append_nil]
  | succ elems ih =>
    refine malloc_both (fresh.roomy roomy) ?_ fun new junk free => ?_
    · exact .error at' fresh (.refl memory) (by omega) nofun fun _ => rfl
    have made := Memory.put_fresh free (.block junk)
    refine (builds kind none none stream _ (made.roomy (fresh.roomy roomy)) enough).orElse trivial ?_ ?_
    · intro after memory' leaked failed later none _
      have whole := made.trans later
      have there : memory'.cell new = some (.block junk) := by
        rw [later.cell new (List.nodup_cons.mp whole.nodup).1,Memory.put_cell]
      rw [freeError_eq there]
      exact .error at' fresh (whole.perm List.perm_append_comm).without (by omega) (parseError_errno after) none
    · intro tree data after memory' inner later held short ran
      obtain ⟨owned,node,rfl⟩ := held.node (show NameAt _ none none [] from rfl)
      have whole : Fresh memory memory' (new :: data :: owned) := made.trans later
      obtain ⟨cells',fresh',there,size⟩ := at'.addEntry fresh whole node
      exact (ih there fresh' (by omega) (by omega)).cons (sound _ _ _ _ _ ran).1

theorem buildCompoundLoop_grown (rounds : Nat) (at' : ListAt memory true ret type nodes cells)
    (fresh : Fresh base memory cells) (few : cells.length + 3 * stream.memory.length ≤ limit)
    (enough : 3 * stream.memory.length + 2 < steps) :
    Grown base ret type limit 3 nodes stream (readCompoundLoop arena.heap parse rounds stream)
      (buildCompoundLoop arena build ret rounds stream memory) := by
  induction rounds generalizing stream memory nodes cells with
  | zero => trivial
  | succ rounds ih =>
    rw [readCompoundLoop,buildCompoundLoop]
    cases typed : readSwapped 1 stream with
    | fault => trivial
    | null after => exact .error at' fresh (.refl memory) (by omega) (parseError_errno after) fun _ => rfl
    | done kind begun =>
      have first := readSwapped_left typed
      have clean := readSwapped_errno typed
      dsimp only [Parsed.orFail,Parsed.into]
      split
      · refine ⟨rfl,cells,fresh,?_,by omega⟩
        rwa [List.append_nil]
      refine (buildString_agree arena (fresh.roomy roomy) begun).orElse trivial ?_ ?_
      · intro after memory' leaked failed later none _
        exact .error at' fresh later (by omega) (parseError_errno after) fun early => none (clean.trans early)
      · intro text name named memory₁ cells₁ second held short ran
        obtain ⟨there,rfl⟩ := held
        have clean := (readString_errno ran).trans clean
        have roomy₁ := second.roomy (fresh.roomy roomy)
        refine malloc_both roomy₁ ?_ fun new junk free => ?_
        · rw [freeError_eq there,emem_parseError]
          exact .error at' fresh second.withoutAll (by omega) nofun fun _ => rfl
        have made := Memory.put_fresh free (.block junk)
        have pair := second.trans made
        refine (builds _ (some name) (some text) named _ (made.roomy roomy₁) (by omega)).orElse trivial ?_ ?_
        · intro after memory' leaked failed later none _
          have whole := pair.trans later
          have apart := (List.nodup_append.mp whole.nodup).2.2
          have notin : ∀ one ∈ [name] ++ [new], one ∉ leaked := fun one here lost => apart one here one lost rfl
          have differ : name ≠ new := fun same => (List.nodup_append.mp pair.nodup).2.2 name (List.mem_singleton_self _) new
            (List.mem_singleton_self _) same
          have there' : memory'.cell new = some (.block junk) := by
            rw [later.cell new (notin new (by simp)),Memory.put_cell]
          have still : (memory'.without [new]).cell name = some (.block (text ++ [0])) := by
            rw [Memory.without_cell (by simpa using differ),later.cell name (notin name (by simp)),
              Memory.put_other _ _ differ,there]
          rw [Memory.free_eq there',Built.freed,freeError_eq still,Memory.without_without]
          refine .error at' fresh (whole.perm ?_).without (by omega) (parseError_errno after) fun early => none (clean.trans early)
          exact (List.perm_append_comm.append_right leaked).trans List.perm_append_comm
        · intro tree data after memory' inner later held short' ran'
          have name' : NameAt memory' (some name) (some text) [name] :=
            ⟨((made.trans later).cell name (made.trans later |>.notin (there ▸ Option.some_ne_none _))).trans there,rfl⟩
          obtain ⟨owned,node,rfl⟩ := held.node name'
          have whole : Fresh memory memory' (new :: data :: ([name] ++ owned)) := by
            refine (pair.trans later).perm ?_
            simpa using (List.Perm.swap ..).trans ((List.Perm.swap ..).cons _)
          obtain ⟨cells',fresh',there',size⟩ := at'.addEntry fresh whole node
          simp only [List.length_cons,List.length_append,List.length_nil] at short short' size
          exact (ih there' fresh' (by omega) (by omega)).cons (sound _ _ _ _ _ ran').1

end Loops

theorem Fresh.beginList (fresh : Fresh base memory cells) (there : ret ∈ cells) (data : Option Ptr) :
    Fresh base (memory.beginList ret data) cells := by
  refine (fresh.put there).relink (fun other away => ?_) fun other away => ?_
  all_goals
    have apart : other ≠ ret := fun same => away (same ▸ there)
    simp [initListHead,apart,Memory.put]

theorem Memory.beginList_at (memory : Memory) (ret : Ptr) : ListAt (memory.beginList ret none) true ret none [] [ret] :=
  ⟨[],[],[],⟨none,Memory.put_cell ..,⟨rfl,rfl⟩,initListHead_circle ..⟩,⟨rfl,rfl⟩,rfl⟩

theorem Memory.beginList_typed (memory : Memory) {data : Ptr} (apart : ret ≠ data) (type : UInt8) :
    ListAt ((memory.beginList ret (some data)).put data (.sentinel type)) true ret (some type) [] [ret,data] := by
  refine ⟨[],[data],[],⟨some data,?_,⟨data,rfl,Memory.put_cell ..,rfl⟩,initListHead_circle ..⟩,⟨rfl,rfl⟩,rfl⟩
  rw [Memory.put_other _ _ apart]
  exact Memory.put_cell ..

/-- The list is freed before its type is known. -/
theorem freeListError_begun {α : Type} {data : Ptr} {cell : Cell} (fresh : Fresh base memory [ret,data])
    (there : memory.cell data = some cell) (enough : 2 < steps) (stream : Stream) :
    ∃ memory', freeListError (α := α) steps ret stream (memory.beginList ret (some data)) = .null stream.parseError memory' ∧
      Fresh base memory' [] := by
  obtain ⟨fuel,rfl⟩ := Nat.exists_eq_add_of_lt enough
  have apart : data ≠ ret := fun same => (List.nodup_cons.mp fresh.nodup).1 (same ▸ List.mem_singleton_self _)
  have begun : (memory.beginList ret (some data)).cell ret = some (.entry (some data)) := Memory.put_cell ..
  have begun' : (memory.beginList ret (some data)).cell data = some cell := (Memory.put_other _ _ apart).trans there
  have still : ((memory.beginList ret (some data)).without [data]).cell ret = some (.entry (some data)) := by
    rw [Memory.without_cell (by simpa using apart.symm),begun]
  have alone : (memory.beginList ret (some data)).links.flink ret = ret := by simp [Memory.beginList,initListHead]
  have freed : nbtFreeList (2 + fuel + 1) (memory.beginList ret (some data)) (some ret) =
      some ((memory.beginList ret (some data)).without ([data] ++ [ret])) := by
    rw [show 2 + fuel + 1 = fuel + 1 + 1 + 1 by omega]
    simp only [nbtFreeList,Memory.entryData_eq begun,alone,freeEntries,if_true,Memory.freeName,Memory.free_eq begun',
      Memory.free_eq still,Option.bind_eq_bind,Option.bind_some,Memory.without_without]
  rw [freeListError,freed]
  exact ⟨_,rfl,((fresh.beginList (List.mem_cons_self ..) _).perm (List.Perm.swap ..)).withoutAll⟩

section Payloads
variable (arena) {parse : TagParser} {build : TagBuilder} (builds : BuildsTags steps parse build) (sound : ParsesTags parse)
  (roomy : memory.Roomy)

def PayloadHeld (memory : Memory) (member : Payload) (payload : NbtPayload) (cells : List Ptr) : Prop :=
  PayloadAt memory true member payload cells

theorem scalar_at (memory : Memory) (value : Scalar) : PayloadAt memory true (.scalar value) value.payload [] := by
  cases value <;> exact ⟨_,rfl,rfl,rfl⟩

theorem buildScalar_agree {width : Nat} (scalar : Nat → Scalar) (wide : 0 < width) :
    Agree memory stream 2 PayloadHeld ((readSwapped width stream).map fun number => (scalar number).payload)
      (buildScalar width scalar stream memory) := by
  rw [buildScalar]
  cases read : readSwapped width stream with
  | fault => trivial
  | null after =>
    obtain ⟨failed,same⟩ : after.errno ≠ .ok ∧ after.parseError = after := by
      cases first : readGeneric width stream <;> simp only [readSwapped,first,Parsed.map] at read <;> cases read
      exact ⟨readGeneric_null first,readGeneric_parseError first⟩
    exact ⟨same,failed,[],.refl memory,fun _ => rfl⟩
  | done number after =>
    have left := readSwapped_left read
    refine ⟨rfl,[],.refl memory,scalar_at memory (scalar number),?_⟩
    rw [List.length_nil]
    omega

include builds sound roomy

theorem buildList_agree (enough : 3 * stream.memory.length + 2 < steps) :
    Agree memory stream 2 (fun memory list => PayloadHeld memory (.list list)) (readList arena.heap parse stream)
      (buildList arena steps build stream memory) := by
  refine malloc_both roomy (agree_refused memory stream) fun ret junk free => ?_
  have made := Memory.put_fresh free (.block junk)
  refine malloc_both (made.roomy roomy) trivial fun data junk' free' => ?_
  have whole : Fresh memory _ [ret,data] := made.trans (Memory.put_fresh free' (.block junk'))
  have there := Memory.put_cell (memory.put ret (.block junk)) data (.block junk')
  have begun := whole.beginList (List.mem_cons_self ..) (some data)
  have two : 2 < steps := by omega
  refine .read (fun after _ => ?_) fun kind typed first => ?_
  · obtain ⟨memory',freed,spotless⟩ := freeListError_begun whole there two after
    rw [freed]
    exact .error memory spotless after
  refine .read (fun after _ => ?_) fun elems counted second => ?_
  · obtain ⟨memory',freed,spotless⟩ := freeListError_begun whole there two after
    rw [freed]
    exact .error memory spotless after
  have left := (readSwapped_left first).trans (congrArg (1 + ·) (readSwapped_left second))
  have errno := (readSwapped_errno second).trans (readSwapped_errno first)
  dsimp only
  generalize (if UInt8.ofNat kind = tagInvalid then tagCompound else UInt8.ofNat kind) = type
  have apart : ret ≠ data := fun same => (List.nodup_cons.mp whole.nodup).1 (same ▸ List.mem_singleton_self _)
  have grown := fun count => buildListLoop_grown arena builds sound roomy (UInt8.ofNat kind) count (Memory.beginList_typed _ apart type)
    (begun.put (by simp)) (Nat.le_refl _) (show 3 * counted.memory.length + 2 < steps by omega)
  refine (grown _).finish _ ?_ ?_ errno ?_
  · simp only [List.length_cons,List.length_nil]
    omega
  · simp only [List.length_cons,List.length_nil]
    omega
  · rintro memory' nodes cells ⟨items,front,owned,head,entries,rfl⟩
    exact ⟨ret,items,front,owned,rfl,head,entries,rfl⟩

theorem buildCompound_agree (enough : 3 * stream.memory.length + 2 < steps) :
    Agree memory stream 2 (fun memory list => PayloadHeld memory (.compound list)) (readCompound arena.heap parse stream)
      (buildCompound arena steps build stream memory) := by
  refine malloc_both roomy (agree_refused memory stream) fun ret junk free => ?_
  have begun := (Memory.put_fresh free (.block junk)).beginList (List.mem_cons_self ..) none
  have grown := fun rounds => buildCompoundLoop_grown arena builds sound roomy rounds (Memory.beginList_at _ ret) begun
    (Nat.le_refl _) enough
  refine (grown _).finish _ ?_ ?_ rfl ?_
  · simp only [List.length_cons,List.length_nil]
    omega
  · simp only [List.length_cons,List.length_nil]
    omega
  · rintro memory' nodes cells ⟨items,front,owned,head,entries,rfl⟩
    exact ⟨ret,items,front,owned,rfl,head,entries,rfl⟩

theorem buildPayload_agree (type : UInt8) (enough : 3 * stream.memory.length + 2 < steps) :
    Agree memory stream 2 PayloadHeld (parsePayload arena.heap parse type stream)
      (buildPayload arena steps build type stream memory) := by
  unfold buildPayload
  split
  · exact buildScalar_agree (fun number => .byte (UInt8.ofNat number)) (by decide)
  · exact buildScalar_agree (fun number => .short (UInt16.ofNat number)) (by decide)
  · exact buildScalar_agree (fun number => .int (UInt32.ofNat number)) (by decide)
  · exact buildScalar_agree (fun number => .long (UInt64.ofNat number)) (by decide)
  · exact buildScalar_agree (fun number => .float (UInt32.ofNat number)) (by decide)
  · exact buildScalar_agree (fun number => .double (UInt64.ofNat number)) (by decide)
  · refine (buildByteArray_agree arena roomy stream).map NbtPayload.tagByteArray _ ?_
    rintro memory' value ⟨data,length⟩ cells ⟨there,rfl,rfl⟩
    exact ⟨data,rfl,there,rfl⟩
  · refine (buildIntArray_agree arena roomy stream).map NbtPayload.tagIntArray _ ?_
    rintro memory' value ⟨data,length⟩ cells ⟨there,rfl,rfl⟩
    exact ⟨data,rfl,there,rfl⟩
  · refine (buildString_agree arena roomy stream).map NbtPayload.tagString _ ?_
    rintro memory' value text cells ⟨there,rfl⟩
    exact ⟨text,rfl,there,rfl⟩
  · have agree : Agree memory stream 2 PayloadHeld ((readList arena.heap parse stream).map id) _ :=
      (buildList_agree arena builds sound roomy enough).map id .list fun _ _ _ _ held => held
    rwa [Parsed.map_id] at agree
  · have agree : Agree memory stream 2 PayloadHeld ((readCompound arena.heap parse stream).map id) _ :=
      (buildCompound_agree arena builds sound roomy enough).map id .compound fun _ _ _ _ held => held
    rwa [Parsed.map_id] at agree
  · have unknown : parsePayload arena.heap parse type stream = .null stream.parseError := by
      unfold parsePayload
      split <;> first | rfl | contradiction
    rw [unknown]
    exact .error memory (.refl memory) stream

end Payloads

theorem buildUnnamedTag_builds (arena : Arena) (steps fuel : Nat) :
    BuildsTags steps (parseUnnamedTag arena.heap fuel) (buildUnnamedTag arena steps fuel) := by
  induction fuel with
  | zero => exact fun _ _ _ _ _ _ _ => trivial
  | succ fuel ih =>
    intro type nameAddress name stream memory roomy enough
    refine malloc_both roomy (agree_refused memory stream) fun node junk free => ?_
    have made := Memory.put_fresh free (.block junk)
    have sound := parseUnnamedTag_parses arena.heap fuel
    refine (buildPayload_agree arena ih sound (made.roomy roomy) type enough).orElse trivial ?_ ?_
    · intro after memory' leaked failed later none _
      have whole := made.trans later
      have there : memory'.cell node = some (.block junk) := by
        rw [later.cell node (List.nodup_cons.mp whole.nodup).1,Memory.put_cell]
      rw [freeError_eq there]
      exact ⟨rfl,parseError_errno after,leaked,(whole.perm List.perm_append_comm).without,none⟩
    · intro payload member after memory' owned later held short ran
      have whole : Fresh memory memory' (node :: owned) := made.trans later
      split
      · next failed =>
        have there : memory'.cell node = some (.block junk) := by
          rw [later.cell node (List.nodup_cons.mp whole.nodup).1,Memory.put_cell]
        rw [freeError_eq there]
        refine ⟨if_neg failed,failed,owned,(whole.perm (List.perm_append_singleton node owned).symm).without,fun clean => ?_⟩
        exact absurd (parsePayload_clean sound ran clean) failed
      · refine ⟨rfl,node :: owned,whole.put (List.mem_cons_self ..),?_,?_⟩
        · refine ⟨member,payload,owned,rfl,Memory.put_cell ..,?_,rfl⟩
          exact PayloadAt.frame payload held (.put (List.nodup_cons.mp whole.nodup).1)
        · rw [List.length_cons]
          omega

end Growth

/-- What the parser has made of `memory`: the tree that was parsed, which `nbt_free` takes away again, or nothing. What it
loses it loses with the name of the first tag. -/
def Allocates (arena : Arena) (source : List UInt8) (length : Nat) (memory : Memory) : Parsed NbtNode → Built Ptr → Prop
  | .fault,.fault => True
  | .null stream,.null stream' memory' => stream' = stream ∧ ∃ leaked, Fresh memory memory' leaked ∧
      ((∀ failed, rootName arena.heap source length ≠ .null failed) → leaked = [])
  | .done tree stream,.done root stream' memory' => stream' = stream ∧ ∃ cells, Fresh memory memory' cells ∧
      NodeAt memory' true root tree cells ∧ ∀ steps, 3 * source.length < steps →
        ∃ memory'', nbtFree steps memory' (some root) = some memory'' ∧ ∀ address, memory''.cell address = memory.cell address
  | _,_ => False

section Roots
variable {arena : Arena} {memory memory' : Memory}

theorem Allocates.done {source : List UInt8} {length : Nat} {tree : NbtNode} {root : Ptr} {stream : Stream} {cells : List Ptr}
    (fresh : Fresh memory memory' cells) (at' : NodeAt memory' true root tree cells) (few : cells.length ≤ 3 * source.length) :
    Allocates arena source length memory (.done tree stream) (.done root stream memory') := by
  refine ⟨rfl,cells,fresh,at',fun steps enough => ?_⟩
  refine ⟨_,nbtFree_node tree at' fresh.nodup (Nat.lt_of_le_of_lt few enough),fun address => ?_⟩
  exact fresh.withoutAll.cell address List.not_mem_nil

/-- The parser that allocates is the parser of trees, whatever is granted to it. -/
theorem nbtBuild2_allocates (roomy : memory.Roomy) (source : List UInt8) (length : Nat) :
    Allocates arena source length memory (nbtParse2 arena.heap source length) (nbtBuild2 arena source length memory) := by
  rw [nbtParse2,nbtBuild2,parseNamedTag,buildNamedTag]
  cases typed : readSwapped 1 ⟨source,length,.ok⟩ with
  | fault => trivial
  | null after => exact ⟨rfl,[],.refl memory,fun _ => rfl⟩
  | done kind begun =>
    have first := readSwapped_left typed
    have clean : begun.errno = .ok := readSwapped_errno typed
    dsimp only [Parsed.orFail,Parsed.into] at first ⊢
    have builds := buildUnnamedTag_builds arena (3 * source.length + 3) (begun.memory.length + 1)
    have agree := buildString_agree arena roomy begun
    cases read : readString arena.heap begun with
    | fault =>
      cases build : buildString arena begun memory <;> simp only [read,build,Agree] at agree
      trivial
    | null failed =>
      have unread : rootName arena.heap source length = .null failed := by
        rw [rootName,typed,Parsed.orFail,read]
      cases build : buildString arena begun memory with
      | fault => simp only [read,build,Agree] at agree
      | done => simp only [read,build,Agree] at agree
      | null =>
        simp only [read,build,Agree] at agree
        obtain ⟨same,missing,leaked,fresh,empty⟩ := agree
        subst same
        rw [empty clean] at fresh
        have shorter := readString_refused read
        refine (builds _ none none _ _ (fresh.roomy roomy) (by omega)).orElse trivial ?_ ?_
        · intro after memory' lost _ later _ _
          exact ⟨rfl,lost,fresh.trans later,fun readable => absurd unread (readable _)⟩
        · intro tree root after memory' cells later held short ran
          -- the error of the name is still there at the end
          obtain ⟨clean',_,took,_⟩ := parseUnnamedTag_parses arena.heap _ _ _ _ _ _ ran
          exact absurd (took.errno clean') missing
    | done text named =>
      cases build : buildString arena begun memory with
      | fault => simp only [read,build,Agree] at agree
      | null => simp only [read,build,Agree] at agree
      | done name =>
        simp only [read,build,Agree] at agree
        obtain ⟨same,cells,fresh,⟨there,rfl⟩,few⟩ := agree
        subst same
        have clean' := (readString_errno read).trans clean
        simp only [List.length_singleton] at few
        refine (builds _ (some name) (some text) _ _ (fresh.roomy roomy) (by omega)).orElse trivial ?_ ?_
        · intro after memory' leaked failed later none _
          obtain rfl := none clean'
          have there' := (later.cell name (by simp)).trans there
          rw [freeError_eq there']
          exact ⟨rfl,[],(fresh.trans later).withoutAll,fun _ => rfl⟩
        · intro tree root after memory' inner later held short ran
          have name' : NameAt memory' (some name) (some text) [name] :=
            ⟨(later.cell name (later.notin (there ▸ Option.some_ne_none _))).trans there,rfl⟩
          obtain ⟨owned,node,rfl⟩ := held.node name'
          have whole := (fresh.trans later).perm (List.Perm.swap root name owned)
          refine .done whole node ?_
          simp only [List.length_cons] at short ⊢
          omega

end Roots

theorem sampleMemory_roomy : sampleMemory.Roomy := by
  refine (Set.Ici_infinite 8).mono fun address (there : 8 ≤ address) => ?_
  show sampleMemory.cell address = none
  simp only [sampleMemory]
  split <;> first | rfl | exact absurd there (by decide)

noncomputable def sampleArena : Arena where
  heap := .plenty
  place memory _ := sInf { address | memory.cell address = none }
  contents _ size := List.replicate size 0
  free _ _ roomy := Nat.sInf_mem roomy.nonempty

def sampleDocument : List UInt8 := [10,0,0,9,0,1,76,1,0,0,0,1,7,0]

theorem sampleDocument_allocates : ∃ root stream memory' cells,
    nbtBuild2 sampleArena sampleDocument 14 sampleMemory = .done root stream memory' ∧ Fresh sampleMemory memory' cells ∧
      NodeAt memory' true root (.mk (some []) (.tagCompound [.mk (some [76]) (.tagList 1 [.mk none (.tagByte 7)])])) cells := by
  have parsed : nbtParse2 .plenty sampleDocument 14 =
      .done (.mk (some []) (.tagCompound [.mk (some [76]) (.tagList 1 [.mk none (.tagByte 7)])])) ⟨[],0,.ok⟩ := by rfl
  have allocates := @nbtBuild2_allocates sampleArena _ sampleMemory_roomy sampleDocument 14
  rw [show nbtParse2 sampleArena.heap sampleDocument 14 = _ from parsed] at allocates
  cases built : nbtBuild2 sampleArena sampleDocument 14 sampleMemory with
  | fault => rw [built] at allocates; exact allocates.elim
  | null => rw [built] at allocates; exact allocates.elim
  | done root stream memory' =>
    rw [built] at allocates
    obtain ⟨_,cells,fresh,there,_⟩ := allocates
    exact ⟨root,stream,memory',cells,rfl,fresh,there⟩

end CSpock.Nbt
