import CSpock.Nbt.Allocate

/-! `nbt_filter_inplace` of `cNBT/nbt_treeops.c`: what is filtered out is taken out of its
list and freed, while the loop goes on around the list. -/
namespace CSpock.Nbt
open CSpock.Library.Circular

/-- The list of a `TAG_LIST` or a `TAG_COMPOUND`. -/
def Payload.entries : Payload → Option Ptr
  | .list head => some head
  | .compound head => some head
  | _ => none

/-- By the type of the node; `filterList` is called for a list. -/
def Memory.filterPayload (filterList : Memory → Ptr → Option Memory) (memory : Memory) (payload : Payload) : Option Memory :=
  match payload.entries with
  | some list => filterList memory list
  | none => some memory

mutual

def nbtFilterInplace (filter : Memory → Ptr → Bool) : Nat → Memory → Option Ptr → Option (Option Ptr × Memory)
  | _,memory,none => some (none,memory)
  | 0,_,some _ => none
  | fuel+1,memory,some tree =>
    match memory.cell tree with
    | some (.node _ payload) =>
      if filter memory tree then do
        let memory ← memory.filterPayload
          (fun memory list => filterInplaceEntries filter fuel memory list (memory.links.flink list)) payload
        some (some tree,memory)
      else do
        let memory ← nbtFree fuel memory (some tree)
        some (none,memory)
    | _ => none

/-- The loop; `n` is read before the entry may go. -/
def filterInplaceEntries (filter : Memory → Ptr → Bool) : Nat → Memory → Ptr → Ptr → Option Memory
  | 0,_,_,_ => none
  | fuel+1,memory,list,pos =>
    if pos = list then some memory
    else do
      let data ← memory.entryData pos
      let n := memory.links.flink pos
      let (data,memory) ← nbtFilterInplace filter fuel memory data
      let memory := memory.put pos (.entry data)
      match data with
      | some _ => filterInplaceEntries filter fuel memory list n
      | none => do
        let memory := { memory with links := listDel memory.links pos }
        let memory ← memory.free pos
        filterInplaceEntries filter fuel memory list n

end

mutual

/-- A tree without the nodes that are not kept, and without what is under them. -/
def NbtNode.prune (keeps : NbtNode → Bool) : NbtNode → Option NbtNode
  | .mk name payload => if keeps (.mk name payload) then some (.mk name (payload.prune keeps)) else none

def NbtPayload.prune (keeps : NbtNode → Bool) : NbtPayload → NbtPayload
  | .tagList type entries => .tagList type (pruneEntries keeps entries)
  | .tagCompound entries => .tagCompound (pruneEntries keeps entries)
  | payload => payload

def pruneEntries (keeps : NbtNode → Bool) : List NbtNode → List NbtNode
  | [] => []
  | node::nodes => (node.prune keeps).toList ++ pruneEntries keeps nodes

end

/-- A part of what was allocated has been freed, and only what is left of it has been touched. -/
structure Shrunk (memory memory' : Memory) (cells left : List Ptr) : Prop where
  nodup : left.Nodup
  part : ∀ address ∈ left, address ∈ cells
  gone : ∀ address ∈ cells, address ∉ left → memory'.cell address = none
  cell : ∀ address, address ∉ cells → memory'.cell address = memory.cell address
  flink : ∀ address, address ∉ cells → memory'.links.flink address = memory.links.flink address
  blink : ∀ address, address ∉ cells → memory'.links.blink address = memory.links.blink address

section Results
variable {memory memory' memory'' : Memory} {typed : Bool} {cells left more rest : List Ptr}

theorem Shrunk.refl (nodup : cells.Nodup) : Shrunk memory memory cells cells :=
  ⟨nodup,fun _ there => there,fun _ there away => absurd there away,fun _ _ => rfl,fun _ _ => rfl,fun _ _ => rfl⟩

theorem Shrunk.same (shrunk : Shrunk memory memory' cells left) (apart : ∀ address ∈ more, address ∉ cells) :
    Same memory memory' more :=
  ⟨fun address there => shrunk.cell address (apart address there),
    fun address there => shrunk.flink address (apart address there),
    fun address there => shrunk.blink address (apart address there)⟩

theorem Shrunk.without (memory : Memory) (cells : List Ptr) : Shrunk memory (memory.without cells) cells [] :=
  ⟨List.nodup_nil,List.forall_mem_nil _,fun _ there _ => if_pos there,fun _ away => Memory.without_cell away,fun _ _ => rfl,fun _ _ => rfl⟩

theorem Shrunk.trans (shrunk : Shrunk memory memory' cells left) (later : Shrunk memory' memory'' left rest) :
    Shrunk memory memory'' cells rest where
  nodup := later.nodup
  part address there := shrunk.part address (later.part address there)
  gone address there away := by
    by_cases still : address ∈ left
    · exact later.gone address still away
    · rw [later.cell address still,shrunk.gone address there still]
  cell address away := by
    have away' : address ∉ left := fun there => away (shrunk.part address there)
    rw [later.cell address away',shrunk.cell address away]
  flink address away := by
    have away' : address ∉ left := fun there => away (shrunk.part address there)
    rw [later.flink address away',shrunk.flink address away]
  blink address away := by
    have away' : address ∉ left := fun there => away (shrunk.part address there)
    rw [later.blink address away',shrunk.blink address away]

theorem Shrunk.inside (shrunk : Shrunk memory memory' cells left) {whole whole' : List Ptr} (nodup : whole'.Nodup)
    (part : ∀ address ∈ whole', address ∈ whole) (all : ∀ address ∈ cells, address ∈ whole)
    (lost : ∀ address ∈ whole, address ∉ whole' → address ∈ cells ∧ address ∉ left) :
    Shrunk memory memory' whole whole' where
  nodup := nodup
  part := part
  gone address there away := shrunk.gone address (lost address there away).1 (lost address there away).2
  cell address away := shrunk.cell address fun there => away (all address there)
  flink address away := shrunk.flink address fun there => away (all address there)
  blink address away := shrunk.blink address fun there => away (all address there)

theorem HeadAt.next {list item : Ptr} {type : Option UInt8} {items others front : List Ptr}
    (head : HeadAt memory list type (items ++ item :: others) front) :
    memory.links.flink item = back list others ∧ item ≠ list := by
  obtain ⟨_,_,_,circle⟩ := head
  have split : Circle memory.links list ((items ++ [item]) ++ others) := by rwa [List.append_assoc]
  have joined := split.parts.2.2.1
  rw [Library.Circular.front,List.getLastD_concat] at joined
  have absent := (List.nodup_cons.mp ((moved ..).nodup_iff.mp circle.nodup)).1
  exact ⟨joined,fun same => absent (same ▸ List.mem_cons_self ..)⟩

theorem apart_inner {list item : Ptr} {front owned inner later : List Ptr}
    (nodup : (list :: (front ++ (owned ++ item :: (inner ++ later)))).Nodup) :
    ∀ address ∈ list :: (front ++ (owned ++ item :: later)), address ∉ inner := by
  simp only [List.nodup_cons,List.nodup_append,List.mem_append,List.mem_cons,not_or] at nodup
  obtain ⟨⟨_,_,_,listInner,_⟩,_,⟨_,⟨⟨itemInner,_⟩,_,_,innerLater⟩,ownedRest⟩,frontRest⟩ := nodup
  intro address there inside
  simp only [List.mem_cons,List.mem_append] at there
  rcases there with rfl | there | there | rfl | there
  · exact listInner inside
  · exact frontRest address there address (.inr (.inr (.inl inside))) rfl
  · exact ownedRest address there address (.inr (.inl inside)) rfl
  · exact itemInner inside
  · exact innerLater address inside address there rfl

theorem entries_removed {list item : Ptr} {type : Option UInt8} {items others front owned inner later : List Ptr}
    {before nodes : List NbtNode} (head : HeadAt memory list type (items ++ item :: others) front)
    (earlier : EntriesAt memory typed items before owned) (rest : EntriesAt memory typed others nodes later)
    (nodup : (list :: (front ++ (owned ++ item :: (inner ++ later)))).Nodup) (shrunk : Shrunk memory memory' inner []) :
    let unlinked := { memory'.put item (.entry none) with links := listDel memory'.links item }
    let after := unlinked.without [item]
    unlinked.free item = some after ∧ HeadAt after list type (items ++ others) front ∧
      EntriesAt after typed items before owned ∧ EntriesAt after typed others nodes later ∧
      Shrunk memory after (list :: (front ++ (owned ++ item :: (inner ++ later)))) (list :: (front ++ (owned ++ later))) := by
  intro unlinked after
  have still := shrunk.same (apart_inner nodup)
  simp only [List.nodup_cons,List.nodup_append,List.mem_append,List.mem_cons,not_or] at nodup
  obtain ⟨⟨listFront,listOwned,listItem,listInner,listLater⟩,nodupFront,⟨nodupOwned,⟨⟨itemInner,itemLater⟩,nodupInner,nodupLater,
    innerLater⟩,ownedRest⟩,frontRest⟩ := nodup
  have head' : HeadAt memory' list type (items ++ item :: others) front := by
    refine head.frame still fun one there => ?_
    simp only [List.mem_append,List.mem_cons] at there ⊢
    rcases there with there | there | there
    · exact .inl (earlier.items_mem one there)
    · exact .inr (.inl there)
    · exact .inr (.inr (rest.items_mem one there))
  obtain ⟨data',thereList,sentinel,circle⟩ := head'
  have cell : ∀ other, other ≠ item → after.cell other = memory'.cell other := by
    intro other different
    rw [Memory.without_cell (by simpa using different)]
    exact Memory.put_other _ _ different
  have elsewhere := fun other (away : other ∉ list :: (items ++ item :: others)) => listDel_elsewhere circle away
  have nodup' : (list :: (front ++ (owned ++ later))).Nodup := by
    simp only [List.nodup_cons,List.nodup_append,List.mem_append,not_or]
    exact ⟨⟨listFront,listOwned,listLater⟩,nodupFront,⟨nodupOwned,nodupLater,fun one there other there' =>
      ownedRest one there other (.inr (.inr there'))⟩,fun one there other there' =>
      frontRest one there other (there'.imp_right fun there' => .inr (.inr there'))⟩
  have outside : ∀ one, one ∉ list :: (front ++ (owned ++ item :: (inner ++ later))) → one ∉ list :: (items ++ item :: others) := by
    intro one away
    simp only [List.mem_cons,List.mem_append,not_or] at away ⊢
    exact ⟨away.1,fun there => away.2.2.1 (earlier.items_mem one there),away.2.2.2.1,
      fun there => away.2.2.2.2.2 (rest.items_mem one there)⟩
  have inside : ∀ one, one ∉ list :: (front ++ (owned ++ item :: (inner ++ later))) → one ∉ inner := by
    intro one away
    simp only [List.mem_cons,List.mem_append,not_or] at away
    exact away.2.2.2.2.1
  refine ⟨Memory.free_eq (Memory.put_cell ..),⟨data',?_,sentinel.frame fun one there => ?_,listDel_circle circle⟩,?_,?_,
    nodup',fun one there => ?_,fun one there away => ?_,fun one away => ?_,fun one away => ?_,fun one away => ?_⟩
  · rw [cell list listItem,thereList]
  · exact cell one fun same => frontRest one there item (.inr (.inl rfl)) same
  · refine (EntriesAt.frame before earlier (still.mono fun one there => by simp [there])).relink nodupOwned (fun one there => ?_)
      fun one there away => elsewhere one ?_
    · exact cell one fun same => ownedRest one there item (.inl rfl) same
    · simp only [List.mem_cons,List.mem_append,not_or]
      exact ⟨fun same => listOwned (same ▸ there),away,fun same => ownedRest one there item (.inl rfl) same,
        fun there' => ownedRest one there one (.inr (.inr (rest.items_mem one there'))) rfl⟩
  · refine (EntriesAt.frame nodes rest (still.mono fun one there => by simp [there])).relink nodupLater (fun one there => ?_)
      fun one there away => elsewhere one ?_
    · exact cell one fun same => itemLater (same ▸ there)
    · simp only [List.mem_cons,List.mem_append,not_or]
      exact ⟨fun same => listLater (same ▸ there),fun there' => ownedRest one (earlier.items_mem one there') one
        (.inr (.inr there)) rfl,fun same => itemLater (same ▸ there),away⟩
  · simp only [List.mem_cons,List.mem_append] at there ⊢
    tauto
  · simp only [List.mem_cons,List.mem_append,not_or] at there away
    by_cases here : one = item
    · exact if_pos (by simp [here])
    · rw [cell one here]
      exact shrunk.gone one (by tauto) List.not_mem_nil
  · simp only [List.mem_cons,List.mem_append,not_or] at away
    rw [cell one away.2.2.2.1,shrunk.cell one away.2.2.2.2.1]
  · exact (elsewhere one (outside one away)).1.trans (shrunk.flink one (inside one away))
  · exact (elsewhere one (outside one away)).2.trans (shrunk.blink one (inside one away))

theorem entries_kept {list item data : Ptr} {type : Option UInt8} {items others front owned inner inner' later : List Ptr}
    {before nodes : List NbtNode} {tree : NbtNode} (head : HeadAt memory list type (items ++ item :: others) front)
    (earlier : EntriesAt memory typed items before owned) (there : memory.cell item = some (.entry (some data)))
    (rest : EntriesAt memory typed others nodes later) (nodup : (list :: (front ++ (owned ++ item :: (inner ++ later)))).Nodup)
    (shrunk : Shrunk memory memory' inner inner') (node : NodeAt memory' typed data tree inner') :
    HeadAt memory' list type ((items ++ [item]) ++ others) front ∧
      EntriesAt memory' typed (items ++ [item]) (before ++ [tree]) (owned ++ item :: inner') ∧
      EntriesAt memory' typed others nodes later ∧
      Shrunk memory memory' (list :: (front ++ (owned ++ item :: (inner ++ later))))
        (list :: (front ++ ((owned ++ item :: inner') ++ later))) := by
  have still := shrunk.same (apart_inner nodup)
  have found := (still.cell item (by simp)).trans there
  refine ⟨?_,(EntriesAt.frame before earlier (still.mono fun one there => by simp [there])).append
    ⟨item,[],data,inner',[],rfl,found,node,⟨rfl,rfl⟩,by rw [List.append_nil]⟩,
    EntriesAt.frame nodes rest (still.mono fun one there => by simp [there]),?_⟩
  · rw [List.append_assoc]
    refine head.frame still fun one there => ?_
    simp only [List.mem_append,List.mem_cons] at there ⊢
    rcases there with there | there | there
    · exact .inl (earlier.items_mem one there)
    · exact .inr (.inl there)
    · exact .inr (.inr (rest.items_mem one there))
  · refine shrunk.inside ?_ (fun one there => ?_) (fun one there => by simp [there]) fun one there away => ?_
    · have part := shrunk.part
      have nodup' := shrunk.nodup
      simp only [List.nodup_cons,List.nodup_append,List.mem_append,List.mem_cons,not_or] at nodup ⊢
      grind
    · have part := shrunk.part one
      simp only [List.mem_cons,List.mem_append] at there ⊢
      tauto
    · simp only [List.mem_cons,List.mem_append,not_or] at there away
      tauto

variable {filter : Memory → Ptr → Bool} {keeps : NbtNode → Bool}

/-- The predicate looks at the tree. -/
def Looks (typed : Bool) (filter : Memory → Ptr → Bool) (keeps : NbtNode → Bool) : Prop :=
  ∀ memory address tree cells, NodeAt memory typed address tree cells → filter memory address = keeps tree

mutual

theorem filterInplace_node (looks : Looks typed filter keeps) : (tree : NbtNode) → {memory : Memory} → {address : Ptr} →
    {cells : List Ptr} → NodeAt memory typed address tree cells → cells.Nodup → {fuel : Nat} → cells.length + 1 < fuel →
    ∃ memory' left, nbtFilterInplace filter fuel memory (some address) =
        some ((tree.prune keeps).map fun _ => address,memory') ∧ Shrunk memory memory' cells left ∧
      match tree.prune keeps with
      | some tree' => NodeAt memory' typed address tree' left
      | none => left = []
  | .mk name payload,memory,address,cells,at',nodup,fuel + 1,enough => by
    have looked := looks _ _ _ _ at'
    by_cases kept : keeps (.mk name payload)
    · obtain ⟨nameAddress,member,named,owned,there,name',inside,rfl⟩ := at'
      obtain ⟨outside,nodup'⟩ := List.nodup_cons.mp nodup
      obtain ⟨nodupNamed,nodupOwned,apart⟩ := List.nodup_append.mp nodup'
      rw [List.mem_append,not_or] at outside
      simp only [List.length_cons,List.length_append] at enough
      obtain ⟨memory',left,ran,shrunk,payload'⟩ :=
        filterInplace_payload looks payload inside nodupOwned (show owned.length < fuel by omega)
      have still : Same memory memory' (address :: named) := shrunk.same fun one here there => by
        rcases List.mem_cons.mp here with same | here
        · exact outside.2 (same ▸ there)
        · exact apart one here one there rfl
      refine ⟨memory',address :: (named ++ left),?_,?_,?_⟩
      · simp [nbtFilterInplace,there,looked,kept,ran,NbtNode.prune]
      · refine shrunk.inside ?_ (fun one here => ?_) (fun one here => by simp [here]) fun one here away => ?_
        · have part := shrunk.part
          refine List.nodup_cons.mpr ⟨fun here => ?_,nodupNamed.append shrunk.nodup fun one here there => ?_⟩
          · exact (List.mem_append.mp here).elim outside.1 fun here => outside.2 (part address here)
          · exact apart one here one (part one there) rfl
        · have part := shrunk.part one
          simp only [List.mem_cons,List.mem_append] at here ⊢
          tauto
        · simp only [List.mem_cons,List.mem_append,not_or] at here away
          tauto
      · simp only [NbtNode.prune,kept,if_true]
        exact ⟨nameAddress,member,named,left,(still.cell address (List.mem_cons_self ..)).trans there,
          name'.frame (still.mono fun one here => List.mem_cons_of_mem _ here),payload',rfl⟩
    · have freed := nbtFree_node _ at' nodup (show cells.length < fuel by omega)
      obtain ⟨nameAddress,member,named,owned,there,name',inside,rfl⟩ := at'
      refine ⟨_,[],?_,.without memory _,?_⟩
      · simp [nbtFilterInplace,there,looked,kept,freed,NbtNode.prune]
      · simp [NbtNode.prune,kept]

theorem filterInplace_payload (looks : Looks typed filter keeps) : (payload : NbtPayload) → {memory : Memory} →
    {member : Payload} → {cells : List Ptr} → PayloadAt memory typed member payload cells → cells.Nodup → {fuel : Nat} →
    cells.length < fuel →
    ∃ memory' left, memory.filterPayload
        (fun memory list => filterInplaceEntries filter fuel memory list (memory.links.flink list)) member = some memory' ∧
      Shrunk memory memory' cells left ∧ PayloadAt memory' typed member (payload.prune keeps) left
  | .tagByte _,memory,_,_,⟨scalar,member,same,empty⟩,nodup,_,_ =>
    ⟨memory,_,by rw [member]; rfl,.refl nodup,scalar,member,same,empty⟩
  | .tagShort _,memory,_,_,⟨scalar,member,same,empty⟩,nodup,_,_ =>
    ⟨memory,_,by rw [member]; rfl,.refl nodup,scalar,member,same,empty⟩
  | .tagInt _,memory,_,_,⟨scalar,member,same,empty⟩,nodup,_,_ =>
    ⟨memory,_,by rw [member]; rfl,.refl nodup,scalar,member,same,empty⟩
  | .tagLong _,memory,_,_,⟨scalar,member,same,empty⟩,nodup,_,_ =>
    ⟨memory,_,by rw [member]; rfl,.refl nodup,scalar,member,same,empty⟩
  | .tagFloat _,memory,_,_,⟨scalar,member,same,empty⟩,nodup,_,_ =>
    ⟨memory,_,by rw [member]; rfl,.refl nodup,scalar,member,same,empty⟩
  | .tagDouble _,memory,_,_,⟨scalar,member,same,empty⟩,nodup,_,_ =>
    ⟨memory,_,by rw [member]; rfl,.refl nodup,scalar,member,same,empty⟩
  | .tagByteArray _,memory,_,_,⟨address,member,there,one⟩,nodup,_,_ =>
    ⟨memory,_,by rw [member]; rfl,.refl nodup,address,member,there,one⟩
  | .tagIntArray _,memory,_,_,⟨address,member,there,one⟩,nodup,_,_ =>
    ⟨memory,_,by rw [member]; rfl,.refl nodup,address,member,there,one⟩
  | .tagString _,memory,_,_,⟨address,member,there,one⟩,nodup,_,_ =>
    ⟨memory,_,by rw [member]; rfl,.refl nodup,address,member,there,one⟩
  | .tagList _ entries,memory,_,_,at',nodup,fuel,enough => by
    obtain ⟨list,items,front,owned,rfl,head,inside,rfl⟩ := at'
    simp only [List.length_cons,List.length_append] at enough
    obtain ⟨memory',items',left,ran,shrunk,head',inside'⟩ := filterInplace_entries looks entries
      (show HeadAt memory list _ ([] ++ items) front from head) (show EntriesAt memory typed [] [] [] from ⟨rfl,rfl⟩)
      inside nodup head.choose_spec.2.2.onward.here (show owned.length + 1 < fuel by omega)
    exact ⟨memory',_,ran,shrunk,list,items',front,left,rfl,head',inside',rfl⟩
  | .tagCompound entries,memory,_,_,at',nodup,fuel,enough => by
    obtain ⟨list,items,front,owned,rfl,head,inside,rfl⟩ := at'
    simp only [List.length_cons,List.length_append] at enough
    obtain ⟨memory',items',left,ran,shrunk,head',inside'⟩ := filterInplace_entries looks entries
      (show HeadAt memory list _ ([] ++ items) front from head) (show EntriesAt memory typed [] [] [] from ⟨rfl,rfl⟩)
      inside nodup head.choose_spec.2.2.onward.here (show owned.length + 1 < fuel by omega)
    exact ⟨memory',_,ran,shrunk,list,items',front,left,rfl,head',inside',rfl⟩

theorem filterInplace_entries (looks : Looks typed filter keeps) : (nodes : List NbtNode) → {memory : Memory} →
    {list pos : Ptr} → {type : Option UInt8} → {front items others owned cells : List Ptr} → {before : List NbtNode} →
    HeadAt memory list type (items ++ others) front → EntriesAt memory typed items before owned →
    EntriesAt memory typed others nodes cells → (list :: (front ++ (owned ++ cells))).Nodup → pos = back list others →
    {fuel : Nat} → cells.length + 1 < fuel →
    ∃ memory' items' left, filterInplaceEntries filter fuel memory list pos = some memory' ∧
      Shrunk memory memory' (list :: (front ++ (owned ++ cells))) (list :: (front ++ (owned ++ left))) ∧
      HeadAt memory' list type (items ++ items') front ∧
      EntriesAt memory' typed (items ++ items') (before ++ pruneEntries keeps nodes) (owned ++ left)
  | [],memory,list,pos,_,_,_,_,_,_,_,head,earlier,at',nodup,first,fuel + 1,_ => by
    obtain ⟨rfl,rfl⟩ := at'
    refine ⟨memory,[],[],by rw [filterInplaceEntries,if_pos (show pos = list from first)],.refl nodup,head,?_⟩
    simpa [pruneEntries] using earlier
  | node::nodes,memory,list,pos,type,front,items,_,owned,_,before,head,earlier,at',nodup,first,fuel + 1,enough => by
    obtain ⟨item,rest,data,inner,later,rfl,there,node',rest',rfl⟩ := at'
    obtain rfl : pos = item := first
    obtain ⟨next,away⟩ := head.next
    simp only [List.length_cons,List.length_append] at enough
    have nodupInner : inner.Nodup := by
      simp only [List.nodup_cons,List.nodup_append] at nodup
      exact nodup.2.2.1.2.1.2.1
    obtain ⟨memory',inner',ran,shrunk,outcome⟩ :=
      filterInplace_node looks node node' nodupInner (show inner.length + 1 < fuel by omega)
    rw [filterInplaceEntries,if_neg away]
    simp only [Memory.entryData_eq there,ran,Option.bind_eq_bind,Option.bind_some]
    cases pruned : node.prune keeps with
    | none =>
      simp only [pruned] at outcome
      subst outcome
      obtain ⟨freed,head',earlier',later',gone⟩ := entries_removed head earlier rest' nodup shrunk
      obtain ⟨memory'',items',left,ran',shrunk',head'',entries''⟩ :=
        filterInplace_entries looks nodes head' earlier' later' gone.nodup rfl (show later.length + 1 < fuel by omega)
      refine ⟨memory'',items',left,?_,gone.trans shrunk',head'',?_⟩
      · rw [next]
        exact (congrArg (Option.bind · _) freed).trans ran'
      · simpa [pruneEntries,pruned] using entries''
    | some tree' =>
      simp only [pruned] at outcome
      obtain ⟨head',earlier',later',gone⟩ := entries_kept head earlier there rest' nodup shrunk outcome
      obtain ⟨memory'',items',left,ran',shrunk',head'',entries''⟩ := filterInplace_entries looks nodes head' earlier' later'
        gone.nodup rfl (show later.length + 1 < fuel by omega)
      have still : memory'.cell pos = some (.entry (some data)) :=
        ((shrunk.same (apart_inner nodup)).cell pos (by simp)).trans there
      refine ⟨memory'',pos :: items',pos :: (inner' ++ left),?_,?_,?_,?_⟩
      · simpa only [Option.map_some,Memory.put_self still,next] using ran'
      · simpa using gone.trans shrunk'
      · simpa using head''
      · simpa [pruneEntries,pruned] using entries''

end

/-- What is left of a tree stays where it is, what has been filtered out is freed, each piece once, and every
other tree stays. -/
theorem nbtFilterInplace_prunes (looks : Looks typed filter keeps) {tree : NbtNode} {address : Ptr}
    (at' : NodeAt memory typed address tree cells) (nodup : cells.Nodup) {fuel : Nat} (enough : cells.length + 1 < fuel) :
    ∃ memory' left, nbtFilterInplace filter fuel memory (some address) =
        some ((tree.prune keeps).map fun _ => address,memory') ∧
      (match tree.prune keeps with
        | some tree' => NodeAt memory' typed address tree' left
        | none => left = []) ∧
      (∀ one ∈ left, one ∈ cells) ∧ (∀ one ∈ cells, one ∉ left → memory'.cell one = none) ∧
      (∀ one, one ∉ cells → memory'.cell one = memory.cell one) ∧
      ∀ (typed' : Bool) (other : Ptr) (tree' : NbtNode) (cells' : List Ptr), NodeAt memory typed' other tree' cells' →
        (∀ one ∈ cells', one ∉ cells) → NodeAt memory' typed' other tree' cells' := by
  obtain ⟨memory',left,ran,shrunk,outcome⟩ := filterInplace_node looks tree at' nodup enough
  exact ⟨memory',left,ran,outcome,shrunk.part,shrunk.gone,shrunk.cell,
    fun _ _ tree' _ there apart => NodeAt.frame tree' there (shrunk.same apart)⟩

end Results

def sampleFilter (memory : Memory) (address : Ptr) : Bool :=
  match memory.cell address with
  | some (.node none _) => true
  | _ => false

theorem sampleFilter_looks (typed : Bool) : Looks typed sampleFilter fun node => node.name.isNone := by
  rintro memory address ⟨name,payload⟩ cells ⟨nameAddress,member,named,owned,there,named',_,_⟩
  cases nameAddress <;> cases name <;> simp_all [NameAt,sampleFilter,NbtNode.name]

theorem sampleMemory_filtered : ∃ memory' left, nbtFilterInplace sampleFilter 16 sampleMemory (some 1) = some (some 1,memory') ∧
    NodeAt memory' true 1 (.mk none (.tagCompound [.mk none (.tagByte 1)])) left := by
  obtain ⟨memory',left,ran,outcome,_⟩ := nbtFilterInplace_prunes (sampleFilter_looks true)
    (show NodeAt sampleMemory true 1 sampleTree _ from sampleMemory_at) (by decide) (show _ < 16 by decide)
  exact ⟨memory',left,ran,outcome⟩

end CSpock.Nbt
