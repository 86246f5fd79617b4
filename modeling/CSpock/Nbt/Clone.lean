import CSpock.Nbt.Allocate

/-! `nbt_clone` and `clone_list` of `cNBT/nbt_treeops.c`, with any allocation refused. -/
namespace CSpock.Nbt
open CSpock.Library.Circular CSpock.Library.Endian

/-- `clone_error`: what there is of the new node is freed. -/
def cloneError (memory : Memory) (name : Option Ptr) (ret : Ptr) : Option (Option Ptr × Memory) := do
  let memory ← memory.freeName name
  let memory ← memory.free ret
  some (none,memory)

/-- By the type of the node. Of an array of integers `length` bytes are copied. -/
def Memory.clonePayload (alloc : Allocator) (cloneList : Memory → Ptr → Option (Option Ptr × Memory)) (memory : Memory) :
    Payload → Option (Option Payload × Memory)
  | .string text => do
    let (copy,memory) ← nbtStrdup alloc memory text
    some (copy.map .string,memory)
  | .byteArray data length =>
    match memory.malloc alloc length with
    | (none,memory) => some (none,memory)
    | (some newbuf,memory) => do
      let memory ← memory.memcpy newbuf data length
      some (some (.byteArray newbuf length),memory)
  | .intArray data length =>
    match memory.malloc alloc (length * 4) with
    | (none,memory) => some (none,memory)
    | (some newbuf,memory) => do
      let memory ← memory.memcpy newbuf data length
      some (some (.intArray newbuf length),memory)
  | .list list => do
    let (copy,memory) ← cloneList memory list
    some (copy.map .list,memory)
  | .compound list => do
    let (copy,memory) ← cloneList memory list
    some (copy.map .compound,memory)
  | .scalar value => some (some (.scalar value),memory)

/-- `INIT_LIST_HEAD`, and no `data` yet. -/
def Memory.initList (memory : Memory) (ret : Ptr) : Memory :=
  { memory.put ret (.entry none) with links := initListHead memory.links ret }

/-- The type in front of a list, if there is one, for the new list `ret`. The result is whether there was memory. -/
def Memory.cloneSentinel (alloc : Allocator) (memory : Memory) (data : Option Ptr) (ret : Ptr) : Option (Bool × Memory) :=
  match data with
  | none => some (true,memory)
  | some data =>
    match memory.malloc alloc sizeofNode with
    | (none,memory) => some (false,memory)
    | (some front,memory) =>
      match memory.cell data with
      | some (.sentinel type) => some (true,(memory.put front (.sentinel type)).put ret (.entry (some front)))
      | _ => none

mutual

def nbtClone (alloc : Allocator) : Nat → Memory → Option Ptr → Option (Option Ptr × Memory)
  | _,memory,none => some (none,memory)
  | 0,_,some _ => none
  | fuel+1,memory,some tree =>
    match memory.cell tree with
    | some (.node name payload) =>
      match memory.malloc alloc sizeofNode with
      | (none,memory) => some (none,memory)
      | (some ret,memory) => do
        let (copy,memory) ← safeStrdup alloc memory name
        if name.isSome ∧ copy.isNone then cloneError memory copy ret
        else
          let (member,memory) ← memory.clonePayload alloc (fun memory list => cloneList alloc fuel memory list) payload
          match member with
          | none => cloneError memory copy ret
          | some member => some (some ret,memory.put ret (.node copy member))
    | _ => none

def cloneList (alloc : Allocator) : Nat → Memory → Ptr → Option (Option Ptr × Memory)
  | 0,_,_ => none
  | fuel+1,memory,list =>
    match memory.malloc alloc sizeofList with
    | (none,memory) => some (none,memory)
    | (some ret,memory) => do
      let memory := memory.initList ret
      let data ← memory.entryData list
      let (typed,memory) ← memory.cloneSentinel alloc data ret
      let (copied,memory) ←
        if typed then cloneEntries alloc fuel memory list (memory.links.flink list) ret else some (false,memory)
      if copied then some (some ret,memory)
      else do
        let memory ← nbtFreeList fuel memory (some ret)
        some (none,memory)

def cloneEntries (alloc : Allocator) : Nat → Memory → Ptr → Ptr → Ptr → Option (Bool × Memory)
  | 0,_,_,_,_ => none
  | fuel+1,memory,list,pos,ret =>
    if pos = list then some (true,memory)
    else do
      let data ← memory.entryData pos
      match memory.malloc alloc sizeofList with
      | (none,memory) => some (false,memory)
      | (some new,memory) => do
        let (copy,memory) ← nbtClone alloc fuel memory data
        match copy with
        | none => do
          let memory ← memory.free new
          some (false,memory)
        | some copy =>
          let memory := memory.put new (.entry (some copy))
          let memory := { memory with links := listAddTail memory.links new ret }
          cloneEntries alloc fuel memory list (memory.links.flink pos) ret

end

mutual

/-- What a clone has of a tree: the strings up to their first zero, and a part of the arrays of integers. -/
def NodeCopy : NbtNode → NbtNode → Prop
  | .mk name payload,copy => ∃ payload', copy = .mk (name.map cString) payload' ∧ PayloadCopy payload payload'

def PayloadCopy : NbtPayload → NbtPayload → Prop
  | .tagString text,copy => copy = .tagString (cString text)
  | .tagIntArray data,copy => ∃ data', copy = .tagIntArray data' ∧ data'.length = data.length ∧
      (intBytes data').take data.length = (intBytes data).take data.length
  | .tagList type entries,copy => ∃ entries', copy = .tagList type entries' ∧ EntriesCopy entries entries'
  | .tagCompound entries,copy => ∃ entries', copy = .tagCompound entries' ∧ EntriesCopy entries entries'
  | payload,copy => copy = payload

def EntriesCopy : List NbtNode → List NbtNode → Prop
  | [],copies => copies = []
  | node::nodes,copies => ∃ copy rest, copies = copy :: rest ∧ NodeCopy node copy ∧ EntriesCopy nodes rest

end

section IntArrays

theorem length_intBytes (data : List UInt32) : (intBytes data).length = 4 * data.length := by
  induction data with
  | nil => rfl
  | cons entry data ih =>
    rw [intBytes,List.flatMap_cons,List.length_append,← intBytes,ih,List.length_reverse,length_bigEndian,List.length_cons]
    omega

theorem intBytes_of_length : ∀ {count : Nat} {bytes : List UInt8}, bytes.length = 4 * count →
    ∃ data : List UInt32, data.length = count ∧ intBytes data = bytes
  | 0,bytes,sized => ⟨[],rfl,(List.eq_nil_of_length_eq_zero sized).symm⟩
  | count+1,bytes,sized => by
    have some4 : (bytes.take 4).reverse.length = 4 := by
      rw [List.length_reverse,List.length_take]
      omega
    have remaining : (bytes.drop 4).length = 4 * count := by
      rw [List.length_drop]
      omega
    obtain ⟨data,length,rest⟩ := intBytes_of_length remaining
    have small := value_lt (bytes.take 4).reverse
    have back := bigEndian_value (bytes.take 4).reverse
    rw [some4] at small back
    refine ⟨UInt32.ofNat (value (bytes.take 4).reverse) :: data,by rw [List.length_cons,length],?_⟩
    rw [intBytes,List.flatMap_cons,← intBytes,rest,UInt32.toNat_ofNat_of_lt' (by omega),back,List.reverse_reverse]
    exact List.take_append_drop ..

end IntArrays

/-- There was no memory and nothing has changed, or there is a copy, of no more structures than it is of. -/
def Cloned {Copy : Type} (memory memory' : Memory) (cells : List Ptr) (copied : Copy → List Ptr → Prop) :
    Option Copy → Prop
  | none => Fresh memory memory' []
  | some copy => ∃ cells', Fresh memory memory' cells' ∧ cells'.length ≤ cells.length ∧ copied copy cells'

section Parts
variable {alloc : Allocator} {memory memory' memory'' : Memory} {typed : Bool} {cells : List Ptr}

theorem Cloned.map {Copy Member : Type} {copied : Copy → List Ptr → Prop} {copied' : Member → List Ptr → Prop}
    {result : Option Copy} (build : Copy → Member) (cloned : Cloned memory memory' cells copied result)
    (built : ∀ copy cells', copied copy cells' → copied' (build copy) cells') :
    Cloned memory memory' cells copied' (result.map build) := by
  cases result with
  | none => exact cloned
  | some copy =>
    obtain ⟨cells',fresh,few,done⟩ := cloned
    exact ⟨cells',fresh,few,built copy cells' done⟩

theorem safeStrdup_eq (alloc : Allocator) {address : Option Ptr} {name : Option (List UInt8)} (at' : NameAt memory address name cells) :
    ∃ copy memory' cells', safeStrdup alloc memory address = some (copy,memory') ∧ Fresh memory memory' cells' ∧
      memory'.links = memory.links ∧ cells'.length ≤ cells.length ∧
      if address.isSome ∧ copy.isNone then cells' = [] else NameAt memory' copy (name.map cString) cells' := by
  cases address with
  | none =>
    cases name with
    | none => exact ⟨none,memory,[],rfl,.refl memory,rfl,Nat.zero_le _,rfl⟩
    | some name => exact at'.elim
  | some address =>
    cases name with
    | none => exact at'.elim
    | some name =>
      obtain ⟨there,rfl⟩ := at'
      rcases nbtStrdup_eq alloc there with refused | ⟨copy,memory',got,fresh,links,copied⟩
      · exact ⟨none,memory,[],refused,.refl memory,rfl,Nat.zero_le _,rfl⟩
      · exact ⟨some copy,memory',[copy],got,fresh,links,Nat.le_refl _,copied,rfl⟩

theorem memcpy_eq {target source : Ptr} {count : Nat} {old bytes : List UInt8}
    (there : memory.cell source = some (.block bytes)) (room : memory.cell target = some (.block old))
    (enough : count ≤ bytes.length) (enough' : count ≤ old.length) :
    memory.memcpy target source count = some (memory.put target (.block (bytes.take count ++ old.drop count))) := by
  have read : memory.block source = some bytes := by rw [Memory.block,there]
  have read' : memory.block target = some old := by rw [Memory.block,room]
  simp only [Memory.memcpy,read,read',Option.bind_eq_bind,Option.bind_some]
  rw [if_neg (by omega)]

theorem cloneError_eq {address : Option Ptr} {name : Option (List UInt8)} {ret : Ptr} {cell : Cell} {named : List Ptr}
    (fresh : Fresh memory memory' (ret :: named)) (there : memory'.cell ret = some cell)
    (at' : NameAt memory' address name named) :
    ∃ memory'', cloneError memory' address ret = some (none,memory'') ∧ Fresh memory memory'' [] := by
  have still : (memory'.without named).cell ret = some cell :=
    (Memory.without_cell (List.nodup_cons.mp fresh.nodup).1).trans there
  refine ⟨(memory'.without named).without [ret],?_,?_⟩
  · simp only [cloneError,at'.freeName,Memory.free_eq still,Option.bind_eq_bind,Option.bind_some]
  · rw [Memory.without_without]
    exact (fresh.perm (List.perm_append_singleton ret named).symm).withoutAll

theorem cloneSentinel_eq (alloc : Allocator) {base : Memory} {data : Option Ptr} {type : Option UInt8} {front : List Ptr} {ret : Ptr}
    (sentinel : SentinelAt base data type front) (fresh : Fresh base memory [ret])
    (there : memory.cell ret = some (.entry none)) (circle : Circle memory.links ret []) :
    ∃ typed memory' front', memory.cloneSentinel alloc data ret = some (typed,memory') ∧
      Fresh base memory' (ret :: front') ∧ front'.length ≤ front.length ∧
      HeadAt memory' ret (if typed then type else none) [] front' := by
  cases type with
  | none =>
    obtain ⟨rfl,rfl⟩ := sentinel
    exact ⟨true,memory,[],rfl,fresh,Nat.le_refl _,none,there,⟨rfl,rfl⟩,circle⟩
  | some type =>
    obtain ⟨address,rfl,found,rfl⟩ := sentinel
    rcases memory.malloc_eq alloc sizeofNode with refused | ⟨copy,memory',bytes,got,later,links,_⟩
    · refine ⟨false,memory,[],?_,fresh,Nat.zero_le _,none,there,⟨rfl,rfl⟩,circle⟩
      simp only [Memory.cloneSentinel,refused]
    · have all : Fresh base memory' [ret,copy] := fresh.trans later
      have found' : memory'.cell address = some (.sentinel type) := by
        rw [all.cell address (all.notin (found ▸ Option.some_ne_none _)),found]
      have apart : copy ≠ ret := fun same => (List.nodup_cons.mp all.nodup).1 (same ▸ List.mem_singleton_self _)
      refine ⟨true,(memory'.put copy (.sentinel type)).put ret (.entry (some copy)),[copy],?_,
        (all.put (by simp)).put (by simp),Nat.le_refl _,some copy,Memory.put_cell ..,⟨copy,rfl,?_,rfl⟩,?_⟩
      · simp only [Memory.cloneSentinel,got,found']
      · rw [Memory.put_other _ _ apart,Memory.put_cell]
      · show Circle memory'.links ret []
        rwa [links]

theorem HeadAt.addTail {list new : Ptr} {type : Option UInt8} {items front : List Ptr}
    (head : HeadAt memory list type items front) (fresh : new ∉ list :: items) :
    HeadAt { memory with links := listAddTail memory.links new list } list type (items ++ [new]) front := by
  obtain ⟨data,there,sentinel,circle⟩ := head
  exact ⟨data,there,sentinel.frame fun _ _ => rfl,listAddTail_circle circle fresh⟩

theorem entries_addTail {base : Memory} {ret new copy : Ptr} {type : Option UInt8} {items front owned inner : List Ptr}
    {nodes : List NbtNode} {tree : NbtNode} (fresh : Fresh base memory (ret :: (front ++ owned)))
    (head : HeadAt memory ret type items front) (entries : EntriesAt memory typed items nodes owned)
    (later : Fresh memory memory' (new :: inner)) (there : memory'.cell new = some (.entry (some copy)))
    (node : NodeAt memory' typed copy tree inner) :
    let after := { memory' with links := listAddTail memory'.links new ret }
    Fresh base after (ret :: (front ++ (owned ++ new :: inner))) ∧ HeadAt after ret type (items ++ [new]) front ∧
      EntriesAt after typed (items ++ [new]) (nodes ++ [tree]) (owned ++ new :: inner) := by
  intro after
  have whole : Fresh base memory' (ret :: (front ++ (owned ++ new :: inner))) := by
    refine (fresh.trans later).perm ?_
    simp
  have head' := head.frame (later.same (head.live.append (EntriesAt.live nodes entries))) entries.items_mem
  have entries' := EntriesAt.frame nodes entries (later.same (EntriesAt.live nodes entries))
  obtain ⟨outside,nodup⟩ := List.nodup_cons.mp whole.nodup
  obtain ⟨_,nodup,_⟩ := List.nodup_append.mp nodup
  obtain ⟨distinct,nodup',apart⟩ := List.nodup_append.mp nodup
  simp only [List.mem_append,List.mem_cons,not_or] at outside
  have circle := head'.choose_spec.2.2
  have unused : new ∉ ret :: items := by
    rintro there
    rcases List.mem_cons.mp there with same | there
    · exact outside.2.2.1 same.symm
    · exact apart new (entries.items_mem new there) new (List.mem_cons_self ..) rfl
  have elsewhere := fun other (away : other ∉ new :: ret :: items) => listAddTail_elsewhere circle unused away
  have inside : ∀ other ∈ inner, other ∉ new :: ret :: items := by
    intro other here
    simp only [List.mem_cons,not_or]
    refine ⟨?_,?_,fun item => apart other (entries.items_mem other item) other (List.mem_cons_of_mem _ here) rfl⟩
    · exact fun same => (List.nodup_cons.mp nodup').1 (same ▸ here)
    · exact fun same => outside.2.2.2 (same ▸ here)
  have part : ∀ other, other ∈ new :: ret :: items → other ∈ ret :: (front ++ (owned ++ new :: inner)) := by
    intro other there
    simp only [List.mem_cons,List.mem_append] at there ⊢
    rcases there with there | there | there
    · exact .inr (.inr (.inr (.inl there)))
    · exact .inl there
    · exact .inr (.inr (.inl (entries.items_mem other there)))
  refine ⟨whole.relink (fun other away => (elsewhere other fun there => away (part other there)).1)
    (fun other away => (elsewhere other fun there => away (part other there)).2),head'.addTail unused,?_⟩
  refine EntriesAt.append (entries'.relink distinct (fun _ _ => rfl) fun other here away => ?_)
    ⟨new,[],copy,inner,[],rfl,there,?_,⟨rfl,rfl⟩,by rw [List.append_nil]⟩
  · refine elsewhere other ?_
    simp only [List.mem_cons,not_or]
    exact ⟨fun same => apart other here new (List.mem_cons_self ..) same,fun same => outside.2.1 (same ▸ here),away⟩
  · exact NodeAt.frame tree node ⟨fun _ _ => rfl,fun other here => (elsewhere other (inside other here)).1,
      fun other here => (elsewhere other (inside other here)).2⟩

/-- The loop over `nodes` has added to a list that was made since `base`. If it has not come to its end,
the list can still be freed. -/
def EntriesCloned (base : Memory) (typed : Bool) (ret : Ptr) (type : Option UInt8) (front items owned : List Ptr)
    (before nodes : List NbtNode) (cells : List Ptr) (result : Bool × Memory) : Prop :=
  ∃ items' nodes' owned', Fresh base result.2 (ret :: (front ++ (owned ++ owned'))) ∧ owned'.length ≤ cells.length ∧
    HeadAt result.2 ret type (items ++ items') front ∧
    EntriesAt result.2 typed (items ++ items') (before ++ nodes') (owned ++ owned') ∧
    (result.1 = true → EntriesCopy nodes nodes')

theorem EntriesCloned.stay {base : Memory} {ret : Ptr} {type : Option UInt8} {front items owned : List Ptr}
    {before nodes : List NbtNode} (fresh : Fresh base memory (ret :: (front ++ owned)))
    (head : HeadAt memory ret type items front) (entries : EntriesAt memory typed items before owned)
    (same : Fresh memory memory' []) : EntriesCloned base typed ret type front items owned before nodes cells (false,memory') := by
  refine ⟨[],[],[],?_,Nat.zero_le _,?_,?_,nofun⟩
  · simpa using fresh.trans same
  · rw [List.append_nil]
    exact head.frame (same.same (head.live.append (EntriesAt.live before entries))) entries.items_mem
  · simp only [List.append_nil]
    exact EntriesAt.frame before entries (same.same (EntriesAt.live before entries))

theorem cloneList_eq {list : Ptr} {type : Option UInt8} {nodes : List NbtNode} {items front owned : List Ptr} {fuel : Nat}
    (head : HeadAt memory list type items front) (enough : (list :: (front ++ owned)).length < fuel)
    (loop : ∀ {memory' : Memory} {ret : Ptr} {front' : List Ptr}, Fresh memory memory' (ret :: (front' ++ [])) →
      HeadAt memory' ret type [] front' → ∃ result,
        cloneEntries alloc fuel memory' list (memory.links.flink list) ret = some result ∧
          EntriesCloned memory typed ret type front' [] [] [] nodes owned result) :
    ∃ result memory', cloneList alloc (fuel + 1) memory list = some (result,memory') ∧
      Cloned memory memory' (list :: (front ++ owned))
        (fun ret cells' => ∃ nodes', ListAt memory' typed ret type nodes' cells' ∧ EntriesCopy nodes nodes') result := by
  obtain ⟨data,there,sentinel,circle⟩ := head
  rw [cloneList]
  rcases memory.malloc_eq alloc sizeofList with refused | ⟨ret,memory₁,bytes,got,fresh,_,_⟩
  · rw [refused]
    exact ⟨none,memory,rfl,.refl memory⟩
  · have ready : Fresh memory (memory₁.initList ret) [ret] := by
      refine (fresh.put (List.mem_singleton_self _)).relink (fun other away => ?_) fun other away => ?_
      all_goals
        rw [List.mem_singleton] at away
        simp [initListHead,away,Memory.put]
    have found : (memory₁.initList ret).entryData list = some data := by
      refine Memory.entryData_eq ?_
      rw [ready.cell list (ready.notin (there ▸ Option.some_ne_none _)),there]
    obtain ⟨hasType,memory₂,front',sentinel',fresh',short,head'⟩ :=
      cloneSentinel_eq alloc sentinel ready (Memory.put_cell ..) (initListHead_circle ..)
    simp only [got,found,sentinel',Option.bind_eq_bind,Option.bind_some]
    simp only [List.length_cons,List.length_append] at enough
    cases hasType with
    | false =>
      have begun : ListAt memory₂ typed ret none [] (ret :: front') :=
        ⟨[],front',[],head',⟨rfl,rfl⟩,by rw [List.append_nil]⟩
      have freed := nbtFreeList_list begun fresh'.nodup (show (ret :: front').length < fuel by simp only [List.length_cons]; omega)
      exact ⟨none,_,by simp [freed],fresh'.withoutAll⟩
    | true =>
      obtain ⟨⟨all,memory₃⟩,looped,items',nodes',owned',fresh'',few,head'',entries'',copied⟩ :=
        loop (by rwa [List.append_nil]) head'
      have list' : ListAt memory₃ typed ret type nodes' (ret :: (front' ++ owned')) :=
        ⟨items',front',owned',head'',entries'',rfl⟩
      have fewer : (ret :: (front' ++ owned')).length ≤ (list :: (front ++ owned)).length := by
        simp only [List.length_cons,List.length_append]
        omega
      have first := fresh'.flink list (there ▸ Option.some_ne_none _)
      simp only [if_true,first,looped,Option.bind_some]
      cases all with
      | false =>
        have freed := nbtFreeList_list list' fresh''.nodup (show _ < fuel by simp only [List.length_cons,List.length_append] at fewer ⊢; omega)
        exact ⟨none,_,by simp [freed],fresh''.withoutAll⟩
      | true => exact ⟨some ret,memory₃,rfl,_,fresh'',fewer,nodes',list',copied rfl⟩

theorem clonePayload_scalar {cloneList : Memory → Ptr → Option (Option Ptr × Memory)} {member : Payload} (value : Scalar)
    (same : member = .scalar value) (empty : cells = []) :
    ∃ result memory', memory.clonePayload alloc cloneList member = some (result,memory') ∧
      Cloned memory memory' cells (fun member' cells' =>
        ∃ payload', PayloadAt memory' typed member' payload' cells' ∧ PayloadCopy value.payload payload') result := by
  subst same empty
  refine ⟨some (.scalar value),memory,rfl,[],.refl memory,Nat.le_refl _,value.payload,?_,?_⟩
  · cases value <;> exact ⟨_,rfl,rfl,rfl⟩
  · cases value <;> rfl

theorem clonePayload_intArray {cloneList : Memory → Ptr → Option (Option Ptr × Memory)} {address : Ptr} {data : List UInt32}
    (there : memory.cell address = some (.block (intBytes data))) :
    ∃ result memory', memory.clonePayload alloc cloneList (.intArray address data.length) = some (result,memory') ∧
      Cloned memory memory' [address] (fun member' cells' =>
        ∃ payload', PayloadAt memory' typed member' payload' cells' ∧ PayloadCopy (.tagIntArray data) payload') result := by
  rcases memory.malloc_eq alloc (data.length * 4) with refused | ⟨copy,memory₁,bytes,got,fresh,_,size,block⟩
  · exact ⟨none,memory,by simp [Memory.clonePayload,refused],.refl memory⟩
  · have source : memory₁.cell address = some (.block (intBytes data)) := by
      rw [fresh.cell address (fresh.notin (there ▸ Option.some_ne_none _)),there]
    have whole := length_intBytes data
    have copied := memcpy_eq source block (show data.length ≤ _ by omega) (show data.length ≤ _ by omega)
    -- The rest of the new array is what was in the memory before.
    obtain ⟨data',length,same⟩ :=
      @intBytes_of_length data.length ((intBytes data).take data.length ++ bytes.drop data.length) (by
        rw [List.length_append,List.length_take,List.length_drop]
        omega)
    refine ⟨some (.intArray copy data.length),_,by simp only [Memory.clonePayload,got,copied]; rfl,[copy],
      fresh.put (List.mem_singleton_self _),Nat.le_refl _,.tagIntArray data',⟨copy,by rw [length],?_,rfl⟩,data',rfl,length,?_⟩
    · rw [Memory.put_cell,same]
    · rw [same,List.take_append_of_le_length (by rw [List.length_take]; omega),List.take_take,Nat.min_self]

mutual

theorem nbtClone_node : (tree : NbtNode) → {memory : Memory} → {address : Ptr} → {cells : List Ptr} →
    NodeAt memory typed address tree cells → {fuel : Nat} → cells.length + 1 < fuel →
    ∃ result memory', nbtClone alloc fuel memory (some address) = some (result,memory') ∧
      Cloned memory memory' cells (fun copy cells' => ∃ tree', NodeAt memory' typed copy tree' cells' ∧ NodeCopy tree tree')
        result
  | .mk name payload,memory,address,_,at',fuel + 1,enough => by
    obtain ⟨nameAddress,member,named,owned,there,name',inside,rfl⟩ := at'
    simp only [List.length_cons,List.length_append] at enough
    rcases memory.malloc_eq alloc sizeofNode with refused | ⟨ret,memory₁,bytes,got,fresh,_,_,block⟩
    · exact ⟨none,memory,by simp [nbtClone,there,refused],.refl memory⟩
    · have name₁ := name'.frame (fresh.same name'.live)
      obtain ⟨copy,memory₂,named',duplicated,fresh₂,_,few,named₂⟩ := safeStrdup_eq alloc name₁
      simp only [nbtClone,there,got,duplicated,Option.bind_eq_bind,Option.bind_some]
      have both : Fresh memory memory₂ (ret :: named') := fresh.trans fresh₂
      have still : memory₂.cell ret = some (.block bytes) :=
        (fresh₂.cell ret (List.nodup_cons.mp both.nodup).1).trans block
      by_cases lost : nameAddress.isSome ∧ copy.isNone
      · rw [if_pos lost] at named₂ ⊢
        have nothing : NameAt memory₂ copy none named' := by
          rw [Option.isNone_iff_eq_none.mp lost.2]
          exact named₂
        obtain ⟨memory₃,freed,fresh₃⟩ := cloneError_eq both still nothing
        exact ⟨none,memory₃,freed,fresh₃⟩
      · rw [if_neg lost] at named₂ ⊢
        have source := PayloadAt.frame payload inside (both.same (PayloadAt.live payload inside))
        obtain ⟨result,memory₃,cloned,outcome⟩ := clonePayload_payload payload source (show owned.length + 1 < fuel by omega)
        simp only [cloned,Option.bind_some]
        cases result with
        | none =>
          have fresh₃ : Fresh memory memory₃ (ret :: named') := by simpa using both.trans outcome
          obtain ⟨memory₄,freed,fresh₄⟩ := cloneError_eq fresh₃ ((outcome.cell ret List.not_mem_nil).trans still)
            (named₂.frame (outcome.same named₂.live))
          exact ⟨none,memory₄,freed,fresh₄⟩
        | some member' =>
          obtain ⟨owned',fresh₃,few',payload',member₃,copied⟩ := outcome
          have all : Fresh memory memory₃ (ret :: (named' ++ owned')) := both.trans fresh₃
          have away := (List.nodup_cons.mp all.nodup).1
          rw [List.mem_append,not_or] at away
          refine ⟨some ret,_,rfl,ret :: (named' ++ owned'),all.put (List.mem_cons_self ..),?_,.mk (name.map cString) payload',
            ⟨copy,member',named',owned',Memory.put_cell ..,?_,?_,rfl⟩,payload',rfl,copied⟩
          · simp only [List.length_cons,List.length_append]
            omega
          · exact (named₂.frame (fresh₃.same named₂.live)).frame (.put away.1)
          · exact PayloadAt.frame payload' member₃ (.put away.2)

theorem clonePayload_payload : (payload : NbtPayload) → {memory : Memory} → {member : Payload} → {cells : List Ptr} →
    PayloadAt memory typed member payload cells → {fuel : Nat} → cells.length + 1 < fuel →
    ∃ result memory', memory.clonePayload alloc (fun memory list => cloneList alloc fuel memory list) member =
        some (result,memory') ∧
      Cloned memory memory' cells
        (fun member' cells' => ∃ payload', PayloadAt memory' typed member' payload' cells' ∧ PayloadCopy payload payload')
        result
  | .tagByte _,_,_,_,⟨scalar,member,same,empty⟩,_,_ => same ▸ clonePayload_scalar scalar member empty
  | .tagShort _,_,_,_,⟨scalar,member,same,empty⟩,_,_ => same ▸ clonePayload_scalar scalar member empty
  | .tagInt _,_,_,_,⟨scalar,member,same,empty⟩,_,_ => same ▸ clonePayload_scalar scalar member empty
  | .tagLong _,_,_,_,⟨scalar,member,same,empty⟩,_,_ => same ▸ clonePayload_scalar scalar member empty
  | .tagFloat _,_,_,_,⟨scalar,member,same,empty⟩,_,_ => same ▸ clonePayload_scalar scalar member empty
  | .tagDouble _,_,_,_,⟨scalar,member,same,empty⟩,_,_ => same ▸ clonePayload_scalar scalar member empty
  | .tagByteArray data,memory,_,_,⟨address,member,there,one⟩,_,_ => by
    subst member one
    rcases memory.malloc_eq alloc data.length with refused | ⟨copy,memory₁,bytes,got,fresh,_,size,block⟩
    · exact ⟨none,memory,by simp [Memory.clonePayload,refused],.refl memory⟩
    · have source : memory₁.cell address = some (.block data) := by
        rw [fresh.cell address (fresh.notin (there ▸ Option.some_ne_none _)),there]
      have copied := memcpy_eq source block (Nat.le_refl _) (Nat.le_of_eq size.symm)
      rw [List.take_length,← size,List.drop_length,List.append_nil] at copied
      refine ⟨some (.byteArray copy data.length),_,by simp only [Memory.clonePayload,got]; rw [← size,copied]; rfl,[copy],
        fresh.put (List.mem_singleton_self _),Nat.le_refl _,.tagByteArray data,⟨copy,rfl,Memory.put_cell ..,rfl⟩,rfl⟩
  | .tagIntArray data,memory,_,_,⟨address,member,there,one⟩,_,_ => by
    subst member one
    exact clonePayload_intArray there
  | .tagString text,memory,_,_,⟨address,member,there,one⟩,_,_ => by
    subst member one
    rcases nbtStrdup_eq alloc there with refused | ⟨copy,memory',got,fresh,_,copied⟩
    · exact ⟨none,memory,by simp [Memory.clonePayload,refused],.refl memory⟩
    · exact ⟨some (.string copy),memory',by simp [Memory.clonePayload,got],[copy],fresh,Nat.le_refl _,
        .tagString (cString text),⟨copy,rfl,copied,rfl⟩,rfl⟩
  | .tagList type entries,memory,_,_,⟨list,items,front,owned,member,head,inside,all⟩,fuel + 1,enough => by
    subst member all
    obtain ⟨result,memory',ran,cloned⟩ := cloneList_eq head (Nat.lt_of_succ_lt_succ enough) fun fresh head' =>
      cloneEntries_nodes entries inside head.choose_spec.2.2.onward fresh head'
        (show EntriesAt _ typed [] [] [] from ⟨rfl,rfl⟩) (by simp only [List.length_cons,List.length_append] at enough; omega)
    refine ⟨result.map .list,memory',by simp [Memory.clonePayload,ran],cloned.map _ fun copy cells' done => ?_⟩
    obtain ⟨nodes',⟨items',front',owned',head',inside',rfl⟩,copies⟩ := done
    exact ⟨.tagList type nodes',⟨copy,items',front',owned',rfl,head',inside',rfl⟩,nodes',rfl,copies⟩
  | .tagCompound entries,memory,_,_,⟨list,items,front,owned,member,head,inside,all⟩,fuel + 1,enough => by
    subst member all
    obtain ⟨result,memory',ran,cloned⟩ := cloneList_eq head (Nat.lt_of_succ_lt_succ enough) fun fresh head' =>
      cloneEntries_nodes entries inside head.choose_spec.2.2.onward fresh head'
        (show EntriesAt _ typed [] [] [] from ⟨rfl,rfl⟩) (by simp only [List.length_cons,List.length_append] at enough; omega)
    refine ⟨result.map .compound,memory',by simp [Memory.clonePayload,ran],cloned.map _ fun copy cells' done => ?_⟩
    obtain ⟨nodes',⟨items',front',owned',head',inside',rfl⟩,copies⟩ := done
    exact ⟨.tagCompound nodes',⟨copy,items',front',owned',rfl,head',inside',rfl⟩,nodes',rfl,copies⟩

theorem cloneEntries_nodes : (nodes : List NbtNode) → {base memory : Memory} → {list pos ret : Ptr} →
    {type : Option UInt8} → {front items cells items' owned' : List Ptr} → {before : List NbtNode} →
    EntriesAt base typed items nodes cells → Onward base.links list pos items →
    Fresh base memory (ret :: (front ++ owned')) → HeadAt memory ret type items' front →
    EntriesAt memory typed items' before owned' → {fuel : Nat} → cells.length + 1 < fuel →
    ∃ result, cloneEntries alloc fuel memory list pos ret = some result ∧
      EntriesCloned base typed ret type front items' owned' before nodes cells result
  | [],_,memory,_,_,_,_,_,_,_,_,_,_,at',onward,fresh,head,entries,fuel + 1,_ => by
    obtain ⟨rfl,rfl⟩ := at'
    refine ⟨(true,memory),by rw [cloneEntries,if_pos onward.nil],[],[],[],?_,Nat.le_refl _,?_,?_,fun _ => rfl⟩
    · rwa [List.append_nil]
    · rwa [List.append_nil]
    · rwa [List.append_nil,List.append_nil,List.append_nil]
  | node::nodes,base,memory,list,pos,ret,type,front,_,_,items',owned',before,at',onward,fresh,head,entries,fuel + 1,enough => by
    obtain ⟨item,rest,data,inner,owned,rfl,there,first,later,rfl⟩ := at'
    obtain ⟨rfl,away,onward⟩ := onward.cons
    simp only [List.length_cons,List.length_append] at enough
    have found : memory.entryData pos = some (some data) := by
      refine Memory.entryData_eq ?_
      rw [fresh.cell pos (fresh.notin (there ▸ Option.some_ne_none _)),there]
    rw [cloneEntries,if_neg away]
    simp only [found,Option.bind_eq_bind,Option.bind_some]
    rcases memory.malloc_eq alloc sizeofList with refused | ⟨new,memory₁,_,got,fresh₁,_,_,block⟩
    · exact ⟨(false,memory),by rw [refused],EntriesCloned.stay fresh head entries (.refl memory)⟩
    · have source := NodeAt.frame node first ((fresh.trans fresh₁).same (NodeAt.live node first))
      obtain ⟨result,memory₂,cloned,outcome⟩ := nbtClone_node node source (show inner.length + 1 < fuel by omega)
      simp only [got,cloned,Option.bind_some]
      cases result with
      | none =>
        have fresh₂ : Fresh memory memory₂ [new] := fresh₁.trans outcome
        have still : memory₂.cell new = some (.block _) := (outcome.cell new List.not_mem_nil).trans block
        refine ⟨(false,memory₂.without [new]),by simp [Memory.free_eq still],EntriesCloned.stay fresh head entries ?_⟩
        exact fresh₂.withoutAll
      | some copy =>
        obtain ⟨inner',fresh₂,few,tree',node',copied⟩ := outcome
        have later' : Fresh memory (memory₂.put new (.entry (some copy))) (new :: inner') :=
          (fresh₁.trans fresh₂).put (List.mem_cons_self ..)
        have unused := (List.nodup_cons.mp later'.nodup).1
        obtain ⟨fresh₃,head₃,entries₃⟩ := entries_addTail fresh head entries later' (Memory.put_cell ..)
          (NodeAt.frame tree' node' (.put unused))
        have next := fresh₃.flink pos (there ▸ Option.some_ne_none _)
        obtain ⟨result,ran,items'',nodes'',owned'',fresh₄,few',head₄,entries₄,copies⟩ :=
          cloneEntries_nodes nodes later onward fresh₃ head₃ entries₃ (show owned.length + 1 < fuel by omega)
        rw [← next] at ran
        refine ⟨result,ran,new :: items'',tree' :: nodes'',new :: (inner' ++ owned''),?_,?_,?_,?_,
          fun all => ⟨tree',nodes'',rfl,copied,copies all⟩⟩
        · simpa using fresh₄
        · simp only [List.length_cons,List.length_append]
          omega
        · simpa using head₄
        · simpa using entries₄

end

/-- The copy is somewhere else, the tree stays what it is, and freeing the copy leaves no trace of it. If any
allocation is refused, nothing is left behind. -/
theorem nbtClone_result {tree : NbtNode} {address : Ptr} (at' : NodeAt memory typed address tree cells) {fuel : Nat}
    (enough : cells.length + 1 < fuel) :
    ∃ result memory', nbtClone alloc fuel memory (some address) = some (result,memory') ∧
      NodeAt memory' typed address tree cells ∧
      match result with
      | none => memory'.cell = memory.cell
      | some copy => ∃ tree' cells', NodeAt memory' typed copy tree' cells' ∧ NodeCopy tree tree' ∧
          (∀ one ∈ cells', memory.cell one = none) ∧ (∀ one, one ∉ cells' → memory'.cell one = memory.cell one) ∧
          ∃ memory'', nbtFree fuel memory' (some copy) = some memory'' ∧ memory''.cell = memory.cell := by
  obtain ⟨result,memory',ran,outcome⟩ := @nbtClone_node alloc typed tree memory address cells at' fuel enough
  refine ⟨result,memory',ran,?_⟩
  cases result with
  | none => exact ⟨NodeAt.frame tree at' (outcome.same (NodeAt.live tree at')),funext fun one => outcome.cell one List.not_mem_nil⟩
  | some copy =>
    obtain ⟨cells',fresh,few,tree',node,copied⟩ := outcome
    refine ⟨NodeAt.frame tree at' (fresh.same (NodeAt.live tree at')),tree',cells',node,copied,fresh.free,fresh.cell,_,
      nbtFree_node tree' node fresh.nodup (by omega),funext fun one => fresh.withoutAll.cell one List.not_mem_nil⟩

end Parts

/-- All the memory that it takes, or one block too little. -/
theorem sampleMemory_cloned : (∃ memory' tree' cells', nbtClone (sampleAllocator 8) 16 sampleMemory (some 1) =
      some (some 8,memory') ∧ NodeAt memory' true 1 sampleTree [1,2,3,4,5,6,7] ∧ NodeAt memory' true 8 tree' cells' ∧
      NodeCopy sampleTree tree') ∧
    ∃ memory', nbtClone (sampleAllocator 6) 16 sampleMemory (some 1) = some (none,memory') ∧
      memory'.cell = sampleMemory.cell := by
  have result := fun base => @nbtClone_result (sampleAllocator base) sampleMemory true _ sampleTree 1 sampleMemory_at 16 (by decide)
  constructor
  · obtain ⟨result,memory',ran,still,outcome⟩ := result 8
    have found : (nbtClone (sampleAllocator 8) 16 sampleMemory (some 1)).map Prod.fst = some (some 8) := rfl
    rw [ran,Option.map_some,Option.some.injEq] at found
    subst found
    obtain ⟨tree',cells',copied,copy,_⟩ := outcome
    exact ⟨memory',tree',cells',ran,still,copied,copy⟩
  · obtain ⟨result,memory',ran,_,outcome⟩ := result 6
    have found : (nbtClone (sampleAllocator 6) 16 sampleMemory (some 1)).map Prod.fst = some none := rfl
    rw [ran,Option.map_some,Option.some.injEq] at found
    subst found
    exact ⟨memory',ran,outcome⟩

end CSpock.Nbt
