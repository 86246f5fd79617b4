import CSpock.Nbt.Filter
import CSpock.Nbt.Write

/-! What `cNBT/nbt_treeops.c` does with a tree that it leaves as it is: it counts the nodes, maps over them
and finds some of them, by a predicate, by a name or by a path. -/
namespace CSpock.Nbt
open CSpock.Library.Circular

mutual

def nbtSize : Nat → Memory → Option Ptr → Option Nat
  | _,_,none => some 0
  | 0,_,some _ => none
  | fuel+1,memory,some tree =>
    match memory.cell tree with
    | some (.node _ payload) =>
      match payload.entries with
      | some list => (nbtFullListLength fuel memory list (memory.links.flink list) 0).map (· + 1)
      | none => some 1
    | _ => none

def nbtFullListLength : Nat → Memory → Ptr → Ptr → Nat → Option Nat
  | 0,_,_,_,_ => none
  | fuel+1,memory,list,pos,accum =>
    if pos = list then some accum
    else do
      let data ← memory.entryData pos
      let size ← nbtSize fuel memory data
      nbtFullListLength fuel memory list (memory.links.flink pos) (accum + size)

end

mutual

def nbtFind (predicate : Ptr → Bool) : Nat → Memory → Option Ptr → Option (Option Ptr)
  | _,_,none => some none
  | 0,_,some _ => none
  | fuel+1,memory,some tree =>
    match memory.cell tree with
    | some (.node _ payload) =>
      if predicate tree then some (some tree)
      else match payload.entries with
        | some list => findEntries predicate fuel memory list (memory.links.flink list)
        | none => some none
    | _ => none

def findEntries (predicate : Ptr → Bool) : Nat → Memory → Ptr → Ptr → Option (Option Ptr)
  | 0,_,_,_ => none
  | fuel+1,memory,list,pos =>
    if pos = list then some none
    else do
      let data ← memory.entryData pos
      match ← nbtFind predicate fuel memory data with
      | some found => some (some found)
      | none => findEntries predicate fuel memory list (memory.links.flink pos)

end

section Mapping
variable {State : Type} (v : Ptr → State → Bool × State)

mutual

/-- The visitor leaves the tree as it is; `State` is what is at `aux`. -/
def nbtMap : Nat → Memory → Option Ptr → State → Option (Bool × State)
  | _,_,none,aux => some (true,aux)
  | 0,_,some _,_ => none
  | fuel+1,memory,some tree,aux =>
    match memory.cell tree with
    | some (.node _ payload) =>
      match v tree aux with
      | (false,aux) => some (false,aux)
      | (true,aux) =>
        match payload.entries with
        | some list => mapEntries fuel memory list (memory.links.flink list) aux
        | none => some (true,aux)
    | _ => none

def mapEntries : Nat → Memory → Ptr → Ptr → State → Option (Bool × State)
  | 0,_,_,_,_ => none
  | fuel+1,memory,list,pos,aux =>
    if pos = list then some (true,aux)
    else do
      let data ← memory.entryData pos
      match ← nbtMap fuel memory data aux with
      | (false,aux) => some (false,aux)
      | (true,aux) => mapEntries fuel memory list (memory.links.flink pos) aux

end

/-- One visit after the other, as long as they return true. -/
def visit : List Ptr → State → Bool × State
  | [],aux => (true,aux)
  | place::places,aux =>
    match v place aux with
    | (false,aux) => (false,aux)
    | (true,aux) => visit places aux

end Mapping

def NbtPayload.children : NbtPayload → List NbtNode
  | .tagList _ entries => entries
  | .tagCompound entries => entries
  | _ => []

mutual

/-- A node comes before what is under it. -/
def NbtNode.nodes : NbtNode → List NbtNode
  | .mk name payload => .mk name payload :: payload.nodes

def NbtPayload.nodes : NbtPayload → List NbtNode
  | .tagList _ entries => nodesIn entries
  | .tagCompound entries => nodesIn entries
  | _ => []

def nodesIn : List NbtNode → List NbtNode
  | [] => []
  | node::nodes => node.nodes ++ nodesIn nodes

end

def namesAreEqual (name : Option (List UInt8)) (memory : Memory) (node : Ptr) : Bool :=
  match memory.cell node,name with
  | some (.node none _),none => true
  | some (.node (some name') _),some name => memory.string name' = some name
  | _,_ => false

def nbtFindByName (fuel : Nat) (memory : Memory) (tree : Option Ptr) (name : Option (List UInt8)) :
    Option (Option Ptr) :=
  nbtFind (namesAreEqual name memory) fuel memory tree

def dot : UInt8 := 46

/-- Of a string that is given without its terminator. -/
def indexOf (s : List UInt8) (c : UInt8) : Nat := (s.takeWhile (· != c)).length

/-- Whether it returns 0. -/
def Memory.partialStrcmp (memory : Memory) (s1 : List UInt8) (len : Nat) : Option Ptr → Option Bool
  | none => some (len = 0)
  | some s2 => do
    let s2 ← memory.string s2
    -- `strncmp` first, then the terminator of `s2`
    some (s1.take len = s2.take len ∧ s2.length ≤ len)

mutual

def nbtFindByPath : Nat → Memory → Option Ptr → List UInt8 → Option (Option Ptr)
  | _,_,none,_ => none
  | 0,_,some _,_ => none
  | fuel+1,memory,some tree,path =>
    match memory.cell tree with
    | some (.node name payload) => do
      let e := indexOf path dot
      let namesMatch ← memory.partialStrcmp path e name
      if namesMatch then
        match path.drop e,payload.entries with
        | [],_ => some (some tree)
        | _::rest,some list => findPathEntries fuel memory list (memory.links.flink list) rest
        | _::_,none => some none
      else some none
    | _ => none

def findPathEntries : Nat → Memory → Ptr → Ptr → List UInt8 → Option (Option Ptr)
  | 0,_,_,_,_ => none
  | fuel+1,memory,list,pos,path =>
    if pos = list then some none
    else do
      let data ← memory.entryData pos
      match ← nbtFindByPath fuel memory data path with
      | some found => some (some found)
      | none => findPathEntries fuel memory list (memory.links.flink pos) path

end

mutual

/-- All that a path of names leads to. A node without a name goes by an empty one. -/
def NbtNode.route : NbtNode → List UInt8 → List NbtNode
  | .mk name payload,path =>
    if name.elim [] cString = path.takeWhile (· != dot) then
      match path.dropWhile (· != dot) with
      | [] => [.mk name payload]
      | _::rest => payload.route rest
    else []

def NbtPayload.route : NbtPayload → List UInt8 → List NbtNode
  | .tagList _ entries,path => routeIn entries path
  | .tagCompound entries,path => routeIn entries path
  | _,_ => []

def routeIn : List NbtNode → List UInt8 → List NbtNode
  | [],_ => []
  | node::nodes,path => node.route path ++ routeIn nodes path

end

mutual

/-- Where these nodes are among all nodes of the tree. -/
def NbtNode.routeAt : NbtNode → List UInt8 → List Nat
  | .mk name payload,path =>
    if name.elim [] cString = path.takeWhile (· != dot) then
      match path.dropWhile (· != dot) with
      | [] => [0]
      | _::rest => (payload.routeAt rest).map (1 + ·)
    else []

def NbtPayload.routeAt : NbtPayload → List UInt8 → List Nat
  | .tagList _ entries,path => routeAtIn entries path
  | .tagCompound entries,path => routeAtIn entries path
  | _,_ => []

def routeAtIn : List NbtNode → List UInt8 → List Nat
  | [],_ => []
  | node::nodes,path => node.routeAt path ++ (routeAtIn nodes path).map (node.nodes.length + ·)

end

/-- Where an entry of a list or compound is among all nodes of the tree. -/
def NbtNode.childAt (tree : NbtNode) (n : Nat) : Nat := 1 + (nodesIn (tree.payload.children.take n)).length

/-- The loop of `nbt_list_item`, which counts in an `int`. -/
def itemFrom (memory : Memory) (list : Ptr) (n : Int) : Nat → Ptr → Nat → Option (Option Ptr)
  | 0,_,_ => none
  | fuel+1,pos,i =>
    if pos = list then some none
    else if 2^31 ≤ i + 1 then none
    else if (i : Int) = n then memory.entryData pos
    else itemFrom memory list n fuel (memory.links.flink pos) (i + 1)

def nbtListItem (fuel : Nat) (memory : Memory) (list : Option Ptr) (n : Int) : Option (Option Ptr) :=
  match list with
  | none => some none
  | some tree =>
    match memory.cell tree with
    | some (.node _ payload) =>
      match payload.entries with
      | some list => itemFrom memory list n fuel (memory.links.flink list) 0
      | none => some none
    | _ => none

/-- There is a tree at each place. -/
def Places (memory : Memory) (typed : Bool) : List Ptr → List NbtNode → Prop :=
  List.Forall₂ fun place node => ∃ cells, NodeAt memory typed place node cells

/-- The functions go through the nodes in their order, each at a place of its own. -/
structure Visits (memory : Memory) (typed : Bool) (fuel : Nat) (address : Ptr) (nodes : List NbtNode)
    (cells places : List Ptr) : Prop where
  there : Places memory typed places nodes
  order : places.Sublist cells
  size : nbtSize fuel memory (some address) = some places.length
  find : ∀ predicate, nbtFind predicate fuel memory (some address) = some (places.find? predicate)
  map : ∀ (State : Type) (v : Ptr → State → Bool × State) (aux : State),
    nbtMap v fuel memory (some address) aux = some (visit v places aux)

/-- So do their loops, for what is left of a list. -/
structure VisitsFrom (memory : Memory) (typed : Bool) (fuel : Nat) (list pos : Ptr) (nodes : List NbtNode)
    (cells places : List Ptr) : Prop where
  there : Places memory typed places nodes
  order : places.Sublist cells
  size : ∀ accum, nbtFullListLength fuel memory list pos accum = some (accum + places.length)
  find : ∀ predicate, findEntries predicate fuel memory list pos = some (places.find? predicate)
  map : ∀ (State : Type) (v : Ptr → State → Bool × State) (aux : State),
    mapEntries v fuel memory list pos aux = some (visit v places aux)

section Results
variable {memory : Memory} {typed : Bool} {cells : List Ptr}

theorem PayloadAt.entries {member : Payload} {payload : NbtPayload}
    (at' : PayloadAt memory typed member payload cells) :
    (member.entries = none ∧ payload.children = []) ∨
      ∃ list items owned, member.entries = some list ∧ Circle memory.links list items ∧
        EntriesAt memory typed items payload.children owned ∧ owned.Sublist cells := by
  cases payload with
  | tagByteArray => obtain ⟨_,rfl,_⟩ := at'; exact .inl ⟨rfl,rfl⟩
  | tagIntArray => obtain ⟨_,rfl,_⟩ := at'; exact .inl ⟨rfl,rfl⟩
  | tagString => obtain ⟨_,rfl,_⟩ := at'; exact .inl ⟨rfl,rfl⟩
  | tagList =>
    obtain ⟨list,items,front,owned,rfl,⟨_,_,_,circle⟩,inside,rfl⟩ := at'
    exact .inr ⟨list,items,owned,rfl,circle,inside,.cons _ (List.sublist_append_right ..)⟩
  | tagCompound =>
    obtain ⟨list,items,front,owned,rfl,⟨_,_,_,circle⟩,inside,rfl⟩ := at'
    exact .inr ⟨list,items,owned,rfl,circle,inside,.cons _ (List.sublist_append_right ..)⟩
  | _ => obtain ⟨_,rfl,_⟩ := at'; exact .inl ⟨rfl,rfl⟩

theorem NodeAt.root_mem {tree : NbtNode} {address : Ptr} (at' : NodeAt memory typed address tree cells) :
    address ∈ cells := by
  obtain ⟨name,payload⟩ := tree
  obtain ⟨_,_,_,_,_,_,_,rfl⟩ := at'
  exact List.mem_cons_self ..

theorem nodes_children (tree : NbtNode) : tree.nodes = tree :: nodesIn tree.payload.children := by
  obtain ⟨name,payload⟩ := tree
  cases payload <;> rfl

theorem visit_append {State : Type} (v : Ptr → State → Bool × State) (front back : List Ptr) (aux : State) :
    visit v (front ++ back) aux = match visit v front aux with
      | (false,aux) => (false,aux)
      | (true,aux) => visit v back aux := by
  induction front generalizing aux with
  | nil => rfl
  | cons place front ih =>
    rw [List.cons_append,visit,visit]
    rcases v place aux with ⟨_ | _,next⟩
    · rfl
    · exact ih next

/-- What holds of a walk through a tree, by induction on its fuel: of a node that has no entries and of one that has,
at the end of a loop and at one more entry of it. -/
theorem walk (memory : Memory) (typed : Bool) (P : Nat → NbtNode → Ptr → List Ptr → Prop)
    (Q : Nat → List NbtNode → Ptr → Ptr → List Ptr → Prop)
    (leaf : ∀ {fuel : Nat} {tree : NbtNode} {address : Ptr} {cells : List Ptr} {name : Option Ptr} {member : Payload}
      {named : List Ptr}, NodeAt memory typed address tree cells → memory.cell address = some (.node name member) →
      NameAt memory name tree.name named → member.entries = none → tree.payload.children = [] →
      P (fuel + 1) tree address cells)
    (branch : ∀ {fuel : Nat} {tree : NbtNode} {address list : Ptr} {cells owned : List Ptr} {name : Option Ptr}
      {member : Payload} {named : List Ptr}, NodeAt memory typed address tree cells →
      memory.cell address = some (.node name member) → NameAt memory name tree.name named → member.entries = some list →
      (address :: owned).Sublist cells → Q fuel tree.payload.children list (memory.links.flink list) owned →
      P (fuel + 1) tree address cells)
    (done : ∀ {fuel : Nat} {list : Ptr}, Q (fuel + 1) [] list list [])
    (entry : ∀ {fuel : Nat} {tree : NbtNode} {nodes : List NbtNode} {list pos data : Ptr} {inner owned : List Ptr},
      pos ≠ list → memory.entryData pos = some (some data) → P fuel tree data inner →
      Q fuel nodes list (memory.links.flink pos) owned →
      Q (fuel + 1) (tree :: nodes) list pos (pos :: (inner ++ owned)))
    (fuel : Nat) :
    (∀ {tree : NbtNode} {address : Ptr} {cells : List Ptr}, NodeAt memory typed address tree cells →
      cells.length < fuel → P fuel tree address cells) ∧
    ∀ {nodes : List NbtNode} {list pos : Ptr} {items cells : List Ptr}, EntriesAt memory typed items nodes cells →
      Onward memory.links list pos items → cells.length < fuel → Q fuel nodes list pos cells := by
  induction fuel with
  | zero =>
    exact ⟨fun _ enough => absurd enough (Nat.not_lt_zero _),fun _ _ enough => absurd enough (Nat.not_lt_zero _)⟩
  | succ fuel ih =>
    constructor
    · rintro ⟨name,payload⟩ address cells at' enough
      have here := at'
      obtain ⟨nameAddress,member,named,owned,there,name',inside,rfl⟩ := at'
      simp only [List.length_cons,List.length_append] at enough
      rcases inside.entries with ⟨childless,empty⟩ | ⟨list,items,owned',entries,circle,inside,part⟩
      · exact leaf here there name' childless empty
      · have fewer := part.length_le
        have part' := (part.trans (List.sublist_append_right named owned)).cons_cons address
        exact branch here there name' entries part' (ih.2 inside circle.onward (by omega))
    · intro nodes list pos items cells at' onward enough
      cases nodes with
      | nil =>
        obtain ⟨rfl,rfl⟩ := at'
        obtain rfl := onward.nil
        exact done
      | cons node nodes =>
        obtain ⟨item,rest,data,inner,owned,rfl,there,first,later,rfl⟩ := at'
        obtain ⟨rfl,away,onward⟩ := onward.cons
        simp only [List.length_cons,List.length_append] at enough
        exact entry away (Memory.entryData_eq there) (ih.1 first (by omega)) (ih.2 later onward (by omega))

section Cases
variable {fuel : Nat} {tree : NbtNode} {nodes : List NbtNode} {address list pos data : Ptr} {name : Option Ptr}
  {member : Payload} {inner owned front back places : List Ptr}

theorem Visits.leaf (here : NodeAt memory typed address tree cells) (there : memory.cell address = some (.node name member))
    (childless : member.entries = none) (empty : tree.payload.children = []) :
    Visits memory typed (fuel+1) address tree.nodes cells [address] := by
  refine ⟨?_,?_,?_,fun predicate => ?_,fun State v aux => ?_⟩
  · rw [nodes_children,empty]
    exact .cons ⟨cells,here⟩ .nil
  · exact List.singleton_sublist.mpr here.root_mem
  · simp only [nbtSize,there,childless,List.length_singleton]
  · simp only [nbtFind,there,childless,List.find?_cons,List.find?_nil]
    split <;> simp_all
  · simp only [nbtMap,there,childless,visit]
    rcases v address aux with ⟨_ | _,next⟩ <;> rfl

theorem Visits.branch (here : NodeAt memory typed address tree cells)
    (there : memory.cell address = some (.node name member)) (entries : member.entries = some list)
    (part : (address :: owned).Sublist cells)
    (inside : VisitsFrom memory typed fuel list (memory.links.flink list) (nodesIn tree.payload.children) owned places) :
    Visits memory typed (fuel+1) address tree.nodes cells (address :: places) := by
  obtain ⟨all,order,size,find,map⟩ := inside
  refine ⟨?_,(order.cons_cons address).trans part,?_,fun predicate => ?_,fun State v aux => ?_⟩
  · rw [nodes_children]
    exact .cons ⟨cells,here⟩ all
  · simp only [nbtSize,there,entries,size,Option.map_some,List.length_cons,Nat.zero_add]
  · simp only [nbtFind,there,entries,find,List.find?_cons]
    split <;> simp_all
  · simp only [nbtMap,there,entries,map,visit]
    rcases v address aux with ⟨_ | _,next⟩ <;> rfl

theorem VisitsFrom.done : VisitsFrom memory typed (fuel+1) list list (nodesIn []) [] [] := by
  refine ⟨.nil,List.nil_sublist _,fun accum => ?_,fun predicate => ?_,fun State v aux => ?_⟩
  · rw [nbtFullListLength,if_pos rfl]
    rfl
  · rw [findEntries,if_pos rfl]
    rfl
  · rw [mapEntries,if_pos rfl]
    rfl

theorem VisitsFrom.entry (away : pos ≠ list) (read : memory.entryData pos = some (some data))
    (first : Visits memory typed fuel data tree.nodes inner front)
    (later : VisitsFrom memory typed fuel list (memory.links.flink pos) (nodesIn nodes) owned back) :
    VisitsFrom memory typed (fuel+1) list pos (nodesIn (tree :: nodes)) (pos :: (inner ++ owned)) (front ++ back) := by
  obtain ⟨here,order,size,find,map⟩ := first
  obtain ⟨behind,order',size',find',map'⟩ := later
  refine ⟨List.rel_append here behind,?_,fun accum => ?_,fun predicate => ?_,fun State v aux => ?_⟩
  · exact (order.append order').cons _
  · simp only [nbtFullListLength,if_neg away,read,size,size',Option.bind_eq_bind,Option.bind_some,
      List.length_append,Nat.add_assoc]
  · simp only [findEntries,if_neg away,read,find,find',Option.bind_eq_bind,Option.bind_some,List.find?_append]
    cases front.find? predicate <;> rfl
  · simp only [mapEntries,if_neg away,read,map,map',Option.bind_eq_bind,Option.bind_some,visit_append]
    rcases visit v front aux with ⟨_ | _,next⟩ <;> rfl

end Cases

theorem indexOf_split (path : List UInt8) (c : UInt8) :
    path.take (indexOf path c) = path.takeWhile (· != c) ∧ path.drop (indexOf path c) = path.dropWhile (· != c) := by
  constructor
  · exact (List.prefix_iff_eq_take.mp (List.takeWhile_prefix _)).symm
  · exact (congrArg (List.drop (indexOf path c)) List.takeWhile_append_dropWhile).symm.trans List.drop_left

theorem partialStrcmp_eq (path : List UInt8) {address : Option Ptr} {name : Option (List UInt8)} {named : List Ptr}
    (at' : NameAt memory address name named) :
    memory.partialStrcmp path (indexOf path dot) address =
      some (decide (name.elim [] cString = path.takeWhile (· != dot))) := by
  cases address <;> cases name <;> simp only [NameAt] at at'
  · refine congrArg some (decide_eq_decide.mpr ?_)
    rw [indexOf,List.length_eq_zero_iff]
    exact eq_comm
  · next name =>
    simp only [Memory.partialStrcmp,string_eq at'.1,Option.bind_eq_bind,Option.bind_some,Option.some.injEq,
      Option.elim_some,(indexOf_split path dot).1]
    refine decide_eq_decide.mpr ⟨?_,?_⟩
    · rintro ⟨same,short⟩
      rw [same,List.take_of_length_le short]
    · intro same
      have long : (cString name).length = indexOf path dot := congrArg List.length same
      exact ⟨by rw [← long,List.take_length,same],long.le⟩

theorem routeAt_children (tree : NbtNode) (path : List UInt8) :
    tree.routeAt path =
      if tree.name.elim [] cString = path.takeWhile (· != dot) then
        match path.dropWhile (· != dot) with
        | [] => [0]
        | _::rest => (routeAtIn tree.payload.children rest).map (1 + ·)
      else [] := by
  obtain ⟨name,payload⟩ := tree
  cases payload <;> rfl

mutual

theorem NbtNode.routeAt_nodes : (tree : NbtNode) → (path : List UInt8) →
    (tree.routeAt path).map (tree.nodes[·]?) = (tree.route path).map some
  | .mk name payload,path => by
    simp only [NbtNode.routeAt,NbtNode.route,NbtNode.nodes]
    split
    next =>
      split
      next => rfl
      next rest _ =>
        rw [List.map_map,← payload.routeAt_nodes rest]
        refine List.map_congr_left fun i _ => ?_
        rw [Function.comp_apply,Nat.add_comm,List.getElem?_cons_succ]
    next => rfl

theorem NbtPayload.routeAt_nodes : (payload : NbtPayload) → (path : List UInt8) →
    (payload.routeAt path).map (payload.nodes[·]?) = (payload.route path).map some
  | .tagList _ entries,path => routeAtIn_nodes entries path
  | .tagCompound entries,path => routeAtIn_nodes entries path
  | .tagByte _,_ => rfl
  | .tagShort _,_ => rfl
  | .tagInt _,_ => rfl
  | .tagLong _,_ => rfl
  | .tagFloat _,_ => rfl
  | .tagDouble _,_ => rfl
  | .tagByteArray _,_ => rfl
  | .tagString _,_ => rfl
  | .tagIntArray _,_ => rfl
  | .tagNegativeIntArray _ _,_ => rfl

theorem routeAtIn_nodes : (nodes : List NbtNode) → (path : List UInt8) →
    (routeAtIn nodes path).map ((nodesIn nodes)[·]?) = (routeIn nodes path).map some
  | [],_ => rfl
  | node::nodes,path => by
    have first := node.routeAt_nodes path
    simp only [routeAtIn,routeIn,nodesIn,List.map_append,List.map_map,← first,← routeAtIn_nodes nodes path]
    congr 1
    · refine List.map_congr_left fun i member => List.getElem?_append_left ?_
      have there : node.nodes[i]? ∈ (node.route path).map some := first ▸ List.mem_map_of_mem member
      obtain ⟨found,_,same⟩ := List.mem_map.mp there
      exact (List.getElem?_eq_some_iff.mp same.symm).1
    · refine List.map_congr_left fun i _ => ?_
      rw [Function.comp_apply,List.getElem?_append_right (Nat.le_add_right ..),Nat.add_sub_cancel_left]

end

theorem routeAt_lt {tree : NbtNode} {path : List UInt8} {i : Nat} (member : i ∈ tree.routeAt path) :
    i < tree.nodes.length := by
  have there : tree.nodes[i]? ∈ (tree.route path).map some := tree.routeAt_nodes path ▸ List.mem_map_of_mem member
  obtain ⟨found,_,same⟩ := List.mem_map.mp there
  exact (List.getElem?_eq_some_iff.mp same.symm).1

mutual

theorem NbtNode.routeAt_sorted : (tree : NbtNode) → (path : List UInt8) → (tree.routeAt path).Pairwise (· < ·)
  | .mk name payload,path => by
    simp only [NbtNode.routeAt]
    split
    next =>
      split
      next => exact List.pairwise_singleton _ 0
      next rest _ => exact (payload.routeAt_sorted rest).map _ fun _ _ less => Nat.add_lt_add_left less 1
    next => exact .nil

theorem NbtPayload.routeAt_sorted : (payload : NbtPayload) → (path : List UInt8) →
    (payload.routeAt path).Pairwise (· < ·)
  | .tagList _ entries,path => routeAtIn_sorted entries path
  | .tagCompound entries,path => routeAtIn_sorted entries path
  | .tagByte _,_ => .nil
  | .tagShort _,_ => .nil
  | .tagInt _,_ => .nil
  | .tagLong _,_ => .nil
  | .tagFloat _,_ => .nil
  | .tagDouble _,_ => .nil
  | .tagByteArray _,_ => .nil
  | .tagString _,_ => .nil
  | .tagIntArray _,_ => .nil
  | .tagNegativeIntArray _ _,_ => .nil

theorem routeAtIn_sorted : (nodes : List NbtNode) → (path : List UInt8) → (routeAtIn nodes path).Pairwise (· < ·)
  | [],_ => .nil
  | node::nodes,path => by
    have behind := (routeAtIn_sorted nodes path).map (node.nodes.length + ·) fun _ _ less => Nat.add_lt_add_left less _
    refine List.pairwise_append.mpr ⟨node.routeAt_sorted path,behind,fun i first j later => ?_⟩
    have inside := routeAt_lt first
    obtain ⟨k,_,rfl⟩ := List.mem_map.mp later
    omega

end

/-- With these places, what the functions find that go for a path or for an entry. -/
structure Finds (memory : Memory) (typed : Bool) (fuel : Nat) (address : Ptr) (tree : NbtNode)
    (cells places : List Ptr) : Prop where
  visits : Visits memory typed fuel address tree.nodes cells places
  root : places[0]? = some address
  path : ∀ path, nbtFindByPath fuel memory (some address) path = some ((tree.routeAt path).head?.bind (places[·]?))
  item : tree.payload.children.length < 2^31 → ∀ n, nbtListItem fuel memory (some address) n =
    some (if n < 0 ∨ tree.payload.children.length ≤ n then none else places[tree.childAt n.toNat]?)

structure FindsFrom (memory : Memory) (typed : Bool) (fuel : Nat) (list pos : Ptr) (nodes : List NbtNode)
    (cells places : List Ptr) : Prop where
  visits : VisitsFrom memory typed fuel list pos (nodesIn nodes) cells places
  path : ∀ path, findPathEntries fuel memory list pos path = some ((routeAtIn nodes path).head?.bind (places[·]?))
  item : ∀ n more i, i + nodes.length < 2^31 → itemFrom memory list n (fuel + more) pos i =
    some (if n < i ∨ i + nodes.length ≤ n then none else places[(nodesIn (nodes.take (n - i).toNat)).length]?)

theorem finds_fuel (memory : Memory) (typed : Bool) (fuel : Nat) :
    (∀ {tree : NbtNode} {address : Ptr} {cells : List Ptr}, NodeAt memory typed address tree cells →
      cells.length < fuel → ∃ places, Finds memory typed fuel address tree cells places) ∧
    ∀ {nodes : List NbtNode} {list pos : Ptr} {items cells : List Ptr}, EntriesAt memory typed items nodes cells →
      Onward memory.links list pos items → cells.length < fuel →
      ∃ places, FindsFrom memory typed fuel list pos nodes cells places := by
  refine walk memory typed
    (fun fuel tree address cells => ∃ places, Finds memory typed fuel address tree cells places)
    (fun fuel nodes list pos cells => ∃ places, FindsFrom memory typed fuel list pos nodes cells places)
    ?leaf ?branch ?done ?entry fuel
  case leaf =>
    intro fuel tree address cells name member named here there name' none empty
    refine ⟨[address],.leaf here there none empty,rfl,fun path => ?_,fun _ n => ?_⟩
    · simp only [nbtFindByPath,there,none,partialStrcmp_eq path name',Option.bind_eq_bind,Option.bind_some,
        decide_eq_true_eq,(indexOf_split path dot).2,routeAt_children,empty]
      split_ifs
      · cases path.dropWhile (· != dot) <;> rfl
      · rfl
    · simp only [nbtListItem,there,none,empty,List.length_nil]
      rw [if_pos (by omega)]
  case branch =>
    rintro fuel tree address list cells owned name member named here there name' entries part ⟨places,inside⟩
    refine ⟨address :: places,.branch here there entries part inside.visits,rfl,fun path => ?_,fun small n => ?_⟩
    · simp only [nbtFindByPath,there,entries,partialStrcmp_eq path name',Option.bind_eq_bind,Option.bind_some,
        decide_eq_true_eq,(indexOf_split path dot).2,routeAt_children]
      split_ifs
      · cases path.dropWhile (· != dot) with
        | nil => rfl
        | cons _ rest =>
          dsimp only
          rw [inside.path rest,List.head?_map,Option.bind_map]
          refine congrArg some (congrArg _ (funext fun i => ?_))
          rw [Function.comp_apply,Nat.add_comm,List.getElem?_cons_succ]
      · rfl
    · have found := inside.item n 1 0 (by omega)
      simp only [nbtListItem,there,entries,found]
      simp [NbtNode.childAt,Nat.add_comm 1]
  case done =>
    intro fuel list
    refine ⟨[],.done,fun path => ?_,fun n more i _ => ?_⟩
    · rw [findPathEntries,if_pos rfl]
      rfl
    · rw [Nat.add_right_comm,itemFrom,if_pos rfl]
      simp
  case entry =>
    rintro fuel tree nodes list pos data inner owned away read ⟨front,first⟩ ⟨back,later⟩
    have length : front.length = tree.nodes.length := first.visits.there.length_eq
    refine ⟨front ++ back,.entry away read first.visits later.visits,fun path => ?_,fun n more i small => ?_⟩
    · simp only [findPathEntries,if_neg away,read,first.path,later.path,Option.bind_eq_bind,Option.bind_some,routeAtIn,
        List.head?_append,List.head?_map]
      cases head : (tree.routeAt path).head? with
      | none =>
        simp only [Option.bind_none,Option.none_or,Option.bind_map]
        refine congrArg some (congrArg _ (funext fun j => ?_))
        rw [Function.comp_apply,List.getElem?_append_right (by omega),length,Nat.add_sub_cancel_left]
      | some j =>
        have inside := routeAt_lt (List.mem_of_head? head)
        rw [← length] at inside
        simp only [Option.bind_some,Option.some_or,List.getElem?_append_left inside,List.getElem?_eq_getElem inside]
    · rw [List.length_cons] at small
      have counts : ¬2^31 ≤ i + 1 := by omega
      rw [Nat.add_right_comm,itemFrom,if_neg away,if_neg counts]
      split
      next same =>
        subst same
        rw [read,if_neg (by rw [List.length_cons]; omega),Int.sub_self]
        have here := (List.getElem?_eq_some_iff.mp first.root).1
        exact congrArg some (first.root.symm.trans (List.getElem?_append_left here).symm)
      next other =>
        rw [later.item n more (i+1) (by omega),List.length_cons]
        by_cases outside : n < i ∨ (i : Int) + (nodes.length + 1 : Nat) ≤ n
        · rw [if_pos outside,if_pos (by omega)]
        · rw [if_neg outside,if_neg (by omega),show (n - i).toNat = (n - (i + 1 : Nat)).toNat + 1 by omega,List.take_succ_cons,
            nodesIn,List.length_append,← length,List.getElem?_append_right (Nat.le_add_right ..),Nat.add_sub_cancel_left]

/-- `nbt_size`, `nbt_find` and `nbt_map` agree on the nodes of a tree and on their order. -/
theorem nbtNodes_visited {tree : NbtNode} {address : Ptr} (at' : NodeAt memory typed address tree cells) {fuel : Nat}
    (enough : cells.length < fuel) : ∃ places, Visits memory typed fuel address tree.nodes cells places :=
  let ⟨places,finds⟩ := (finds_fuel memory typed fuel).1 at' enough
  ⟨places,finds.visits⟩

theorem Places.find {filter : Memory → Ptr → Bool} {keeps : NbtNode → Bool} (looks : Looks typed filter keeps)
    {places : List Ptr} {nodes : List NbtNode} (there : Places memory typed places nodes) :
    places.find? (filter memory) = (nodes.findIdx? keeps).bind (places[·]?) := by
  induction there with
  | nil => rfl
  | @cons place node places nodes here _ ih =>
    have same := looks _ _ _ _ here.choose_spec
    rw [List.find?_cons,List.findIdx?_cons,same]
    cases keeps node with
    | true => rfl
    | false => simp [ih,Option.bind_map]

theorem nbtFind_first {filter : Memory → Ptr → Bool} {keeps : NbtNode → Bool} (looks : Looks typed filter keeps)
    {tree : NbtNode} {address : Ptr} (at' : NodeAt memory typed address tree cells) {fuel : Nat}
    (enough : cells.length < fuel) : ∃ places, Visits memory typed fuel address tree.nodes cells places ∧
      nbtFind (filter memory) fuel memory (some address) = some ((tree.nodes.findIdx? keeps).bind (places[·]?)) := by
  obtain ⟨places,visits⟩ := nbtNodes_visited at' enough
  exact ⟨places,visits,by rw [visits.find,visits.there.find looks]⟩

theorem namesAreEqual_looks (typed : Bool) (name : Option (List UInt8)) :
    Looks typed (namesAreEqual name) fun node => node.name.map cString = name := by
  rintro memory address ⟨name',payload⟩ cells ⟨nameAddress,member,named,owned,there,at',_,_⟩
  cases nameAddress <;> cases name' <;> simp only [NameAt] at at'
  · cases name <;> simp [namesAreEqual,there,NbtNode.name]
  · cases name <;> simp [namesAreEqual,there,NbtNode.name,string_eq at'.1]

theorem nbtFindByName_first (name : Option (List UInt8)) {tree : NbtNode} {address : Ptr}
    (at' : NodeAt memory typed address tree cells) {fuel : Nat} (enough : cells.length < fuel) :
    ∃ places, Visits memory typed fuel address tree.nodes cells places ∧
      nbtFindByName fuel memory (some address) name =
        some ((tree.nodes.findIdx? fun node => node.name.map cString = name).bind (places[·]?)) :=
  nbtFind_first (namesAreEqual_looks typed name) at' enough

/-- The place of the first of the nodes that the path leads to, in the order in which they are visited, and null where
it leads nowhere. -/
theorem nbtFindByPath_leads {tree : NbtNode} {address : Ptr} (at' : NodeAt memory typed address tree cells) {fuel : Nat}
    (enough : cells.length < fuel) : ∃ places, Visits memory typed fuel address tree.nodes cells places ∧
      ∀ path, nbtFindByPath fuel memory (some address) path = some ((tree.routeAt path).head?.bind (places[·]?)) ∧
        (tree.routeAt path).Pairwise (· < ·) ∧
        (tree.routeAt path).map (tree.nodes[·]?) = (tree.route path).map some := by
  obtain ⟨places,finds⟩ := (finds_fuel memory typed fuel).1 at' enough
  exact ⟨places,finds.visits,fun path => ⟨finds.path path,tree.routeAt_sorted path,tree.routeAt_nodes path⟩⟩

theorem nbtListItem_eq {tree : NbtNode} {address : Ptr} (at' : NodeAt memory typed address tree cells)
    {fuel : Nat} (enough : cells.length < fuel) (small : tree.payload.children.length < 2^31) :
    ∃ places, Visits memory typed fuel address tree.nodes cells places ∧
      ∀ n, nbtListItem fuel memory (some address) n =
        some (if n < 0 ∨ tree.payload.children.length ≤ n then none else places[tree.childAt n.toNat]?) := by
  obtain ⟨places,finds⟩ := (finds_fuel memory typed fuel).1 at' enough
  exact ⟨places,finds.visits,finds.item small⟩

end Results

theorem sampleMemory_visited : nbtSize 8 sampleMemory (some 1) = some 3 := by
  obtain ⟨places,visits⟩ := nbtNodes_visited sampleMemory_at (show _ < 8 by decide)
  rw [visits.size,visits.there.length_eq]
  rfl

theorem sampleMemory_led : ∃ places, Visits sampleMemory true 8 1 sampleTree.nodes [1,2,3,4,5,6,7] places ∧
    nbtFindByPath 8 sampleMemory (some 1) [46,65] = some places[2]? := by
  obtain ⟨places,visits,found⟩ := nbtFindByPath_leads sampleMemory_at (show _ < 8 by decide)
  exact ⟨places,visits,(found [46,65]).1⟩

end CSpock.Nbt
