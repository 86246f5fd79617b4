import CSpock.Nbt.Free

/-! Memory from `malloc`, and copies of strings and arrays. -/
namespace CSpock.Nbt
open CSpock.Library.Circular

/-- An allocator finds room that is free, or none. Nobody knows what is in it. -/
structure Allocator where
  pick : Memory → Nat → Option Ptr
  contents : Memory → Nat → List UInt8
  free : ∀ memory size address, pick memory size = some address → memory.cell address = none
  size : ∀ memory size, (contents memory size).length = size

def sampleAllocator (base : Ptr) : Allocator where
  pick memory _ := (List.range' base 8).find? fun address => (memory.cell address).isNone
  contents _ size := List.replicate size 0
  free memory _ address found := by simpa using List.find?_some found
  size _ size := List.length_replicate

def sizeofNode : Nat := 32

def sizeofList : Nat := 24

namespace Memory

def malloc (alloc : Allocator) (memory : Memory) (size : Nat) : Option Ptr × Memory :=
  match alloc.pick memory size with
  | some address => (some address,memory.put address (.block (alloc.contents memory size)))
  | none => (none,memory)

def block (memory : Memory) (address : Ptr) : Option (List UInt8) :=
  match memory.cell address with
  | some (.block bytes) => some bytes
  | _ => none

def memcpy (memory : Memory) (target source : Ptr) (count : Nat) : Option Memory := do
  let old ← memory.block target
  let bytes ← memory.block source
  if bytes.length < count ∨ old.length < count then none
  else some (memory.put target (.block (bytes.take count ++ old.drop count)))

end Memory

/-- The string ends in the block that it is in. -/
def nbtStrdup (alloc : Allocator) (memory : Memory) (text : Ptr) : Option (Option Ptr × Memory) := do
  let bytes ← memory.block text
  let string := cString bytes
  if bytes.length ≤ string.length then none
  else
    match memory.malloc alloc (string.length + 1) with
    | (none,memory) => some (none,memory)
    | (some copy,memory) => some (some copy,memory.put copy (.block (string ++ [0])))

def safeStrdup (alloc : Allocator) (memory : Memory) : Option Ptr → Option (Option Ptr × Memory)
  | some text => nbtStrdup alloc memory text
  | none => some (none,memory)

/-- A memory with more in it: the addresses were free, and nothing that was there has changed. -/
structure Fresh (memory memory' : Memory) (cells : List Ptr) : Prop where
  nodup : cells.Nodup
  free : ∀ address ∈ cells, memory.cell address = none
  used : ∀ address ∈ cells, memory'.cell address ≠ none
  cell : ∀ address, address ∉ cells → memory'.cell address = memory.cell address
  flink : ∀ address, memory.cell address ≠ none → memory'.links.flink address = memory.links.flink address
  blink : ∀ address, memory.cell address ≠ none → memory'.links.blink address = memory.links.blink address

section Freshness
variable {memory memory' memory'' : Memory} {cells more : List Ptr} {address : Ptr} {cell : Cell}

theorem Fresh.refl (memory : Memory) : Fresh memory memory [] :=
  ⟨List.nodup_nil,List.forall_mem_nil _,List.forall_mem_nil _,fun _ _ => rfl,fun _ _ => rfl,fun _ _ => rfl⟩

theorem Fresh.notin (fresh : Fresh memory memory' cells) (live : memory.cell address ≠ none) : address ∉ cells :=
  fun there => live (fresh.free address there)

theorem Fresh.live (fresh : Fresh memory memory' cells) (live : memory.cell address ≠ none) :
    memory'.cell address ≠ none := by
  rwa [fresh.cell address (fresh.notin live)]

theorem Fresh.same (fresh : Fresh memory memory' cells) (live : Live memory more) : Same memory memory' more :=
  ⟨fun address there => fresh.cell address (fresh.notin (live address there)),
    fun address there => fresh.flink address (live address there),
    fun address there => fresh.blink address (live address there)⟩

theorem Fresh.trans (fresh : Fresh memory memory' cells) (later : Fresh memory' memory'' more) :
    Fresh memory memory'' (cells ++ more) where
  nodup := fresh.nodup.append later.nodup fun address early late => fresh.used address early (later.free address late)
  free address there := by
    rcases List.mem_append.mp there with early | late
    · exact fresh.free address early
    · have free := later.free address late
      by_cases early : address ∈ cells
      · exact fresh.free address early
      · rwa [fresh.cell address early] at free
  used address there := by
    rcases List.mem_append.mp there with early | late
    · exact later.live (fresh.used address early)
    · exact later.used address late
  cell address away := by
    rw [List.mem_append,not_or] at away
    rw [later.cell address away.2,fresh.cell address away.1]
  flink address live := (later.flink address (fresh.live live)).trans (fresh.flink address live)
  blink address live := (later.blink address (fresh.live live)).trans (fresh.blink address live)

theorem Fresh.perm (fresh : Fresh memory memory' cells) (same : cells.Perm more) : Fresh memory memory' more where
  nodup := same.nodup_iff.mp fresh.nodup
  free address there := fresh.free address (same.mem_iff.mpr there)
  used address there := fresh.used address (same.mem_iff.mpr there)
  cell address away := fresh.cell address fun there => away (same.mem_iff.mp there)
  flink := fresh.flink
  blink := fresh.blink

theorem Fresh.put (fresh : Fresh memory memory' cells) (there : address ∈ cells) :
    Fresh memory (memory'.put address cell) cells where
  nodup := fresh.nodup
  free := fresh.free
  used one here := by
    simp only [Memory.put,Function.update_apply]
    split
    · exact Option.some_ne_none _
    · exact fresh.used one here
  cell one away := by
    have other : one ≠ address := fun same => away (same ▸ there)
    rw [← fresh.cell one away]
    simp only [Memory.put,Function.update_apply,if_neg other]
  flink := fresh.flink
  blink := fresh.blink

theorem Fresh.without (fresh : Fresh memory memory' (cells ++ more)) : Fresh memory (memory'.without more) cells := by
  obtain ⟨nodup,_,apart⟩ := List.nodup_append.mp fresh.nodup
  refine ⟨nodup,fun address there => fresh.free address (List.mem_append_left _ there),fun address there => ?_,
    fun address away => ?_,fresh.flink,fresh.blink⟩
  · rw [Memory.without_cell fun gone => apart address there address gone rfl]
    exact fresh.used address (List.mem_append_left _ there)
  · by_cases gone : address ∈ more
    · simp only [Memory.without,if_pos gone]
      exact (fresh.free address (List.mem_append_right _ gone)).symm
    · rw [Memory.without_cell gone]
      exact fresh.cell address fun there => (List.mem_append.mp there).elim away gone

theorem Fresh.withoutAll (fresh : Fresh memory memory' more) : Fresh memory (memory'.without more) [] :=
  Fresh.without fresh

theorem Fresh.relink {links : ListHeads} (fresh : Fresh memory memory' cells)
    (flink : ∀ address, address ∉ cells → links.flink address = memory'.links.flink address)
    (blink : ∀ address, address ∉ cells → links.blink address = memory'.links.blink address) :
    Fresh memory { memory' with links := links } cells where
  nodup := fresh.nodup
  free := fresh.free
  used := fresh.used
  cell := fresh.cell
  flink address live := (flink address (fresh.notin live)).trans (fresh.flink address live)
  blink address live := (blink address (fresh.notin live)).trans (fresh.blink address live)

theorem Memory.malloc_eq (alloc : Allocator) (memory : Memory) (size : Nat) :
    memory.malloc alloc size = (none,memory) ∨ ∃ address memory' bytes, memory.malloc alloc size = (some address,memory') ∧
      Fresh memory memory' [address] ∧ memory'.links = memory.links ∧ bytes.length = size ∧
      memory'.cell address = some (.block bytes) := by
  rw [malloc]
  cases picked : alloc.pick memory size with
  | none => exact .inl rfl
  | some address =>
    refine .inr ⟨address,_,_,rfl,⟨List.nodup_singleton _,?_,?_,?_,fun _ _ => rfl,fun _ _ => rfl⟩,rfl,alloc.size memory size,
      put_cell memory ..⟩
    · intro one there
      rw [List.mem_singleton.mp there]
      exact alloc.free memory size address picked
    · intro one there
      rw [List.mem_singleton.mp there,put_cell memory]
      exact Option.some_ne_none _
    · intro one away
      exact Function.update_of_ne (fun same => away (List.mem_singleton.mpr same)) ..

theorem cString_terminated (text : List UInt8) : cString (text ++ [0]) = cString text := by
  rw [cString,cString,List.takeWhile_append]
  split
  next whole =>
    have all := (List.takeWhile_prefix (· != 0)).eq_of_length whole
    simp [all]
  next => rfl

theorem cString_length (text : List UInt8) : (cString text).length ≤ text.length := (List.takeWhile_prefix _).length_le

theorem nbtStrdup_eq (alloc : Allocator) {text : List UInt8} (there : memory.cell address = some (.block (text ++ [0]))) :
    nbtStrdup alloc memory address = some (none,memory) ∨
      ∃ copy memory', nbtStrdup alloc memory address = some (some copy,memory') ∧ Fresh memory memory' [copy] ∧
        memory'.links = memory.links ∧ memory'.cell copy = some (.block (cString text ++ [0])) := by
  have read : memory.block address = some (text ++ [0]) := by rw [Memory.block,there]
  have ends : ¬(text ++ [0]).length ≤ (cString (text ++ [0])).length := by
    have short := cString_length text
    rw [cString_terminated,List.length_append,List.length_singleton]
    omega
  simp only [nbtStrdup,read,Option.bind_eq_bind,Option.bind_some,if_neg ends]
  rcases memory.malloc_eq alloc ((cString (text ++ [0])).length + 1) with refused | ⟨copy,memory',_,got,fresh,links,_⟩
  · rw [refused]
    exact .inl rfl
  · rw [got]
    refine .inr ⟨copy,_,rfl,fresh.put (List.mem_singleton_self _),links,?_⟩
    rw [Memory.put_cell,cString_terminated]

end Freshness

end CSpock.Nbt
