import CSpock.Library.Circular

/-! The circular lists of `cNBT/list.h`. A `list_head` is known by the address of the
structure that it is embedded in. -/
namespace CSpock.Nbt
open CSpock.Library.Circular

abbrev Ptr := Nat

def null : Ptr := 0

abbrev ListHeads := Links Ptr

namespace ListHeads

def setFlink (links : ListHeads) (at' value : Ptr) : ListHeads :=
  { links with flink := Function.update links.flink at' value }

def setBlink (links : ListHeads) (at' value : Ptr) : ListHeads :=
  { links with blink := Function.update links.blink at' value }

section Fields
variable (links : ListHeads) (one two value : Ptr)

@[simp] theorem setFlink_flink : (links.setFlink one value).flink two = if two = one then value else links.flink two := by
  simp [setFlink,Function.update_apply]

@[simp] theorem setFlink_blink : (links.setFlink one value).blink = links.blink := rfl

@[simp] theorem setBlink_blink : (links.setBlink one value).blink two = if two = one then value else links.blink two := by
  simp [setBlink,Function.update_apply]

@[simp] theorem setBlink_flink : (links.setBlink one value).flink = links.flink := rfl

end Fields

end ListHeads

open ListHeads

def initListHead (links : ListHeads) (head : Ptr) : ListHeads := (links.setBlink head head).setFlink head head

def listAddTail (links : ListHeads) (newElement head : Ptr) : ListHeads :=
  let links := links.setFlink newElement head
  let links := links.setBlink newElement (links.blink head)
  let links := links.setBlink (links.flink newElement) newElement
  links.setFlink (links.blink newElement) newElement

def listDel (links : ListHeads) (loc : Ptr) : ListHeads :=
  let links := links.setBlink (links.flink loc) (links.blink loc)
  let links := links.setFlink (links.blink loc) (links.flink loc)
  let links := links.setFlink loc null
  links.setBlink loc null

/-- `list_length`, with the cursor of its loop. -/
def listLength (links : ListHeads) (head : Ptr) : Nat → Ptr → Nat → Option Nat
  | 0,_,_ => none
  | fuel+1,cursor,accum =>
    if cursor = head then some accum else listLength links head fuel (links.flink cursor) (accum + 1)

section Operations
variable {links : ListHeads} {head new : Ptr} {items before after : List Ptr}

theorem initListHead_circle (links : ListHeads) (head : Ptr) : Circle (initListHead links head) head [] :=
  circle_nil.mpr ⟨by simp [initListHead],by simp [initListHead]⟩

theorem listAddTail_circle (circle : Circle links head items) (fresh : new ∉ head :: items) :
    Circle (listAddTail links new head) head (items ++ [new]) := by
  have whole : Circle links head (items ++ []) := by rwa [List.append_nil]
  have last : links.blink head = front head items := whole.parts.2.2.2
  have away : new ≠ head := fun here => fresh (here ▸ List.mem_cons_self ..)
  have apart : front head items ≠ new := fun here => fresh (here ▸ front_mem head items)
  refine whole.insert (by rwa [List.append_nil]) ?_ ?_ ?_ ?_ (fun one here there => ?_) fun one here there => ?_ <;>
    simp_all [listAddTail,back,Ne.symm]

theorem listAddTail_elsewhere (circle : Circle links head items) (fresh : new ∉ head :: items) {other : Ptr}
    (elsewhere : other ∉ new :: head :: items) :
    (listAddTail links new head).flink other = links.flink other ∧
      (listAddTail links new head).blink other = links.blink other := by
  have whole : Circle links head (items ++ []) := by rwa [List.append_nil]
  have last : links.blink head = front head items := whole.parts.2.2.2
  have away : new ≠ head := fun here => fresh (here ▸ List.mem_cons_self ..)
  have apart : other ≠ front head items := fun here =>
    elsewhere (List.mem_cons_of_mem _ (here ▸ front_mem head items))
  simp only [List.mem_cons,not_or] at elsewhere
  obtain ⟨one,two,_⟩ := elsewhere
  simp [listAddTail,one,two,last,apart,away]

theorem listDel_circle {loc : Ptr} (circle : Circle links head (before ++ loc :: after)) :
    Circle (listDel links loc) head (before ++ after) := by
  have split : Circle links head ((before ++ [loc]) ++ after) := by rwa [List.append_assoc]
  have blink : links.blink loc = front head before := circle.parts.2.2.2
  have flink : links.flink loc = back head after := by
    have joined := split.parts.2.2.1
    rwa [front,List.getLastD_concat] at joined
  have absent := (List.nodup_cons.mp ((moved ..).nodup_iff.mp circle.nodup)).1
  have away : front head before ≠ loc := fun here =>
    absent (here ▸ List.mem_append_left after (front_mem head before))
  have apart : back head after ≠ loc := by
    rintro rfl
    exact absent (by cases after <;> simp [back])
  refine circle.remove ?_ ?_ (fun one here there => ?_) fun one here there => ?_ <;>
    simp_all [listDel,Ne.symm]

theorem listDel_elsewhere {loc other : Ptr} (circle : Circle links head (before ++ loc :: after))
    (elsewhere : other ∉ head :: (before ++ loc :: after)) :
    (listDel links loc).flink other = links.flink other ∧ (listDel links loc).blink other = links.blink other := by
  have split : Circle links head ((before ++ [loc]) ++ after) := by rwa [List.append_assoc]
  have blink : links.blink loc = front head before := circle.parts.2.2.2
  have flink : links.flink loc = back head after := by
    have joined := split.parts.2.2.1
    rwa [front,List.getLastD_concat] at joined
  have absent := (List.nodup_cons.mp ((moved ..).nodup_iff.mp circle.nodup)).1
  have apart : loc ≠ back head after := by
    rintro rfl
    exact absent (by cases after <;> simp [back])
  have one : other ≠ front head before := fun here =>
    elsewhere (here ▸ List.mem_append_left (loc :: after) (front_mem head before))
  have two : other ≠ back head after := by
    rintro rfl
    exact elsewhere (by cases after <;> simp [back])
  have three : other ≠ loc := fun here => elsewhere (here ▸ by simp)
  simp [listDel,blink,flink,one,two,three,apart]

theorem listLength_onward {fuel accum : Nat} {cursor : Ptr} (onward : Onward links head cursor items)
    (enough : items.length < fuel) : listLength links head fuel cursor accum = some (accum + items.length) := by
  induction items generalizing fuel accum cursor with
  | nil =>
    obtain ⟨fuel,rfl⟩ := Nat.exists_eq_add_of_lt enough
    rw [listLength,if_pos onward.nil]
    rfl
  | cons item items ih =>
    obtain ⟨fuel,rfl⟩ := Nat.exists_eq_add_of_lt enough
    obtain ⟨rfl,away,rest⟩ := onward.cons
    rw [listLength,if_neg away,ih rest (by simp only [List.length_cons]; omega)]
    simp only [List.length_cons]
    congr 1
    omega

theorem listLength_circle (circle : Circle links head items) {fuel : Nat} (enough : items.length < fuel) :
    listLength links head fuel (links.flink head) 0 = some items.length := by
  rw [listLength_onward circle.onward enough,Nat.zero_add]

end Operations

end CSpock.Nbt
