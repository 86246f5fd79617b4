import Mathlib

/-! Lists that are linked both ways and end in a null pointer. -/
namespace CSpock.Library.Chains

section Chains
variable {Ptr : Type} {prev next prev' next' : Ptr → Option Ptr} {before start : Option Ptr} {item new : Ptr} {items : List Ptr}

/-- From `start` onward; `before` is what the first item has behind it. -/
def Chain (prev next : Ptr → Option Ptr) : Option Ptr → Option Ptr → List Ptr → Prop
  | _,start,[] => start = none
  | before,start,item::items => start = some item ∧ prev item = before ∧ Chain prev next (some item) (next item) items

theorem Chain.head (chain : Chain prev next before start items) : start = items.head? := by
  cases items with
  | nil => exact chain
  | cons item items => exact chain.1

theorem Chain.congr (chain : Chain prev next before start items) (backward : ∀ one ∈ items, prev' one = prev one)
    (forward : ∀ one ∈ items, next' one = next one) : Chain prev' next' before start items := by
  induction items generalizing before start with
  | nil => exact chain
  | cons item items ih =>
    obtain ⟨here,back,rest⟩ := chain
    refine ⟨here,(backward item (List.mem_cons_self ..)).trans back,?_⟩
    rw [forward item (List.mem_cons_self ..)]
    exact ih rest (fun one later => backward one (List.mem_cons_of_mem _ later))
      fun one later => forward one (List.mem_cons_of_mem _ later)

theorem Chain.push (chain : Chain prev next none start items) (nodup : items.Nodup) (first : prev' new = none)
    (forth : next' new = start) (back : ∀ one, start = some one → prev' one = some new)
    (backward : ∀ one ∈ items, start ≠ some one → prev' one = prev one) (forward : ∀ one ∈ items, next' one = next one) :
    Chain prev' next' none (some new) (new :: items) := by
  refine ⟨rfl,first,?_⟩
  rw [forth]
  cases items with
  | nil => exact chain
  | cons item items =>
    obtain ⟨rfl,_,rest⟩ := chain
    refine ⟨rfl,back item rfl,?_⟩
    rw [forward item (List.mem_cons_self ..)]
    refine rest.congr (fun one later => backward one (List.mem_cons_of_mem _ later) fun same => ?_)
      fun one later => forward one (List.mem_cons_of_mem _ later)
    exact (List.nodup_cons.mp nodup).1 (Option.some.inj same ▸ later)

theorem Chain.concat {last : Ptr} (chain : Chain prev next before start items) (nodup : items.Nodup)
    (tail : items.getLast? = some last) (forth : next' last = some new) (on : next' new = none) (back : prev' new = some last)
    (backward : ∀ one ∈ items, prev' one = prev one) (forward : ∀ one ∈ items, one ≠ last → next' one = next one) :
    Chain prev' next' before start (items ++ [new]) := by
  induction items generalizing before start with
  | nil => cases tail
  | cons item items ih =>
    obtain ⟨rfl,behind,rest⟩ := chain
    obtain ⟨outside,nodup⟩ := List.nodup_cons.mp nodup
    refine ⟨rfl,(backward item (List.mem_cons_self ..)).trans behind,?_⟩
    cases items with
    | nil =>
      obtain rfl : item = last := Option.some.inj tail
      rw [forth]
      exact ⟨rfl,back,on⟩
    | cons another items =>
      rw [List.getLast?_cons_cons] at tail
      have apart : item ≠ last := fun same => outside (same ▸ List.mem_of_getLast? tail)
      rw [forward item (List.mem_cons_self ..) apart]
      exact ih rest nodup tail (fun one later => backward one (List.mem_cons_of_mem _ later))
        fun one later => forward one (List.mem_cons_of_mem _ later)

theorem Chain.single (alone : next new = none) (first : prev new = before) : Chain prev next before (some new) [new] :=
  ⟨rfl,first,alone⟩

end Chains

end CSpock.Library.Chains
