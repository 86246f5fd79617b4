import Mathlib

/-! Allocation. A decoder only goes forward, so its allocations are told apart by
the place in the code and by the cursor at which they are made. -/
namespace CSpock

/-- The allocating places of the decoders. -/
inductive Site where
  | stringBytes
  | nbtString
  | nbtArray
  | nbtNode
  | nbtList
  | nbtSentinel
  | nbtEntry
  | metatags
  | itemtags
  | itemtagEntries
  deriving Repr, DecidableEq

/-- Which requests `malloc` grants, by place, by the bytes from the cursor on and by size. -/
structure Heap where
  malloc : Site → List UInt8 → Nat → Bool

namespace Heap

def Succeeds (heap : Heap) : Prop := ∀ site cursor size, heap.malloc site cursor size = true

def plenty : Heap := ⟨fun _ _ _ => true⟩

theorem plenty_succeeds : plenty.Succeeds := fun _ _ _ => rfl

end Heap

end CSpock
