import Mathlib

/-! Decoders over a byte cursor, in the manner of C: a decoder is given a pointer
into a buffer and hands back the pointer just past what it read. A cursor is the
list of bytes from it to the end of the mapped buffer, so a read past the end of
the list is an access outside the buffer. -/
namespace CSpock.Library.Cursor

universe u v w
variable {α : Type u} {β : Type v} {γ : Type w}

/-- What a run of a decoder comes to. `fault` is an access outside the buffer or
through a null pointer, `null` is a returned null pointer, and `ok value rest`
is the stored value with the returned cursor. -/
inductive Decoded (α : Type u) where
  | fault
  | null
  | ok (value : α) (rest : List UInt8)
  deriving Repr, DecidableEq

namespace Decoded

/-- Goes on from the returned cursor without looking at it: a null one faults. -/
def andThen : Decoded α → (α → List UInt8 → Decoded β) → Decoded β
  | .ok value rest,next => next value rest
  | .null,_ => .fault
  | .fault,_ => .fault

/-- Goes on from the returned cursor after a null check that returns null. -/
def checked : Decoded α → (α → List UInt8 → Decoded β) → Decoded β
  | .ok value rest,next => next value rest
  | .null,_ => .null
  | .fault,_ => .fault

def map (f : α → β) : Decoded α → Decoded β
  | .ok value rest => .ok (f value) rest
  | .null => .null
  | .fault => .fault

@[simp] theorem andThen_ok (value : α) (rest : List UInt8) (next : α → List UInt8 → Decoded β) :
    (ok value rest).andThen next = next value rest := rfl

@[simp] theorem andThen_null (next : α → List UInt8 → Decoded β) :
    (null : Decoded α).andThen next = .fault := rfl

@[simp] theorem andThen_fault (next : α → List UInt8 → Decoded β) :
    (fault : Decoded α).andThen next = .fault := rfl

@[simp] theorem checked_ok (value : α) (rest : List UInt8) (next : α → List UInt8 → Decoded β) :
    (ok value rest).checked next = next value rest := rfl

@[simp] theorem checked_null (next : α → List UInt8 → Decoded β) :
    (null : Decoded α).checked next = .null := rfl

@[simp] theorem checked_fault (next : α → List UInt8 → Decoded β) :
    (fault : Decoded α).checked next = .fault := rfl

@[simp] theorem map_ok (f : α → β) (value : α) (rest : List UInt8) :
    (ok value rest).map f = .ok (f value) rest := rfl

@[simp] theorem map_null (f : α → β) : (null : Decoded α).map f = .null := rfl

@[simp] theorem map_fault (f : α → β) : (fault : Decoded α).map f = .fault := rfl

theorem andThen_eq_ok {first : Decoded α} {next : α → List UInt8 → Decoded β}
    {value : β} {rest : List UInt8} (ran : first.andThen next = .ok value rest) :
    ∃ middle source, first = .ok middle source ∧ next middle source = .ok value rest := by
  cases first with
  | ok middle source => exact ⟨middle,source,rfl,ran⟩
  | null => cases ran
  | fault => cases ran

theorem checked_eq_ok {first : Decoded α} {next : α → List UInt8 → Decoded β}
    {value : β} {rest : List UInt8} (ran : first.checked next = .ok value rest) :
    ∃ middle source, first = .ok middle source ∧ next middle source = .ok value rest := by
  cases first with
  | ok middle source => exact ⟨middle,source,rfl,ran⟩
  | null => cases ran
  | fault => cases ran

theorem map_eq_ok {f : α → β} {first : Decoded α} {value : β} {rest : List UInt8}
    (ran : first.map f = .ok value rest) :
    ∃ before, first = .ok before rest ∧ f before = value := by
  cases first with
  | ok before source => cases ran; exact ⟨before,rfl,rfl⟩
  | null => cases ran
  | fault => cases ran

theorem andThen_ne_null (first : Decoded α) {next : α → List UInt8 → Decoded β}
    (never : ∀ value rest, next value rest ≠ .null) : first.andThen next ≠ .null := by
  cases first with
  | ok value rest => exact never value rest
  | null => simp
  | fault => simp

theorem map_ne_null {first : Decoded α} (never : first ≠ .null) (f : α → β) : first.map f ≠ .null := by
  cases first with
  | ok value rest => simp
  | null => exact absurd rfl never
  | fault => simp

end Decoded

/-- The decoder takes exactly `bytes` off whatever buffer starts with them: it
stores `value`, returns the cursor just past them and touches nothing beyond. -/
def Reads (read : List UInt8 → Decoded α) (bytes : List UInt8) (value : α) : Prop :=
  ∀ rest, read (bytes ++ rest) = .ok value rest

namespace Reads

theorem whole {read : List UInt8 → Decoded α} {bytes : List UInt8} {value : α}
    (reads : Reads read bytes value) : read bytes = .ok value [] := by
  simpa using reads []

theorem at_drop {read : List UInt8 → Decoded α} {source : List UInt8} {n : Nat} {value : α}
    (reads : Reads read (source.take n) value) : read source = .ok value (source.drop n) := by
  have split := reads (source.drop n)
  rwa [List.take_append_drop] at split

theorem andThen {first : List UInt8 → Decoded α} {next : α → List UInt8 → Decoded β}
    {front back : List UInt8} {value : α} {result : β}
    (head : Reads first front value) (tail : Reads (next value) back result) :
    Reads (fun source => (first source).andThen next) (front ++ back) result := by
  intro rest
  rw [List.append_assoc]
  simp only [head (back ++ rest),Decoded.andThen_ok,tail rest]

theorem checked {first : List UInt8 → Decoded α} {next : α → List UInt8 → Decoded β}
    {front back : List UInt8} {value : α} {result : β}
    (head : Reads first front value) (tail : Reads (next value) back result) :
    Reads (fun source => (first source).checked next) (front ++ back) result := by
  intro rest
  rw [List.append_assoc]
  simp only [head (back ++ rest),Decoded.checked_ok,tail rest]

theorem map {read : List UInt8 → Decoded α} {bytes : List UInt8} {value : α} (f : α → β)
    (reads : Reads read bytes value) : Reads (fun source => (read source).map f) bytes (f value) := by
  intro rest
  simp only [reads rest,Decoded.map_ok]

theorem same {read : List UInt8 → Decoded α} {bytes other rest tail : List UInt8} {value again : α}
    (reads : Reads read bytes value) (anew : Reads read other again) (split : bytes ++ rest = other ++ tail) :
    bytes = other ∧ value = again ∧ rest = tail := by
  obtain ⟨rfl,rfl⟩ := Decoded.ok.inj ((reads rest).symm.trans (split ▸ anew tail))
  exact ⟨List.append_cancel_right split,rfl,rfl⟩

theorem pure (value : α) : Reads (fun source => .ok value source) [] value := fun _ => rfl

end Reads

end CSpock.Library.Cursor
