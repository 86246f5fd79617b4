import CSpock.Library.Cursor

/-! Decoders that keep the list of the nested calls that failed. The list is told apart
from the outcome, so that it can be stated what a decoder makes of a failure: it hands
a null cursor on, it reads through one, or it goes on as if nothing had happened. -/
namespace CSpock.Library.Failures
open CSpock.Library.Cursor

universe u v w
variable {Failure : Type u} {α : Type v} {β : Type w}

structure Traced (Failure : Type u) (α : Type v) where
  failures : List Failure
  decoded : Decoded α

namespace Traced

def quiet (decoded : Decoded α) : Traced Failure α := ⟨[],decoded⟩

def after (failure : Failure) (next : Traced Failure α) : Traced Failure α :=
  ⟨failure :: next.failures,next.decoded⟩

/-- A decoder that fails by returning null. -/
def call (failure : Failure) : Decoded α → Traced Failure α
  | .ok value rest => quiet (.ok value rest)
  | .null => after failure (quiet .null)
  | .fault => quiet .fault

/-- `Decoded.andThen`, with the failures of both steps. -/
def andThen (first : Traced Failure α) (next : α → List UInt8 → Traced Failure β) : Traced Failure β :=
  match first.decoded with
  | .ok value rest => ⟨first.failures ++ (next value rest).failures,(next value rest).decoded⟩
  | .null => ⟨first.failures,.fault⟩
  | .fault => ⟨first.failures,.fault⟩

/-- `Decoded.checked`, with the failures of both steps. -/
def checked (first : Traced Failure α) (next : α → List UInt8 → Traced Failure β) : Traced Failure β :=
  match first.decoded with
  | .ok value rest => ⟨first.failures ++ (next value rest).failures,(next value rest).decoded⟩
  | .null => ⟨first.failures,.null⟩
  | .fault => ⟨first.failures,.fault⟩

def map (f : α → β) (first : Traced Failure α) : Traced Failure β := ⟨first.failures,first.decoded.map f⟩

@[simp] theorem failures_quiet (decoded : Decoded α) : (quiet decoded : Traced Failure α).failures = [] := rfl

@[simp] theorem decoded_quiet (decoded : Decoded α) : (quiet decoded : Traced Failure α).decoded = decoded := rfl

@[simp] theorem failures_after (failure : Failure) (next : Traced Failure α) :
    (after failure next).failures = failure :: next.failures := rfl

@[simp] theorem decoded_after (failure : Failure) (next : Traced Failure α) :
    (after failure next).decoded = next.decoded := rfl

@[simp] theorem failures_map (f : α → β) (first : Traced Failure α) :
    (first.map f).failures = first.failures := rfl

@[simp] theorem decoded_map (f : α → β) (first : Traced Failure α) :
    (first.map f).decoded = first.decoded.map f := rfl

@[simp] theorem decoded_call (failure : Failure) (decoded : Decoded α) :
    (call failure decoded).decoded = decoded := by
  cases decoded <;> rfl

@[simp] theorem decoded_andThen (first : Traced Failure α) (next : α → List UInt8 → Traced Failure β) :
    (first.andThen next).decoded = first.decoded.andThen fun value rest => (next value rest).decoded := by
  unfold andThen
  split <;> simp [*]

@[simp] theorem decoded_checked (first : Traced Failure α) (next : α → List UInt8 → Traced Failure β) :
    (first.checked next).decoded = first.decoded.checked fun value rest => (next value rest).decoded := by
  unfold checked
  split <;> simp [*]

/-- The caller is told of every failure by a null cursor. -/
def Propagates (ran : Traced Failure α) : Prop := ran.failures ≠ [] → ran.decoded = .null

theorem quiet_propagates (decoded : Decoded α) : (quiet decoded : Traced Failure α).Propagates :=
  fun failed => absurd rfl failed

theorem call_propagates (failure : Failure) (decoded : Decoded α) : (call failure decoded).Propagates := by
  cases decoded with
  | ok value rest => exact quiet_propagates _
  | null => exact fun _ => rfl
  | fault => exact quiet_propagates _

theorem Propagates.map {first : Traced Failure α} (propagates : first.Propagates) (f : α → β) :
    (first.map f).Propagates := by
  intro failed
  rw [decoded_map,propagates failed,Decoded.map_null]

/-- The caller is told of every failure but one, which the decoder does not survive. -/
structure TellsBut (failure : Failure) (ran : Traced Failure α) : Prop where
  crash : failure ∈ ran.failures → ran.decoded = .fault
  tells : failure ∉ ran.failures → ran.Propagates

section TellsBut
variable {failure : Failure}

theorem TellsBut.told_iff {ran : Traced Failure α} (tells : TellsBut failure ran) :
    ran.Propagates ↔ failure ∉ ran.failures := by
  refine ⟨fun propagates member => ?_,tells.tells⟩
  cases (tells.crash member).symm.trans (propagates (List.ne_nil_of_mem member))

theorem Propagates.tellsBut {ran : Traced Failure α} (propagates : ran.Propagates) (never : failure ∉ ran.failures) :
    TellsBut failure ran := ⟨fun member => absurd member never,fun _ => propagates⟩

theorem after_fault_tellsBut : TellsBut failure (after failure (quiet .fault) : Traced Failure α) :=
  ⟨fun _ => rfl,fun never => absurd (List.mem_cons_self ..) never⟩

theorem TellsBut.map {first : Traced Failure α} (tells : TellsBut failure first) (f : α → β) :
    TellsBut failure (first.map f) :=
  ⟨fun member => by rw [decoded_map,tells.crash member]; rfl,fun never => (tells.tells never).map f⟩

theorem quiet_andThen_tellsBut (decoded : Decoded α) {next : α → List UInt8 → Traced Failure β}
    (tells : ∀ value rest, TellsBut failure (next value rest)) : TellsBut failure ((quiet decoded).andThen next) := by
  cases decoded with
  | ok value rest => exact tells value rest
  | null => exact ⟨fun _ => rfl,fun _ failed => absurd rfl failed⟩
  | fault => exact ⟨fun _ => rfl,fun _ failed => absurd rfl failed⟩

theorem TellsBut.checked {first : Traced Failure α} (tells : TellsBut failure first)
    {next : α → List UInt8 → Traced Failure β} (afterwards : ∀ value rest, TellsBut failure (next value rest)) :
    TellsBut failure (first.checked next) := by
  unfold Traced.checked
  split
  next value rest ran =>
    have survived : failure ∉ first.failures := fun member => by cases ran.symm.trans (tells.crash member)
    have clean : first.failures = [] := by
      by_contra failed
      cases ran.symm.trans (tells.tells survived failed)
    rw [clean,List.nil_append]
    exact afterwards value rest
  next ran =>
    exact ⟨fun member => (by cases ran.symm.trans (tells.crash member)),fun _ _ => rfl⟩
  next ran =>
    refine ⟨fun _ => rfl,fun never failed => ?_⟩
    cases ran.symm.trans (tells.tells never failed)

end TellsBut

theorem propagates_iff_of_ne_null {ran : Traced Failure α} (never : ran.decoded ≠ .null) :
    ran.Propagates ↔ ran.failures = [] := by
  constructor
  · intro propagates
    by_contra failed
    exact never (propagates failed)
  · exact fun clean failed => absurd clean failed

/-- There is a failure behind a null cursor. -/
def Accounts (ran : Traced Failure α) : Prop := ran.decoded = .null → ran.failures ≠ []

theorem accounts_of_ne_null {ran : Traced Failure α} (never : ran.decoded ≠ .null) : ran.Accounts :=
  fun null => absurd null never

theorem call_accounts (failure : Failure) (decoded : Decoded α) : (call failure decoded).Accounts := by
  cases decoded <;> simp [Accounts,call]

theorem Accounts.map {first : Traced Failure α} (accounts : first.Accounts) (f : α → β) :
    (first.map f).Accounts := by
  intro null
  refine accounts ?_
  by_contra never
  exact Decoded.map_ne_null never f null

theorem Accounts.andThen (first : Traced Failure α) {next : α → List UInt8 → Traced Failure β}
    (accounts : ∀ value rest, (next value rest).Accounts) : (first.andThen next).Accounts := by
  unfold Traced.andThen
  split
  next value rest _ => exact fun null => List.append_ne_nil_of_right_ne_nil _ (accounts value rest null)
  next => exact accounts_of_ne_null (by simp)
  next => exact accounts_of_ne_null (by simp)

theorem Accounts.checked {first : Traced Failure α} (accounted : first.Accounts)
    {next : α → List UInt8 → Traced Failure β} (accounts : ∀ value rest, (next value rest).Accounts) :
    (first.checked next).Accounts := by
  unfold Traced.checked
  split
  next value rest _ => exact fun null => List.append_ne_nil_of_right_ne_nil _ (accounts value rest null)
  next null => exact fun _ => accounted null
  next => exact accounts_of_ne_null (by simp)

/-- The caller is told of this failure by a null cursor, and of nothing else. -/
def Signals (failure : Failure) (ran : Traced Failure α) : Prop :=
  ran.decoded = .null ↔ failure ∈ ran.failures

section Signals
variable {failure : Failure}

theorem quiet_signals {decoded : Decoded α} (never : decoded ≠ .null) :
    (quiet decoded : Traced Failure α).Signals failure := by
  simp [Signals,never]

theorem after_signals : (after failure (quiet .null) : Traced Failure α).Signals failure := by
  simp [Signals]

theorem Signals.map {first : Traced Failure α} (signals : first.Signals failure) (f : α → β) :
    (first.map f).Signals failure := by
  unfold Signals at signals ⊢
  rw [failures_map,← signals,decoded_map]
  cases first.decoded <;> simp

theorem Signals.andThen {first : Traced Failure α} (other : failure ∉ first.failures)
    {next : α → List UInt8 → Traced Failure β} (signals : ∀ value rest, (next value rest).Signals failure) :
    (first.andThen next).Signals failure := by
  unfold Traced.andThen Signals
  split
  next value rest _ =>
    rw [List.mem_append]
    exact (signals value rest).trans (or_iff_right other).symm
  next => simp [other]
  next => simp [other]

end Signals

def Only (kinds : Failure → Prop) (ran : Traced Failure α) : Prop := ∀ failure ∈ ran.failures, kinds failure

section Only
variable {kinds : Failure → Prop}

theorem quiet_only (decoded : Decoded α) : (quiet decoded : Traced Failure α).Only kinds := by
  intro failure member
  cases member

theorem Only.after {next : Traced Failure α} (only : next.Only kinds) {failure : Failure}
    (kind : kinds failure) : (after failure next).Only kinds := by
  intro other member
  rw [failures_after,List.mem_cons] at member
  rcases member with rfl | member
  · exact kind
  · exact only other member

theorem call_only {failure : Failure} (kind : kinds failure) (decoded : Decoded α) :
    (call failure decoded).Only kinds := by
  cases decoded with
  | ok value rest => exact quiet_only _
  | null => exact (quiet_only _).after kind
  | fault => exact quiet_only _

theorem Only.mono {ran : Traced Failure α} (only : ran.Only kinds) {wider : Failure → Prop}
    (within : ∀ failure, kinds failure → wider failure) : ran.Only wider :=
  fun failure member => within failure (only failure member)

theorem Only.map {first : Traced Failure α} (only : first.Only kinds) (f : α → β) :
    (first.map f).Only kinds := only

theorem Only.andThen {first : Traced Failure α} (only : first.Only kinds)
    {next : α → List UInt8 → Traced Failure β} (afterwards : ∀ value rest, (next value rest).Only kinds) :
    (first.andThen next).Only kinds := by
  unfold Traced.andThen
  split
  next value rest _ =>
    intro failure member
    rw [List.mem_append] at member
    exact member.elim (only failure) (afterwards value rest failure)
  next => exact only
  next => exact only

end Only

end Traced

end CSpock.Library.Failures
