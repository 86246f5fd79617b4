import Mathlib

/-! Walks over untrusted input, in the manner of C: a walk answers how far it went,
or a negative number, and `none` stands for a read outside the input. A caller
takes a negative answer as a refusal, and refuses with -1 or with that answer. -/
namespace CSpock.Library.Refusal

theorem walk_cases {first : Option Int} {next : Int → Option Int} {n : Int}
    (walked : (first >>= fun ret => if ret < 0 then some (-1) else next ret) = some n) :
    n = -1 ∨ ∃ ret, first = some ret ∧ 0 ≤ ret ∧ next ret = some n := by
  cases first with
  | none => cases walked
  | some ret =>
    rw [Option.bind_eq_bind,Option.bind_some] at walked
    split at walked
    next => cases walked; exact .inl rfl
    next nonneg => exact .inr ⟨ret,rfl,by omega,walked⟩

theorem walk_step {first : Option Int} {next : Int → Option Int} {n : Int} (accepted : 0 ≤ n)
    (walked : (first >>= fun ret => if ret < 0 then some (-1) else next ret) = some n) :
    ∃ ret, first = some ret ∧ 0 ≤ ret ∧ next ret = some n := by
  rcases walk_cases walked with refused | passed
  · omega
  · exact passed

theorem handed_cases {first : Option Int} {next : Int → Option Int} {n : Int}
    (walked : (first >>= fun ret => if ret < 0 then some ret else next ret) = some n) :
    n < 0 ∧ first = some n ∨ ∃ ret, first = some ret ∧ 0 ≤ ret ∧ next ret = some n := by
  cases first with
  | none => cases walked
  | some ret =>
    rw [Option.bind_eq_bind,Option.bind_some] at walked
    split at walked
    next refused => cases walked; exact .inl ⟨refused,rfl⟩
    next => exact .inr ⟨ret,rfl,by omega,walked⟩

theorem walk_handed {first : Option Int} {next : Int → Option Int} {n : Int} (accepted : 0 ≤ n)
    (walked : (first >>= fun ret => if ret < 0 then some ret else next ret) = some n) :
    ∃ ret, first = some ret ∧ 0 ≤ ret ∧ next ret = some n := by
  rcases handed_cases walked with ⟨refused,_⟩ | passed
  · omega
  · exact passed

theorem walk_natCast (size : Nat) (next : Int → Option Int) :
    (some (size : Int) >>= fun ret => if ret < 0 then some (-1) else next ret) = next size := by
  rw [Option.bind_eq_bind,Option.bind_some,if_neg (by omega)]

theorem handed_natCast (size : Nat) (next : Int → Option Int) :
    (some (size : Int) >>= fun ret => if ret < 0 then some ret else next ret) = next size := by
  rw [Option.bind_eq_bind,Option.bind_some,if_neg (by omega)]

theorem walk_none {first : Option Int} {next : Int → Option Int}
    (faulted : (first >>= fun ret => if ret < 0 then some (-1) else next ret) = none) :
    first = none ∨ ∃ ret, first = some ret ∧ 0 ≤ ret ∧ next ret = none := by
  cases first with
  | none => exact .inl rfl
  | some ret =>
    rw [Option.bind_eq_bind,Option.bind_some] at faulted
    split at faulted
    next => cases faulted
    next nonneg => exact .inr ⟨ret,rfl,by omega,faulted⟩

theorem walk_bounded {first : Option Int} {next : Int → Option Int} (answers : first ≠ none)
    (behind : ∀ ret, first = some ret → 0 ≤ ret → next ret ≠ none) :
    (first >>= fun ret => if ret < 0 then some (-1) else next ret) ≠ none := by
  intro faulted
  rcases walk_none faulted with silent | ⟨ret,walked,accepted,faulted⟩
  · exact answers silent
  · exact behind ret walked accepted faulted

theorem handed_bounded {first : Option Int} {next : Int → Option Int} (answers : first ≠ none)
    (behind : ∀ ret, first = some ret → 0 ≤ ret → next ret ≠ none) :
    (first >>= fun ret => if ret < 0 then some ret else next ret) ≠ none := by
  cases first with
  | none => contradiction
  | some ret =>
    rw [Option.bind_eq_bind,Option.bind_some]
    split
    next => simp
    next nonneg => exact behind ret rfl (by omega)

theorem walk_again {first other : Option Int} {next after : Int → Option Int} {n : Int}
    (walked : (first >>= fun ret => if ret < 0 then some (-1) else next ret) = some n)
    (same : ∀ ret, first = some ret → other = some ret)
    (behind : ∀ ret, 0 ≤ ret → next ret = some n → after ret = some n) :
    (other >>= fun ret => if ret < 0 then some (-1) else after ret) = some n := by
  cases first with
  | none => cases walked
  | some ret =>
    rw [same ret rfl]
    rw [Option.bind_eq_bind,Option.bind_some] at walked ⊢
    split at walked
    next negative => rw [if_pos negative,walked]
    next nonneg => rw [if_neg nonneg,behind ret (by omega) walked]

end CSpock.Library.Refusal
