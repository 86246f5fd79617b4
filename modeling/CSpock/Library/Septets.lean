import Mathlib

/-! Numbers in base 128, low digits first. The top bit of a byte says that another digit follows. -/
namespace CSpock.Library.Septets

def septets (number : Nat) : List UInt8 :=
  if number < 128 then [UInt8.ofNat number] else UInt8.ofNat (128 + number % 128) :: septets (number / 128)

theorem septets_small {number : Nat} (small : number < 128) : septets number = [UInt8.ofNat number] := by
  rw [septets,if_pos small]

theorem septets_large {number : Nat} (large : 128 ≤ number) :
    septets number = UInt8.ofNat (128 + number % 128) :: septets (number / 128) := by
  rw [septets,if_neg (by omega)]

theorem length_septets_le (number digits : Nat) :
    (septets number).length ≤ digits + 1 ↔ number < 128^(digits+1) := by
  induction digits generalizing number with
  | zero =>
    by_cases small : number < 128
    · simp [septets_small small,small]
    · rw [septets_large (by omega),List.length_cons,septets]
      split <;> simp <;> omega
  | succ digits ih =>
    by_cases small : number < 128
    · have power : 1 ≤ 128^(digits+1) := Nat.one_le_pow _ _ (by decide)
      rw [septets_small small,Nat.pow_succ]
      simp
      omega
    · rw [septets_large (by omega),List.length_cons,Nat.add_le_add_iff_right,ih,Nat.pow_succ _ (digits+1),
        Nat.div_lt_iff_lt_mul (by decide)]

end CSpock.Library.Septets
