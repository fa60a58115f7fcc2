import Mathlib

/-!
# Filling the bits below the highest one

A number to which shifted copies of itself are added, with the distance
doubled each time, has all bits below its highest one in the end.
-/

namespace Bits

/-- The bits of `filled` are those of `value` and the ones less than
`distance` below them. -/
def Covers (value filled distance : Nat) : Prop :=
  ∀ bit, filled.testBit bit = true ↔
    ∃ offset < distance, value.testBit (bit + offset) = true

variable {value filled distance : Nat}

theorem covers_self (value : Nat) : Covers value value 1 := by
  intro bit
  constructor
  · exact fun set => ⟨0, Nat.one_pos, set⟩
  · rintro ⟨offset, bound, set⟩
    rwa [Nat.lt_one_iff.mp bound] at set

theorem Covers.double (covers : Covers value filled distance) :
    Covers value (filled ||| filled >>> distance) (distance * 2) := by
  intro bit
  rw [Nat.testBit_or, Nat.testBit_shiftRight, Bool.or_eq_true, covers,
    covers]
  constructor
  · rintro (⟨offset, bound, set⟩ | ⟨offset, bound, set⟩)
    · exact ⟨offset, by omega, set⟩
    · refine ⟨distance + offset, by omega, ?_⟩
      rwa [show bit + (distance + offset) = distance + bit + offset by omega]
  · rintro ⟨offset, bound, set⟩
    rcases Nat.lt_or_ge offset distance with near | far
    · exact .inl ⟨offset, near, set⟩
    · refine .inr ⟨offset - distance, by omega, ?_⟩
      rwa [show distance + bit + (offset - distance) = bit + offset by omega]

/-- Once the distance is as large as the number is wide, all bits below the
highest one are set. -/
theorem Covers.eq_pred
    (covers : Covers value filled distance)
    (wide : value < 2 ^ distance) :
    filled = 2 ^ value.size - 1 := by
  refine Nat.eq_of_testBit_eq fun bit => ?_
  rw [Nat.testBit_two_pow_sub_one, Bool.eq_iff_iff, covers,
    decide_eq_true_iff, Nat.lt_size]
  constructor
  · rintro ⟨offset, _, set⟩
    exact (Nat.pow_le_pow_right (show 0 < 2 by decide)
      (Nat.le_add_right bit offset)).trans (Nat.ge_two_pow_of_testBit set)
  · intro large
    obtain ⟨highest, above, set⟩ := Nat.exists_ge_and_testBit_of_ge_two_pow large
    have narrow : highest < distance := by
      by_contra far
      have least := Nat.ge_two_pow_of_testBit set
      have grows : 2 ^ distance ≤ 2 ^ highest :=
        Nat.pow_le_pow_right (show 0 < 2 by decide) (Nat.le_of_not_lt far)
      omega
    refine ⟨highest - bit, by omega, ?_⟩
    rwa [Nat.add_sub_cancel' above]

end Bits
