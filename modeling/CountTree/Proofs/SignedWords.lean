import CountTree.Unit.Mac
import Mathlib.Data.Int.ModEq
import Mathlib.Tactic.Ring

/-!
Two's complement. `Signed.narrow` is what a number becomes in a word of a given width, exactly: the
number of the word's range that is congruent to it. Shifting to the left end of the word and back
comes to the same (`truncate?_eq`), because the shift to the left scales the number together with
the modulus (`bmod_mul_right`). Nothing but the low bits matters, whether or not the number has
been wrapped to a whole word before (`narrow_wrap`), and the range of a width holds one number for
each remainder (`InWidth.eq_of_modEq`).
-/

set_option autoImplicit false
set_option relaxedAutoImplicit false

namespace CountTree.Signed

/-- The signed number of `width` bits that is congruent to `n`. Widths 0 and 64 up stand for the
whole word and keep the number. -/
def narrow (width : Nat) (n : Int) : Int :=
  if width = 0 ∨ 64 ≤ width then n else n.bmod (2 ^ width)

/-- A common factor of number and modulus is a factor of the remainder nearest to zero. -/
theorem bmod_mul_right (n : Int) (modulus : Nat) {scale : Nat} (hscale : 0 < scale) :
    (n * scale).bmod (modulus * scale) = n.bmod modulus * scale := by
  have hpos : (0 : Int) < scale := by exact_mod_cast hscale
  have hmod : n * scale % (modulus * scale : Nat) = n % modulus * scale := by
    rw [Nat.cast_mul, mul_comm n, mul_comm (modulus : Int), Int.mul_emod_mul_of_pos _ _ hpos,
      mul_comm]
  -- Half of the modulus is rounded up, so both comparisons are doubled first.
  have hhalf (r m : Int) : r < (m + 1) / 2 ↔ 2 * r < m := by omega
  have hsame : 2 * (n % modulus * scale) < (modulus * scale : Nat) ↔
      2 * (n % modulus) < (modulus : Int) := by
    rw [Nat.cast_mul, ← mul_assoc]
    exact Int.mul_lt_mul_right hpos
  rw [Int.bmod_def, Int.bmod_def, hmod]
  by_cases hlow : 2 * (n % modulus) < (modulus : Int)
  · rw [if_pos ((hhalf _ _).mpr (hsame.mpr hlow)), if_pos ((hhalf _ _).mpr hlow)]
  · rw [if_neg (mt (hhalf _ _).mp (mt hsame.mp hlow)), if_neg (mt (hhalf _ _).mp hlow),
      Nat.cast_mul, sub_mul]

/-- None of the checks fails: the amount of both shifts is below the length of a word. -/
theorem truncate?_eq (width : Nat) (n : Int) : truncate? width n = some (narrow width n) := by
  rw [truncate?, narrow]
  split
  · rfl
  · rename_i hwidth
    have hsub : Word.sub? 64 width = some (64 - width) := if_pos (by omega)
    have hamount : 64 - width < 64 := by omega
    have hscale : 0 < 2 ^ (64 - width) := Nat.two_pow_pos _
    have hmodulus : Nat.pow 2 64 = 2 ^ width * 2 ^ (64 - width) := by
      rw [← Nat.pow_add, Nat.add_sub_cancel' (by omega)]
    have hshifts : wrap (n * (2 ^ (64 - width) : Nat)) / (2 ^ (64 - width) : Nat) =
        n.bmod (2 ^ width) := by
      rw [wrap, hmodulus, bmod_mul_right n _ hscale]
      exact Int.mul_ediv_cancel _ (by exact_mod_cast hscale.ne')
    simp only [hsub, shiftLeft?, shiftRight?, if_pos hamount, Option.bind_eq_bind,
      Option.bind_some]
    exact congrArg some hshifts

/-! ### Ranges -/

/-- The number of bits that count: the width, or those of the whole word. -/
def significant (width : Nat) : Nat := if width = 0 ∨ 64 ≤ width then 64 else width

/-- A number of so many bits in two's complement. -/
def InWidth (width : Nat) (n : Int) : Prop := -2 ^ (width - 1) ≤ n ∧ n < 2 ^ (width - 1)

instance (width : Nat) (n : Int) : Decidable (InWidth width n) := instDecidableAnd

variable {width : Nat} {n m : Int}

theorem significant_pos (width : Nat) : 0 < significant width := by
  rw [significant]
  split <;> omega

theorem inWidth_iff (h : 0 < width) : InWidth width n ↔
    -((2 ^ width : Nat) / 2 : Int) ≤ n ∧ n < ((2 ^ width : Nat) + 1 : Int) / 2 := by
  obtain ⟨width, rfl⟩ : ∃ less, width = less + 1 := ⟨width - 1, by omega⟩
  have hpow : ((2 ^ (width + 1) : Nat) : Int) = 2 * 2 ^ width := by
    push_cast
    ring
  rw [InWidth, Nat.add_sub_cancel, hpow]
  omega

theorem inWidth_bmod (h : 0 < width) (n : Int) : InWidth width (n.bmod (2 ^ width)) :=
  (inWidth_iff h).mpr ⟨Int.le_bmod (Nat.two_pow_pos _), Int.bmod_lt (Nat.two_pow_pos _)⟩

theorem InWidth.bmod_eq (hn : InWidth width n) (h : 0 < width) : n.bmod (2 ^ width) = n :=
  Int.bmod_eq_of_le ((inWidth_iff h).mp hn).1 ((inWidth_iff h).mp hn).2

theorem bmod_modEq (n : Int) (width : Nat) : n.bmod (2 ^ width) ≡ n [ZMOD 2 ^ width] := by
  have hmod : n.bmod (2 ^ width) % (2 ^ width : Nat) = n % (2 ^ width : Nat) := Int.bmod_emod
  exact_mod_cast hmod

/-- There are no two numbers of a width with the same remainder. -/
theorem InWidth.eq_of_modEq (hn : InWidth width n) (hm : InWidth width m) (h : 0 < width)
    (hmod : n ≡ m [ZMOD 2 ^ width]) : n = m := by
  have hsame : n % (2 ^ width : Nat) = m % (2 ^ width : Nat) := by exact_mod_cast hmod
  rw [← hn.bmod_eq h, ← hm.bmod_eq h, Int.bmod_def, Int.bmod_def, hsame]

/-- To cut a word off to fewer bits does not need the bits above the word. -/
theorem narrow_wrap (width : Nat) (n : Int) :
    narrow width (wrap n) = n.bmod (2 ^ significant width) := by
  rw [narrow, significant]
  split
  · rfl
  · rename_i hwidth
    exact Int.bmod_bmod_of_dvd (Nat.pow_dvd_pow 2 (by omega))

theorem narrow_of_inWidth (width : Nat) (hn : InWidth 64 n) :
    narrow width n = n.bmod (2 ^ significant width) := by
  rw [← narrow_wrap, wrap]
  exact congrArg (narrow width) (hn.bmod_eq (by decide)).symm

end CountTree.Signed

namespace CountTree.Mac

/-- A unit cuts words to its width, and never faults in doing so. -/
theorem truncate_eq (mac : Mac) (word : Int) :
    mac.truncate word = .ok (Signed.narrow mac.bitWidth word) := by
  rw [truncate, Signed.truncate?_eq]

theorem exists_result (mac : Mac) (factor factor' addend : Int) :
    ∃ value, mac.result factor factor' addend = .ok value := by
  rw [result]
  split
  · exact ⟨_, mac.truncate_eq _⟩
  · exact ⟨_, mac.truncate_eq _⟩

end CountTree.Mac
