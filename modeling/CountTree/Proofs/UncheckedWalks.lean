import CountTree.Proofs.TableSizes
import Mathlib.Algebra.BigOperators.Fin

/-!
The two walks between digits and positions on any numbers at all, in range or not. Towards digits
(`Radix.decode?_eq_none_iff`) the walk fails exactly for radices without a size, as a zero cannot
divide, and else it drops what is past the size. Towards a position, a zero does no harm: it makes
the weights behind it zero. What has to be a word there is every weight, the one after the last
radix included, and the exact sum (`Radix.encodeFrom?_eq_some_iff`). `Radix.walks_exact` is the main
statement.
-/

set_option autoImplicit false
set_option relaxedAutoImplicit false

namespace CountTree.Radix

variable {digits radices : List Nat} {weight position total : Nat}

/-! ### From digits to a position -/

/-- Every product of the weight with the first radices is a word. -/
def Weighable (weight : Nat) (radices : List Nat) : Prop :=
  ∀ front, front <+: radices → weight * front.prod ≤ Word.top

theorem weighable_nil : Weighable weight [] ↔ weight ≤ Word.top := by
  simp [Weighable]

theorem weighable_cons {radix : Nat} :
    Weighable weight (radix :: radices) ↔
      weight ≤ Word.top ∧ Weighable (weight * radix) radices := by
  constructor
  · intro h
    refine ⟨by simpa using h [] List.nil_prefix, fun front hfront ↦ ?_⟩
    rw [Nat.mul_assoc, ← List.prod_cons]
    exact h _ (List.cons_prefix_cons.mpr ⟨rfl, hfront⟩)
  · rintro ⟨hweight, hrest⟩ front hfront
    rcases List.prefix_cons_iff.mp hfront with rfl | ⟨later, rfl, hlater⟩
    · simpa using hweight
    · rw [List.prod_cons, ← Nat.mul_assoc]
      exact hrest later hlater

/-- The position is the digits, each times the product of the radices before it. -/
theorem value_eq_sum (hlength : digits.length = radices.length) :
    value digits radices =
      ∑ place : Fin digits.length, digits[place] * (radices.take place).prod := by
  induction digits generalizing radices with
  | nil => rfl
  | cons digit digits ih =>
    rcases radices with _ | ⟨radix, radices⟩
    · simp at hlength
    · rw [value, ih (Nat.succ.inj hlength), Finset.mul_sum]
      refine Eq.trans ?_ (Fin.sum_univ_succ _).symm
      congr 1
      · simp
      · refine Finset.sum_congr rfl fun place _ ↦ ?_
        simp only [Fin.getElem_fin, Fin.val_succ, List.getElem_cons_succ, List.take_succ_cons,
          List.prod_cons]
        ring

theorem encodeFrom?_cons_eq_some_iff {digit radix : Nat} :
    encodeFrom? weight position (digit :: digits) (radix :: radices) = some total ↔
      digit * weight ≤ Word.top ∧ position + digit * weight ≤ Word.top ∧
        weight * radix ≤ Word.top ∧
          encodeFrom? (weight * radix) (position + digit * weight) digits radices = some total := by
  simp only [encodeFrom?, Option.bind_eq_bind, Option.bind_eq_some_iff, Word.mul?_eq_some_iff,
    Word.add?_eq_some_iff, and_assoc, exists_eq_left']

/-- All terms are sums of naturals, so the sum at the end bounds the ones on the way. -/
theorem encodeFrom?_eq_some_iff (hlength : digits.length = radices.length)
    (hweight : weight ≤ Word.top) (hposition : position ≤ Word.top) :
    encodeFrom? weight position digits radices = some total ↔
      Weighable weight radices ∧ position + weight * value digits radices = total ∧
        total ≤ Word.top := by
  induction digits generalizing radices weight position with
  | nil =>
    obtain rfl := List.eq_nil_of_length_eq_zero hlength.symm
    have hwalk : encodeFrom? weight position [] [] = some position := rfl
    have hvalue : value [] [] = 0 := rfl
    rw [weighable_nil, hwalk, hvalue, Nat.mul_zero, Nat.add_zero, Option.some.injEq]
    constructor
    · rintro rfl
      exact ⟨hweight, rfl, hposition⟩
    · exact fun h ↦ h.2.1
  | cons digit digits ih =>
    rcases radices with _ | ⟨radix, radices⟩
    · simp at hlength
    · have hsum : position + weight * value (digit :: digits) (radix :: radices) =
          position + digit * weight + weight * radix * value digits radices := by
        rw [value]
        ring
      rw [encodeFrom?_cons_eq_some_iff, weighable_cons, hsum]
      constructor
      · rintro ⟨-, hnext, hradix, hrest⟩
        obtain ⟨hweights, htotal, hfit⟩ := (ih (Nat.succ.inj hlength) hradix hnext).mp hrest
        exact ⟨⟨hweight, hweights⟩, htotal, hfit⟩
      · rintro ⟨⟨-, hweights⟩, rfl, hfit⟩
        have hradix : weight * radix ≤ Word.top := by simpa using hweights [] List.nil_prefix
        have hnext : position + digit * weight ≤ Word.top := (Nat.le_add_right _ _).trans hfit
        exact ⟨(Nat.le_add_left _ _).trans hnext, hnext, hradix,
          (ih (Nat.succ.inj hlength) hradix hnext).mpr ⟨hweights, rfl, hfit⟩⟩

theorem encode?_eq_some_iff :
    encode? digits radices = some position ↔
      digits.length = radices.length ∧ Weighable 1 radices ∧
        value digits radices = position ∧ position ≤ Word.top := by
  rw [encode?]
  split
  · rename_i hlength
    rw [encodeFrom?_eq_some_iff hlength (by decide) (Nat.zero_le _), Nat.zero_add, Nat.one_mul]
    simp only [hlength, true_and]
  · rename_i hlength
    simp [hlength]

/-! ### From a position to digits -/

theorem of_decodeFrom?_eq_some (hweight : weight ≤ Word.top)
    (h : decodeFrom? position weight radices = some digits) :
    (∀ radix ∈ radices, 0 < radix) ∧ weight * size radices ≤ Word.top := by
  induction radices generalizing weight digits with
  | nil => simpa using hweight
  | cons radix radices ih =>
    simp only [decodeFrom?, Option.bind_eq_bind, Option.bind_eq_some_iff] at h
    obtain ⟨quotient, -, digit, hdigit, weight', hweight', rest, hrest, -⟩ := h
    obtain ⟨rfl, hfit⟩ := Word.mul?_eq_some_iff.mp hweight'
    obtain ⟨hpos, hsize⟩ := ih hfit hrest
    have hradix : 0 < radix := by
      refine Nat.pos_of_ne_zero fun hzero ↦ ?_
      rw [Word.rem?, if_pos hzero] at hdigit
      cases hdigit
    rw [size_cons, ← Nat.mul_assoc]
    exact ⟨List.forall_mem_cons.mpr ⟨hradix, hpos⟩, hsize⟩

theorem decode?_eq_none_iff : decode? position radices = none ↔ size? radices = none := by
  constructor
  · intro h
    by_contra hsome
    obtain ⟨total, htotal⟩ := Option.ne_none_iff_exists'.mp hsome
    rw [decode?_eq_digits position htotal] at h
    cases h
  · intro h
    by_contra hsome
    obtain ⟨digits, hdigits⟩ := Option.ne_none_iff_exists'.mp hsome
    obtain ⟨hpos, hfit⟩ := of_decodeFrom?_eq_some (by decide) hdigits
    rw [Nat.one_mul] at hfit
    rw [size?_eq_some_iff.mpr ⟨hpos, rfl, hfit⟩] at h
    cases h

/-- Positions that differ by a multiple of the size have the same digits. -/
theorem digits_mod_size (radices : List Nat) (position : Nat) :
    Radix.digits radices (position % size radices) = Radix.digits radices position := by
  induction radices generalizing position with
  | nil => rfl
  | cons radix radices ih =>
    rw [size_cons, Radix.digits, Radix.digits, Nat.mod_mul_right_mod, Nat.mod_mul_right_div_self,
      ih]

/-! ### Both walks -/

/-- On any numbers, the walk to digits fails exactly where the radices make no action, and else it
finds the digits of the position modulo the product of the radices. The walk to a position fails
exactly when the lists have different lengths, some product of first radices is no word, that of all
of them included, or the exact sum is no word, and else it finds the exact sum. -/
theorem walks_exact (name : String) (position : Nat) (digits radices : List Nat) :
    (decode? position radices = none ↔ ∃ cause, Action.create name radices = .error cause) ∧
      (∀ action, Action.create name radices = .ok action →
        ∃ found, decode? position radices = some found ∧ InRange found radices ∧
          value found radices = position % radices.prod) ∧
      (encode? digits radices = none ↔
        digits.length ≠ radices.length ∨ (∃ front, front <+: radices ∧ Word.top < front.prod) ∨
          Word.top < ∑ place : Fin digits.length, digits[place] * (radices.take place).prod) ∧
      ∀ found, encode? digits radices = some found →
        found = ∑ place : Fin digits.length, digits[place] * (radices.take place).prod := by
  have hweighable : ¬ Weighable 1 radices ↔ ∃ front, front <+: radices ∧ Word.top < front.prod := by
    simp only [Weighable, Nat.one_mul, not_forall, Nat.not_le, exists_prop]
  refine ⟨?_, fun action haction ↦ ?_, ?_, fun found hfound ↦ ?_⟩
  · simp only [decode?_eq_none_iff, Action.create_eq_error_iff, exists_and_left, exists_eq,
      and_true]
  · obtain ⟨total, htotal⟩ := Action.exists_create_iff.mp ⟨action, haction⟩
    obtain ⟨hpos, rfl, -⟩ := size?_eq_some_iff.mp htotal
    have hlt : position % size radices < size radices := Nat.mod_lt _ (size_pos hpos)
    refine ⟨_, decode?_eq_digits position htotal, ?_, ?_⟩
    · rw [← digits_mod_size]
      exact inRange_digits hlt
    · rw [← digits_mod_size, value_digits hlt, size_eq_prod]
  · by_cases hlength : digits.length = radices.length
    · rw [← value_eq_sum hlength, ← hweighable, Option.eq_none_iff_forall_ne_some]
      simp only [ne_eq, encode?_eq_some_iff, hlength, not_true_eq_false, true_and, false_or]
      constructor
      · intro h
        by_contra hneither
        obtain ⟨hweights, hsum⟩ := not_or.mp hneither
        exact h _ ⟨not_not.mp hweights, rfl, Nat.not_lt.mp hsum⟩
      · rintro (hweights | hsum) found ⟨hweights', rfl, hfit⟩
        · exact hweights hweights'
        · exact absurd hfit (Nat.not_le.mpr hsum)
    · simp [encode?, hlength]
  · obtain ⟨hlength, -, rfl, -⟩ := encode?_eq_some_iff.mp hfound
    exact value_eq_sum hlength

/-- A position past the size is taken modulo the size. -/
theorem walks_exact_sample :
    Action.create "access" [4, 3] = .ok ⟨"access", [4, 3], 12, rfl⟩ ∧
      ∃ found, decode? 29 [4, 3] = some found ∧ InRange found [4, 3] ∧ value found [4, 3] = 5 :=
  ⟨rfl, (walks_exact "access" 29 [] [4, 3]).2.1 ⟨"access", [4, 3], 12, rfl⟩ rfl⟩

/-- A zero among the radices, and a product that passes the words after the last digit. -/
example : encode? [7, 9] [0, 5] = some 7 ∧ decode? 7 [0, 5] = none ∧
    encode? [1] [Word.top] = some 1 ∧ encode? [1, 0] [Word.top, 2] = none := by decide

end CountTree.Radix
