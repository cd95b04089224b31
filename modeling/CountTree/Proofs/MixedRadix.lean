import CountTree.Radix
import Mathlib.Algebra.BigOperators.Group.List.Basic
import Mathlib.Tactic.Ring

/-!
Mixed-radix positions, exactly and in machine words. `value_digits` and `digits_value` make the
exact notions inverse to each other on positions below the size and on digits below their radices.
A list of radices that has a size at all (`size?_eq_some_iff`) leaves both walks with a running
weight inside the machine: `encode?_eq_value` and `decode?_eq_digits` say that they end, with the
exact answer, and so that no product, sum, quotient or remainder on the way fails. The weight
after the last radix is the size itself, which is why the walks may compute it and drop it.
-/

set_option autoImplicit false
set_option relaxedAutoImplicit false

namespace CountTree.Radix

/-! ### Sizes -/

@[simp] theorem size_nil : size [] = 1 := rfl

@[simp] theorem size_cons (radix : Nat) (radices : List Nat) :
    size (radix :: radices) = radix * size radices := rfl

theorem size_eq_prod (radices : List Nat) : size radices = radices.prod := by
  induction radices with
  | nil => rfl
  | cons radix radices ih => rw [size_cons, List.prod_cons, ih]

theorem size_pos {radices : List Nat} (h : ∀ radix ∈ radices, 0 < radix) : 0 < size radices := by
  induction radices with
  | nil => exact Nat.one_pos
  | cons radix radices ih =>
    rw [List.forall_mem_cons] at h
    exact Nat.mul_pos h.1 (ih h.2)

/-- A position below the size leaves no radix zero. -/
theorem radices_pos {radices : List Nat} (h : 0 < size radices) : ∀ radix ∈ radices, 0 < radix := by
  induction radices with
  | nil => simp
  | cons radix radices ih =>
    rw [size_cons] at h
    exact List.forall_mem_cons.mpr ⟨Nat.pos_of_mul_pos_right h, ih (Nat.pos_of_mul_pos_left h)⟩

/-! ### Digits and values -/

/-- Digits in range and their radices are walked through side by side. -/
@[elab_as_elim]
theorem InRange.induction
    {motive : (digits radices : List Nat) → InRange digits radices → Prop}
    (nil : motive [] [] trivial)
    (cons : ∀ {digit radix : Nat} {digits radices : List Nat} (hdigit : digit < radix)
      (hrest : InRange digits radices), motive digits radices hrest →
        motive (digit :: digits) (radix :: radices) ⟨hdigit, hrest⟩)
    {digits radices : List Nat} (h : InRange digits radices) : motive digits radices h := by
  induction radices generalizing digits with
  | nil =>
    rcases digits with _ | ⟨digit, digits⟩
    · exact nil
    · exact h.elim
  | cons radix radices ih =>
    rcases digits with _ | ⟨digit, digits⟩
    · exact h.elim
    · exact cons h.1 h.2 (ih h.2)

theorem InRange.length_eq {digits radices : List Nat} (h : InRange digits radices) :
    digits.length = radices.length := by
  induction h using InRange.induction with
  | nil => rfl
  | cons _ _ ih => rw [List.length_cons, List.length_cons, ih]

theorem value_lt_size {digits radices : List Nat} (h : InRange digits radices) :
    value digits radices < size radices := by
  induction h using InRange.induction with
  | nil => exact Nat.one_pos
  | @cons digit radix digits radices hdigit _ ih =>
    have hstep : value digits radices + 1 ≤ size radices := ih
    calc digit + radix * value digits radices
        < radix + radix * value digits radices := Nat.add_lt_add_right hdigit _
      _ = radix * (value digits radices + 1) := by rw [Nat.mul_add_one, Nat.add_comm]
      _ ≤ radix * size radices := Nat.mul_le_mul_left _ hstep

theorem InRange.le_value {digits radices : List Nat} (h : InRange digits radices) :
    ∀ digit ∈ digits, digit ≤ value digits radices := by
  induction h using InRange.induction with
  | nil => exact fun digit hdigit ↦ absurd hdigit List.not_mem_nil
  | @cons digit radix digits radices hdigit _ ih =>
    intro other hother
    rw [value]
    rcases List.mem_cons.mp hother with rfl | hrest
    · exact Nat.le_add_right _ _
    · calc other
          ≤ value digits radices := ih other hrest
        _ ≤ radix * value digits radices := Nat.le_mul_of_pos_left _ (Nat.zero_lt_of_lt hdigit)
        _ ≤ digit + radix * value digits radices := Nat.le_add_left _ _

theorem digits_value {digits radices : List Nat} (h : InRange digits radices) :
    Radix.digits radices (value digits radices) = digits := by
  induction h using InRange.induction with
  | nil => rfl
  | cons hdigit _ ih =>
    have hpos := Nat.zero_lt_of_lt hdigit
    rw [value, Radix.digits, Nat.add_mul_mod_self_left, Nat.mod_eq_of_lt hdigit,
      Nat.add_mul_div_left _ _ hpos, Nat.div_eq_of_lt hdigit, Nat.zero_add, ih]

theorem value_injective {digits digits' radices : List Nat} (h : InRange digits radices)
    (h' : InRange digits' radices) (hvalue : value digits radices = value digits' radices) :
    digits = digits' := by
  rw [← digits_value h, ← digits_value h', hvalue]

theorem inRange_digits {radices : List Nat} {position : Nat} (h : position < size radices) :
    InRange (digits radices position) radices := by
  induction radices generalizing position with
  | nil => trivial
  | cons radix radices ih =>
    have hpos : 0 < radix := radices_pos (Nat.zero_lt_of_lt h) radix List.mem_cons_self
    exact ⟨Nat.mod_lt _ hpos, ih (Nat.div_lt_of_lt_mul h)⟩

theorem value_digits {radices : List Nat} {position : Nat} (h : position < size radices) :
    value (digits radices position) radices = position := by
  induction radices generalizing position with
  | nil => exact (Nat.lt_one_iff.mp h).symm
  | cons radix radices ih =>
    rw [digits, value, ih (Nat.div_lt_of_lt_mul h), Nat.mod_add_div]

/-! ### The size as a machine word -/

/-- The fold behind `size?`, with any running product. Each factor is positive, so the running
product never falls, and the last one bounds all of them. -/
theorem foldlM_mul?_eq_some_iff {radices : List Nat} {product total : Nat}
    (hproduct : product ≤ Word.top) :
    radices.foldlM (fun product radix ↦ if radix = 0 then none else Word.mul? product radix)
        product = some total ↔
      (∀ radix ∈ radices, 0 < radix) ∧ product * size radices = total ∧ total ≤ Word.top := by
  induction radices generalizing product with
  | nil =>
    simp only [List.foldlM_nil, Option.pure_def, Option.some.injEq, List.not_mem_nil,
      false_imp_iff, implies_true, size_nil, Nat.mul_one, true_and]
    constructor
    · rintro rfl
      exact ⟨rfl, hproduct⟩
    · exact fun h ↦ h.1
  | cons radix radices ih =>
    rw [List.foldlM_cons, List.forall_mem_cons, size_cons, ← Nat.mul_assoc]
    by_cases hzero : radix = 0
    · simp [hzero]
    · have hpos : 0 < radix := Nat.pos_of_ne_zero hzero
      rw [if_neg hzero]
      by_cases hfit : product * radix ≤ Word.top
      · rw [Word.mul?_eq_some_iff.mpr ⟨rfl, hfit⟩, Option.bind_eq_bind, Option.bind_some, ih hfit]
        simp only [hpos, true_and]
      · have hnone : Word.mul? product radix = none := if_neg hfit
        rw [hnone, Option.bind_eq_bind, Option.bind_none]
        simp only [reduceCtorEq, false_iff]
        rintro ⟨⟨-, hrest⟩, rfl, htotal⟩
        exact hfit (Nat.le_trans (Nat.le_mul_of_pos_right _ (size_pos hrest)) htotal)

theorem size?_eq_some_iff {radices : List Nat} {total : Nat} :
    size? radices = some total ↔
      (∀ radix ∈ radices, 0 < radix) ∧ size radices = total ∧ total ≤ Word.top := by
  rw [size?, foldlM_mul?_eq_some_iff (by decide), Nat.one_mul]

/-! ### The walks in machine words -/

/-- The invariant of the walk: the position so far is below the running weight, and the weight
times the size of the radices to come is a word. -/
theorem encodeFrom?_eq_add {digits radices : List Nat} {weight position : Nat}
    (hrange : InRange digits radices) (hposition : position < weight)
    (hfit : weight * size radices ≤ Word.top) :
    encodeFrom? weight position digits radices =
      some (position + weight * value digits radices) := by
  induction hrange using InRange.induction generalizing weight position with
  | nil => rfl
  | @cons digit radix digits radices hdigit hrange ih =>
    have hrest : 0 < size radices := Nat.zero_lt_of_lt (value_lt_size hrange)
    rw [size_cons, ← Nat.mul_assoc] at hfit
    have hweight : weight * radix ≤ Word.top :=
      Nat.le_trans (Nat.le_mul_of_pos_right _ hrest) hfit
    have hsum : position + digit * weight < weight * radix := by
      calc position + digit * weight < weight + digit * weight := Nat.add_lt_add_right hposition _
        _ = weight * (digit + 1) := by rw [Nat.mul_add_one, Nat.mul_comm, Nat.add_comm]
        _ ≤ weight * radix := Nat.mul_le_mul_left _ hdigit
    have hterm : digit * weight ≤ Word.top := by omega
    have hnext : encodeFrom? (weight * radix) (position + digit * weight) digits radices =
        some (position + digit * weight + weight * radix * value digits radices) :=
      ih hsum hfit
    rw [encodeFrom?, Word.mul?_eq_some_iff.mpr ⟨rfl, hterm⟩, Option.bind_eq_bind,
      Option.bind_some, Word.add?_eq_some_iff.mpr ⟨rfl, by omega⟩, Option.bind_some,
      Word.mul?_eq_some_iff.mpr ⟨rfl, hweight⟩, Option.bind_some, hnext, value]
    congr 1
    ring

theorem decodeFrom?_eq_digits {radices : List Nat} {weight : Nat} (position : Nat)
    (hpos : ∀ radix ∈ radices, 0 < radix) (hweight : 0 < weight)
    (hfit : weight * size radices ≤ Word.top) :
    decodeFrom? position weight radices = some (digits radices (position / weight)) := by
  induction radices generalizing weight with
  | nil => rfl
  | cons radix radices ih =>
    rw [List.forall_mem_cons] at hpos
    rw [size_cons, ← Nat.mul_assoc] at hfit
    have hnextWeight : weight * radix ≤ Word.top :=
      Nat.le_trans (Nat.le_mul_of_pos_right _ (size_pos hpos.2)) hfit
    have hnext := ih hpos.2 (Nat.mul_pos hweight hpos.1) hfit
    have hquotient : Word.div? position weight = some (position / weight) :=
      if_neg (Nat.pos_iff_ne_zero.mp hweight)
    have hdigit : Word.rem? (position / weight) radix = some (position / weight % radix) :=
      if_neg (Nat.pos_iff_ne_zero.mp hpos.1)
    rw [decodeFrom?, hquotient, Option.bind_eq_bind, Option.bind_some, hdigit, Option.bind_some,
      Word.mul?_eq_some_iff.mpr ⟨rfl, hnextWeight⟩, Option.bind_some, hnext, Option.bind_eq_bind,
      Option.bind_some, digits, Nat.div_div_eq_div_mul]
    rfl

theorem encode?_eq_value {digits radices : List Nat} {total : Nat}
    (hsize : size? radices = some total) (hrange : InRange digits radices) :
    encode? digits radices = some (value digits radices) := by
  obtain ⟨-, rfl, hfit⟩ := size?_eq_some_iff.mp hsize
  rw [encode?, if_pos hrange.length_eq,
    encodeFrom?_eq_add hrange Nat.one_pos (by rwa [Nat.one_mul]), Nat.zero_add, Nat.one_mul]

/-- No bound on the position is needed: past the size, the highest digits are dropped. -/
theorem decode?_eq_digits {radices : List Nat} {total : Nat} (position : Nat)
    (hsize : size? radices = some total) :
    decode? position radices = some (digits radices position) := by
  obtain ⟨hpos, rfl, hfit⟩ := size?_eq_some_iff.mp hsize
  rw [decode?, decodeFrom?_eq_digits position hpos Nat.one_pos (by rwa [Nat.one_mul]),
    Nat.div_one]

end CountTree.Radix
