import CountTree.Proofs.Reachable
import CountTree.Proofs.Recording
import CountTree.Proofs.SignedWords
import CountTree.Proofs.Steps
import CountTree.Unit.Mac

/-!
One operation of a multiply-accumulate unit. Its result is the product and the sum, exactly, taken
to the range of the unit's width (`result_eq`): a gated operation has a zero product, so that
passing the addend through comes to the same, and the shifts that keep the low bits are by amounts
that a machine accepts. `calculate_exact` is the main statement.
-/

set_option autoImplicit false
set_option relaxedAutoImplicit false

namespace CountTree

namespace Mac

open Component Signed

variable {factor factor' addend : Int}

/-- Gated or not, the result is the exact one in the range of the width. -/
theorem result_eq (mac : Mac) (factor factor' : Int) (haddend : InWidth 64 addend) :
    mac.result factor factor' addend =
      .ok ((factor * factor' + addend).bmod (2 ^ significant mac.bitWidth)) := by
  rw [result, truncate_eq, truncate_eq]
  split
  · rw [narrow_wrap]
    have hproduct : (wrap (factor * factor') + addend).bmod (2 ^ 64) =
        (factor * factor' + addend).bmod (2 ^ 64) := Int.bmod_add_bmod
    rw [← narrow_wrap, wrap]
    exact congrArg Except.ok
      ((congrArg (narrow mac.bitWidth) hproduct).trans (narrow_wrap _ _))
  · rename_i hgated
    have hzero : factor * factor' = 0 := by
      rw [mul_eq_zero]
      by_contra hne
      exact hgated (not_or.mp hne)
    rw [hzero, zero_add, narrow_of_inWidth _ haddend]

/-- An operation is counted and then returns its result, or ends as its counting does, which then
has changed nothing. -/
theorem calculate_cases (mac : Mac) (factor factor' : Int) (haddend : InWidth 64 addend)
    (node : Component) :
    (∃ next, count (action factor factor') [] node = .ok () next ∧
      mac.calculate factor factor' addend node =
        .ok ((factor * factor' + addend).bmod (2 ^ significant mac.bitWidth)) next) ∨
    ∃ cause, count (action factor factor') [] node = .error cause node ∧
      mac.calculate factor factor' addend node = .error cause node := by
  rcases hcount : count (action factor factor') [] node with ⟨_, next⟩ | ⟨cause, next⟩
  · refine .inl ⟨next, rfl, ?_⟩
    rw [calculate, Run.bind_of_ok hcount, mac.result_eq factor factor' haddend]
    rfl
  · obtain rfl := state_of_record_error hcount
    exact .inr ⟨cause, rfl, by rw [calculate, Run.bind_of_error hcount]⟩

/-- An operation that succeeds returns the one number of the unit's width that is congruent to the
exact product and sum, and counts once, as gated if a factor is zero and else as random; nothing
else changes. One that fails does so because it could not be counted, and changes nothing at all.
The result itself is always there: no shift in it is refused. -/
theorem calculate_exact {node : Component} (h : Reachable node) (mac : Mac)
    (factor factor' : Int) {addend : Int} (haddend : InWidth 64 addend) :
    let width := if 1 ≤ mac.bitWidth ∧ mac.bitWidth ≤ 63 then mac.bitWidth else 64
    let counted := if factor ≠ 0 ∧ factor' ≠ 0 then "mac_random" else "mac_gated"
    (∀ value next, mac.calculate factor factor' addend node = .ok value next →
        InWidth width value ∧
        value ≡ factor * factor' + addend [ZMOD 2 ^ width] ∧
        (∀ other, InWidth width other → other ≡ factor * factor' + addend [ZMOD 2 ^ width] →
          other = value) ∧
        next.skeleton = node.skeleton ∧ next.children = node.children ∧
        ∃ count, node.counterValue counted [] = .ok count ∧
          ∀ action arguments, next.counterValue action arguments =
            if action = counted ∧ arguments = [] then .ok (count + 1)
            else node.counterValue action arguments) ∧
      (∀ cause next, mac.calculate factor factor' addend node = .error cause next →
        next = node ∧ count counted [] node = .error cause node) ∧
      (∀ next, count counted [] node = .ok () next →
        ∃ value, mac.calculate factor factor' addend node = .ok value next) ∧
      ∃ value, mac.result factor factor' addend = .ok value ∧
        ∀ other next, mac.calculate factor factor' addend node = .ok other next →
          other = value := by
  intro width counted
  have hwell : node.WellFormed := h.wellFormed.here
  have hwidth : width = significant mac.bitWidth := by
    simp only [width, significant]
    split_ifs <;> omega
  have hpos : 0 < width := hwidth ▸ significant_pos _
  let exact := (factor * factor' + addend).bmod (2 ^ significant mac.bitWidth)
  have hcases := mac.calculate_cases factor factor' haddend node
  have hok : ∀ value next, mac.calculate factor factor' addend node = .ok value next →
      value = exact ∧ count counted [] node = .ok () next := by
    intro value next hrun
    obtain ⟨other, hcount, hother⟩ | ⟨cause, -, hother⟩ := hcases <;> rw [hother] at hrun <;>
      cases hrun
    exact ⟨rfl, hcount⟩
  refine ⟨fun value next hrun ↦ ?_, fun cause next hrun ↦ ?_, fun next hcount ↦ ?_,
    exact, mac.result_eq factor factor' haddend, fun other next hrun ↦ (hok other next hrun).1⟩
  · obtain ⟨rfl, hcount⟩ := hok value next hrun
    obtain ⟨before, hvalue, hfit⟩ := counterValue_of_record hwell hcount
    have hnext : next = after (count counted []) node := by rw [after, hcount, Outcome.state]
    have hrange : InWidth width exact := hwidth ▸ inWidth_bmod (significant_pos _) _
    have hmod : exact ≡ factor * factor' + addend [ZMOD 2 ^ width] := hwidth ▸ bmod_modEq _ _
    refine ⟨hrange, hmod, fun other hother hsame ↦
      hother.eq_of_modEq hrange hpos (hsame.trans hmod.symm), ?_, ?_, before, hvalue, ?_⟩
    · rw [hnext]
      exact skeleton_after_record _ _ _ node
    · rw [hnext]
      exact children_after_record _ _ _ node
    · rw [hnext]
      exact counterValue_after_record hwell hvalue hfit
  · obtain ⟨other, -, hother⟩ | ⟨cause', hcount, hother⟩ := hcases <;> rw [hother] at hrun <;>
      cases hrun
    exact ⟨rfl, hcount⟩
  · obtain ⟨other, hcount', hother⟩ | ⟨cause, hcount', -⟩ := hcases
    · obtain rfl : other = next := by
        have hsame := hcount'.symm.trans hcount
        cases hsame
        rfl
      exact ⟨exact, hother⟩
    · cases hcount'.symm.trans hcount

/-- The least word times minus one and the largest word added, at a width of eight bits: the sum is
one below the number of words. -/
theorem calculate_exact_sample :
    let schema : Schema :=
      ⟨[Action.simple "mac_random", Action.simple "mac_gated"], by decide⟩
    let node : Component := ⟨"mac", .leaf ⟨"MAC", Attributes.empty, schema, ⟨[[0], [0]]⟩⟩, []⟩
    Reachable node ∧ InWidth 64 (2 ^ 63 - 1) ∧
      ∃ next, calculate ⟨8, 1⟩ (-2 ^ 63) (-1) (2 ^ 63 - 1) node = .ok (-1) next ∧
        next.counterValue "mac_random" [] = .ok 1 ∧ next.counterValue "mac_gated" [] = .ok 0 := by
  intro schema node
  have hnode : Reachable node :=
    have hleaf : Component.leaf "mac" "MAC" Attributes.empty schema = .ok node := by decide
    .leaf hleaf
  have haddend : InWidth 64 (2 ^ 63 - 1) := by decide
  obtain ⟨hvalue, -, hsucceeds, -⟩ := calculate_exact hnode ⟨8, 1⟩ (-2 ^ 63) (-1) haddend
  have hcount : ∃ next, count "mac_random" [] node = .ok () next := ⟨_, rfl⟩
  obtain ⟨next, hcount⟩ := hcount
  obtain ⟨value, hrun⟩ := hsucceeds next hcount
  obtain ⟨-, -, hunique, -, -, before, hbefore, hafter⟩ := hvalue value next hrun
  obtain rfl : 0 = before := Except.ok.inj hbefore
  obtain rfl := hunique (-1) (by decide) (by decide)
  exact ⟨hnode, haddend, next, hrun, (hafter _ _).trans (if_pos ⟨rfl, rfl⟩),
    (hafter "mac_gated" []).trans rfl⟩

end Mac

end CountTree
