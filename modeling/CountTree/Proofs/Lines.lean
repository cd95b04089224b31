import Mathlib.Data.List.SplitBy

/-!
Texts line by line. `Text.lines` cuts a text after each line break and keeps the break, so that
nothing is lost (`flatten_lines`) and whole lines can be put together (`lines_append`). To say that
no line begins with a certain character it is enough to look at what follows each break:
`Text.Clear` says it of all lines, `Text.ClearAfter` of all lines but the first, and both go from
pieces of a text to the text. A list in which marked items open the pieces, or close them, is cut
back into its pieces (`splitBy_opened`, `splitBy_closed`).
-/

set_option autoImplicit false
set_option relaxedAutoImplicit false

namespace CountTree

namespace Text

/-! ### Lines -/

/-- The lines of a text, each with the break that ends it. -/
def lines : List Char → List (List Char)
  | [] => []
  | c :: rest =>
    if c = '\n' then [c] :: lines rest
    else
      match lines rest with
      | [] => [[c]]
      | line :: others => (c :: line) :: others

variable {text first second : List Char} {c mark : Char}

theorem lines_newline (rest : List Char) : lines ('\n' :: rest) = ['\n'] :: lines rest := rfl

theorem lines_cons (h : c ≠ '\n') (rest : List Char) :
    lines (c :: rest) = (c :: (lines rest).headD []) :: (lines rest).tail := by
  rw [lines, if_neg h]
  rcases lines rest with _ | ⟨line, others⟩ <;> rfl

theorem flatten_lines (text : List Char) : (lines text).flatten = text := by
  induction text with
  | nil => rfl
  | cons c rest ih =>
    by_cases hc : c = '\n'
    · rw [hc, lines_newline, List.flatten_cons, ih]
      rfl
    · rw [lines_cons hc]
      conv_rhs => rw [← ih]
      rcases lines rest with _ | ⟨line, others⟩ <;> rfl

theorem lines_ne_nil (h : text ≠ []) : lines text ≠ [] := by
  intro hlines
  have hflatten := flatten_lines text
  rw [hlines] at hflatten
  exact h hflatten.symm

/-- A break at the end of a text ends its last line. -/
theorem lines_append (h : first.getLast? = some '\n') (second : List Char) :
    lines (first ++ second) = lines first ++ lines second := by
  induction first with
  | nil => cases h
  | cons c rest ih =>
    by_cases hrest : rest = []
    · subst hrest
      obtain rfl : c = '\n' := by simpa using h
      rfl
    · have hrest' : lines (rest ++ second) = lines rest ++ lines second :=
        ih (by rwa [List.getLast?_cons_of_ne_nil hrest] at h)
      by_cases hc : c = '\n'
      · rw [hc, List.cons_append, lines_newline, lines_newline, hrest', List.cons_append]
      · rw [List.cons_append, lines_cons hc, lines_cons hc, hrest']
        obtain ⟨line, others, hlines⟩ := List.exists_cons_of_ne_nil (lines_ne_nil hrest)
        rw [hlines]
        rfl

/-- Texts that end in a break are put together line by line. -/
theorem lines_flatten {texts : List (List Char)}
    (h : ∀ text ∈ texts, text.getLast? = some '\n') :
    lines texts.flatten = (texts.map lines).flatten := by
  induction texts with
  | nil => rfl
  | cons text texts ih =>
    rw [List.flatten_cons, lines_append (h text List.mem_cons_self),
      ih fun other hother ↦ h other (List.mem_cons_of_mem _ hother), List.map_cons,
      List.flatten_cons]

/-! ### What lines begin with -/

/-- After its first line, no line of the text begins with the mark. -/
def ClearAfter (mark : Char) (text : List Char) : Prop :=
  text.IsChain fun c d ↦ c = '\n' → d ≠ mark

instance (mark : Char) (text : List Char) : Decidable (ClearAfter mark text) :=
  inferInstanceAs (Decidable (text.IsChain fun c d ↦ c = '\n' → d ≠ mark))

/-- No line of the text begins with the mark. -/
def Clear (mark : Char) (text : List Char) : Prop := ClearAfter mark ('\n' :: text)

theorem clear_nil : Clear mark [] := List.isChain_singleton _

theorem clear_cons : Clear mark (c :: text) ↔ c ≠ mark ∧ ClearAfter mark (c :: text) := by
  rw [Clear, ClearAfter, List.isChain_cons_cons, ClearAfter]
  simp

theorem Clear.clearAfter (h : Clear mark text) : ClearAfter mark text := List.IsChain.tail h

theorem clearAfter_nil : ClearAfter mark [] := List.isChain_nil

theorem clearAfter_cons (h : c ≠ '\n') :
    ClearAfter mark (c :: text) ↔ ClearAfter mark text := by
  rw [ClearAfter, List.isChain_cons, ClearAfter]
  simp [h]

/-- Where no line begins with the mark, it does not matter what comes before. -/
theorem Clear.cons (h : Clear mark text) (c : Char) : ClearAfter mark (c :: text) := by
  rw [ClearAfter, List.isChain_cons]
  refine ⟨fun d hd _ hmark ↦ ?_, h.clearAfter⟩
  rcases text with _ | ⟨first, rest⟩
  · cases hd
  · obtain rfl := Option.some.inj hd
    exact (clear_cons.mp h).1 hmark

theorem ClearAfter.append (hfirst : ClearAfter mark first) (hsecond : Clear mark second) :
    ClearAfter mark (first ++ second) := by
  induction first with
  | nil => exact hsecond.clearAfter
  | cons c rest ih =>
    rw [ClearAfter, List.isChain_cons] at hfirst
    rw [List.cons_append, ClearAfter, List.isChain_cons]
    refine ⟨fun d hd ↦ ?_, ih hfirst.2⟩
    rcases rest with _ | ⟨e, rest⟩
    · exact (List.isChain_cons.mp (hsecond.cons c)).1 d hd
    · exact hfirst.1 d hd

theorem Clear.append (hfirst : Clear mark first) (hsecond : Clear mark second) :
    Clear mark (first ++ second) := ClearAfter.append hfirst hsecond

/-- A part of a line before a text adds no line. -/
theorem clearAfter_append (h : '\n' ∉ first) :
    ClearAfter mark (first ++ second) ↔ ClearAfter mark second := by
  induction first with
  | nil => rfl
  | cons c rest ih =>
    rw [List.mem_cons, not_or] at h
    rw [List.cons_append, clearAfter_cons (Ne.symm h.1), ih h.2]

theorem clearAfter_of_notMem (h : '\n' ∉ text) : ClearAfter mark text := by
  have hnil : ClearAfter mark (text ++ []) := (clearAfter_append h).mpr clearAfter_nil
  rwa [List.append_nil] at hnil

theorem newline_notMem_toDigits (n : Nat) : '\n' ∉ Nat.toDigits 10 n := fun hmem ↦
  absurd (Nat.isDigit_of_mem_toDigits (by decide) (by decide) hmem) (by decide)

theorem ne_of_isDigit {c d : Char} (hc : c.isDigit) (hd : d.isDigit = false) : c ≠ d := by
  rintro rfl
  simp [hc] at hd

/-- The first digit of a number is zero for zero alone. -/
theorem exists_toDigits (n : Nat) :
    ∃ c more, Nat.toDigits 10 n = c :: more ∧ c.isDigit ∧ (c = '0' → n = 0) := by
  induction n using Nat.strongRecOn with
  | ind n ih =>
    by_cases hsmall : n < 10
    · rw [Nat.toDigits_of_lt_base hsmall]
      refine ⟨_, [], rfl, ?_, Nat.digitChar_eq_zero.mp⟩
      rw [Nat.isDigit_digitChar, decide_eq_true hsmall]
    · obtain ⟨c, more, hfirst, hdigit, hzero⟩ := ih (n / 10) (by omega)
      rw [Nat.toDigits_of_base_le (by decide) (by omega), hfirst]
      exact ⟨c, _, List.cons_append, hdigit, fun hc ↦ absurd (hzero hc) (by omega)⟩

/-- The first line begins as the text does. -/
theorem head?_headD_lines (text : List Char) : ((lines text).headD []).head? = text.head? := by
  rcases text with _ | ⟨c, rest⟩
  · rfl
  · by_cases hc : c = '\n'
    · rw [hc]
      rfl
    · rw [lines_cons hc]
      rfl

theorem ClearAfter.head?_ne (h : ClearAfter mark text) :
    ∀ line ∈ (lines text).tail, line.head? ≠ some mark := by
  induction text with
  | nil => exact fun line hline ↦ absurd hline List.not_mem_nil
  | cons c rest ih =>
    by_cases hc : c = '\n'
    · subst hc
      intro line hline
      rw [lines_newline, List.tail_cons] at hline
      have hfirst := head?_headD_lines rest
      rcases hlines : lines rest with _ | ⟨first, others⟩
      · rw [hlines] at hline
        cases hline
      · have hrest := ih (List.IsChain.tail h)
        rw [hlines, List.headD_cons] at hfirst
        rw [hlines, List.tail_cons] at hrest
        rw [hlines] at hline
        rcases List.mem_cons.mp hline with rfl | hline
        · rw [hfirst]
          intro hmark
          exact (List.isChain_cons.mp h).1 mark hmark rfl rfl
        · exact hrest line hline
    · rw [lines_cons hc]
      exact ih ((clearAfter_cons hc).mp h)

theorem Clear.head?_ne (h : Clear mark text) : ∀ line ∈ lines text, line.head? ≠ some mark :=
  ClearAfter.head?_ne h

/-- Beginning with a mark twice over counts for the first line as well. -/
theorem ClearAfter.not_begins {marks : List Char} (h : ClearAfter mark text)
    (hfirst : ¬ mark :: marks <+: text) : ∀ line ∈ lines text, ¬ mark :: marks <+: line := by
  intro line hline hbegins
  have hlater := h.head?_ne
  have hflatten := flatten_lines text
  rcases hlines : lines text with _ | ⟨first, others⟩
  · rw [hlines] at hline
    cases hline
  · rw [hlines] at hline hlater hflatten
    rcases List.mem_cons.mp hline with rfl | hline
    · rw [← hflatten, List.flatten_cons] at hfirst
      exact hfirst (hbegins.trans (List.prefix_append _ _))
    · obtain ⟨rest, rfl⟩ := hbegins
      exact hlater _ hline rfl

end Text

/-! ### Pieces between marks -/

section Pieces

variable {α : Type} {isMark : α → Bool} {pieces : List (List α)}

/-- Pieces that each begin with a mark, and hold no other, are found again. -/
theorem splitBy_opened
    (h : ∀ piece ∈ pieces, ∃ mark rest, piece = mark :: rest ∧ isMark mark = true ∧
      ∀ item ∈ rest, isMark item = false) :
    pieces.flatten.splitBy (fun _ next ↦ !isMark next) = pieces := by
  refine List.splitBy_flatten ?_ ?_ ?_
  · intro hnil
    obtain ⟨mark, rest, heq, -⟩ := h [] hnil
    cases heq
  · intro piece hpiece
    obtain ⟨mark, rest, rfl, -, hrest⟩ := h piece hpiece
    refine List.Pairwise.isChain (List.pairwise_cons.mpr ⟨fun item hitem ↦ ?_, ?_⟩)
    · simpa using hrest item hitem
    · exact List.pairwise_of_forall_mem_list fun _ _ item hitem ↦ by simpa using hrest item hitem
  · refine List.Pairwise.isChain (List.pairwise_of_forall_mem_list fun piece hpiece next hnext ↦ ?_)
    obtain ⟨mark, rest, rfl, -, -⟩ := h piece hpiece
    obtain ⟨mark', rest', rfl, hmark, -⟩ := h next hnext
    exact ⟨List.cons_ne_nil _ _, List.cons_ne_nil _ _, by simpa using hmark⟩

/-- Pieces that each end with a mark, and hold no other, are found again. -/
theorem splitBy_closed
    (h : ∀ piece ∈ pieces, ∃ rest mark, piece = rest ++ [mark] ∧ isMark mark = true ∧
      ∀ item ∈ rest, isMark item = false) :
    pieces.flatten.splitBy (fun item _ ↦ !isMark item) = pieces := by
  refine List.splitBy_flatten ?_ ?_ ?_
  · intro hnil
    obtain ⟨rest, mark, heq, -⟩ := h [] hnil
    simp at heq
  · intro piece hpiece
    obtain ⟨rest, mark, rfl, -, hrest⟩ := h piece hpiece
    refine List.Pairwise.isChain (List.pairwise_append.mpr ⟨?_, List.pairwise_singleton _ _, ?_⟩)
    · exact List.pairwise_of_forall_mem_list fun item hitem _ _ ↦ by simpa using hrest item hitem
    · exact fun item hitem _ _ ↦ by simpa using hrest item hitem
  · refine List.Pairwise.isChain (List.pairwise_of_forall_mem_list fun piece hpiece next hnext ↦ ?_)
    obtain ⟨rest, mark, rfl, hmark, -⟩ := h piece hpiece
    obtain ⟨rest', mark', rfl, -, -⟩ := h next hnext
    exact ⟨by simp, by simp, by simpa using hmark⟩

end Pieces

end CountTree
