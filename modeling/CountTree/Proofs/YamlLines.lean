import CountTree.Proofs.Lines
import CountTree.Yaml.Printer
import Mathlib.Algebra.Ring.Nat
import Mathlib.Data.List.Basic

/-!
The lines of a YAML text. A scalar that stands on one line holds no break: a text with a break is
written as a literal block or between double quotes, where it is escaped. Everything that starts a
line inside a mapping is moved to the right, so that no line but the first begins with a dash
(`clearAfter_value`). The first line of a report is the key of the root, which is quoted when it
begins like a separator of documents. `not_separator_of_mem_lines` is the main statement: no line
of a report is such a separator, whatever names and texts it holds.
-/

set_option autoImplicit false
set_option relaxedAutoImplicit false

namespace CountTree.Yaml

open Text

variable {column : Nat} {content key : String} {text : List Char}

/-! ### Scalars -/

theorem style_of_mem (h : '\n' ∈ text) : style text = .literal ∨ style text = .doubleQuoted := by
  rw [style, if_pos (List.contains_iff_mem.mpr h)]
  split
  · exact .inl rfl
  · exact .inr rfl

theorem newline_notMem (h : style text ≠ .literal) (h' : style text ≠ .doubleQuoted) :
    '\n' ∉ text := fun hmem ↦ (style_of_mem hmem).elim h h'

/-- A plain scalar holds nothing that means something to YAML and is read as a text. -/
theorem of_style_eq_plain (h : style text = .plain) :
    allowsPlain text = true ∧ readsOtherwise text = false := by
  rw [style, quotedStyle] at h
  split at h
  · split at h <;> cases h
  · split at h
    · rename_i hplain
      simpa using hplain
    · split at h <;> cases h

theorem newline_notMem_hexDigits (count n : Nat) : '\n' ∉ hexDigits count n := by
  have hdigit : ∀ digit : Fin 16, (Nat.digitChar digit).toUpper ≠ '\n' := by decide
  induction count with
  | zero => exact List.not_mem_nil
  | succ count ih =>
    rw [hexDigits, List.mem_cons, not_or]
    exact ⟨(hdigit ⟨_, Nat.mod_lt _ (by decide)⟩).symm, ih⟩

/-- The marks of numeric escapes, with the number of digits after each. -/
def numericMarks : List (Char × Nat) := [('x', 2), ('u', 4), ('U', 8)]

theorem exists_numericEscape (c : Char) : ∃ mark ∈ numericMarks,
    numericEscape c = mark.1 :: hexDigits mark.2 c.toNat ∧ c.toNat < 16 ^ mark.2 := by
  have hvalid : c.toNat < 0x110000 := by
    have hvalid : c.toNat.isValidChar := c.valid
    rcases hvalid with hvalid | ⟨-, hvalid⟩ <;> omega
  rw [numericEscape]
  split
  · exact ⟨('x', 2), by decide, rfl, Nat.lt_succ_of_le ‹_›⟩
  · split
    · exact ⟨('u', 4), by decide, rfl, Nat.lt_succ_of_le ‹_›⟩
    · exact ⟨('U', 8), by decide, rfl, hvalid.trans (by decide)⟩

theorem newline_notMem_numericEscape (c : Char) : '\n' ∉ numericEscape c := by
  have hmarks : ∀ mark ∈ numericMarks, '\n' ≠ mark.1 := by decide
  obtain ⟨mark, hmark, heq, -⟩ := exists_numericEscape c
  rw [heq]
  exact List.not_mem_cons_of_ne_of_not_mem (hmarks mark hmark) (newline_notMem_hexDigits _ _)

/-- What follows the backslash of an escape. -/
def escapeName (c : Char) : List Char :=
  ((escapeLetters.lookup c).map fun letter ↦ [letter]).getD (numericEscape c)

theorem escapeName_cases (c : Char) :
    (∃ letter, (c, letter) ∈ escapeLetters ∧ escapeName c = [letter]) ∨
      escapeName c = numericEscape c := by
  rw [escapeName]
  rcases hlookup : escapeLetters.lookup c with _ | letter
  · exact .inr rfl
  · obtain ⟨before, after, hsplit, -⟩ := List.lookup_eq_some_iff.mp hlookup
    exact .inl ⟨letter, by simp [hsplit], rfl⟩

theorem escape_eq (c : Char) :
    escape c = if isEscaped c then '\\' :: escapeName c else [c] := rfl

theorem newline_notMem_escape (c : Char) : '\n' ∉ escape c := by
  have hletters : ∀ entry ∈ escapeLetters, '\n' ≠ entry.2 := by decide
  rw [escape_eq]
  split
  · refine List.not_mem_cons_of_ne_of_not_mem (by decide) ?_
    obtain ⟨letter, hletter, heq⟩ | heq := escapeName_cases c <;> rw [heq]
    · exact List.not_mem_cons_of_ne_of_not_mem (hletters _ hletter) List.not_mem_nil
    · exact newline_notMem_numericEscape c
  · rename_i hescaped
    have hc : c ≠ '\n' := by
      rintro rfl
      exact hescaped (by decide)
    simpa using hc.symm

theorem newline_notMem_doubleQuoted (text : List Char) : '\n' ∉ doubleQuoted text := by
  refine List.not_mem_cons_of_ne_of_not_mem (by decide) ?_
  rw [List.mem_append, not_or, List.mem_flatMap]
  refine ⟨?_, by decide⟩
  rintro ⟨c, -, hc⟩
  exact newline_notMem_escape c hc

theorem newline_notMem_blanks (column : Nat) : '\n' ∉ blanks column := fun hmem ↦
  absurd (List.eq_of_mem_replicate hmem) (by decide)

theorem newline_notMem_singleQuoted (column : Nat) (h : '\n' ∉ text) :
    '\n' ∉ singleQuoted column text := by
  have hrest (afterBreak : Bool) : '\n' ∉ singleQuotedRest column afterBreak text := by
    induction text generalizing afterBreak with
    | nil =>
      rw [singleQuotedRest]
      split <;> simp [newline_notMem_blanks]
    | cons c text ih =>
      rw [List.mem_cons, not_or] at h
      rw [singleQuotedRest]
      split
      · exact List.not_mem_cons_of_ne_of_not_mem h.1 (ih h.2 true)
      · rw [List.mem_append, List.mem_append, not_or, not_or]
        refine ⟨⟨?_, ?_⟩, ih h.2 false⟩
        · split <;> simp [newline_notMem_blanks]
        · split <;> simp [h.1]
  exact List.not_mem_cons_of_ne_of_not_mem (by decide) (hrest false)

theorem newline_notMem_scalarInline (content : String) : '\n' ∉ scalarInline content := by
  rw [scalarInline]
  split
  · rename_i hstyle
    exact newline_notMem (by simp [hstyle]) (by simp [hstyle])
  · rename_i hstyle
    exact newline_notMem_singleQuoted 0 (newline_notMem (by simp [hstyle]) (by simp [hstyle]))
  · exact newline_notMem_doubleQuoted _

/-! ### Lines that are moved to the right -/

theorem clear_newline : Clear '-' ['\n'] := clear_cons.mpr ⟨by decide, List.isChain_singleton _⟩

theorem clear_blanks_append (h : 0 < column) (hrest : ClearAfter '-' text) :
    Clear '-' (blanks column ++ text) := by
  obtain ⟨column, rfl⟩ : ∃ smaller, column = smaller + 1 := ⟨column - 1, by omega⟩
  rw [blanks, List.replicate_succ, List.cons_append, clear_cons, clearAfter_cons (by decide)]
  exact ⟨by decide, (clearAfter_append (newline_notMem_blanks column)).mpr hrest⟩

theorem isBreak_dash : isBreak '-' = false := by decide

/-- Lines of a block that are not empty begin in its column. -/
theorem clear_literalRest (h : 0 < column) (text : List Char) :
    Clear '-' (literalRest column true text) ∧ ClearAfter '-' (literalRest column false text) := by
  induction text with
  | nil => exact ⟨clear_nil, clearAfter_nil⟩
  | cons c rest ih =>
    rw [literalRest, literalRest]
    split
    · rename_i hbreak
      have hc : c ≠ '-' := by
        rintro rfl
        simp [isBreak_dash] at hbreak
      exact ⟨clear_cons.mpr ⟨hc, ih.1.cons c⟩, ih.1.cons c⟩
    · rename_i hbreak
      have hc : c ≠ '\n' := by
        rintro rfl
        exact hbreak (by decide)
      have hline : ClearAfter '-' (c :: literalRest column false rest) :=
        (clearAfter_cons hc).mpr ih.2
      rw [if_pos rfl, if_neg Bool.false_ne_true]
      exact ⟨clear_blanks_append h hline, hline⟩

theorem newline_notMem_literalHints (text : List Char) : '\n' ∉ literalHints text := by
  rw [literalHints, List.mem_append, not_or]
  constructor
  · split <;> decide
  · split
    · decide
    · split <;> decide
    · split
      · decide
      · split <;> decide

theorem clearAfter_literal (h : 0 < column) (text : List Char) :
    ClearAfter '-' (literal column text) := by
  rw [literal, clearAfter_cons (by decide), clearAfter_append (newline_notMem_literalHints text)]
  exact (clear_literalRest h text).1

theorem clearAfter_scalarLine (h : 0 < column) (content : String) :
    ClearAfter '-' (scalarLine column content) := by
  rw [scalarLine]
  split
  · rename_i hstyle
    exact (clearAfter_append (newline_notMem (by simp [hstyle]) (by simp [hstyle]))).mpr
      clear_newline.clearAfter
  · rename_i hstyle
    exact (clearAfter_append (newline_notMem_singleQuoted _
      (newline_notMem (by simp [hstyle]) (by simp [hstyle])))).mpr clear_newline.clearAfter
  · exact (clearAfter_append (newline_notMem_doubleQuoted _)).mpr clear_newline.clearAfter
  · refine (clearAfter_literal h _).append ?_
    split
    · exact clear_nil
    · exact clear_newline

theorem clearAfter_number (n : Nat) : ClearAfter '-' (Nat.toDigits 10 n ++ ['\n']) :=
  (clearAfter_append (newline_notMem_toDigits n)).mpr clear_newline.clearAfter

/-- A key on its line, with what stands beside it. -/
theorem clearAfter_inline (key : String) {beside : List Char} (h : ClearAfter '-' beside) :
    ClearAfter '-' (scalarInline key ++ ':' :: beside) :=
  (clearAfter_append (newline_notMem_scalarInline key)).mpr ((clearAfter_cons (by decide)).mpr h)

/-- A key of its own lines, with the value after a colon. -/
theorem clearAfter_complex (key : String) {beside : List Char}
    (h : ClearAfter '-' beside) : ClearAfter '-' ('?' :: ' ' :: scalarLine (column + 2) key ++
      blanks column ++ ':' :: ' ' :: beside) := by
  have hvalue : ClearAfter '-' (':' :: ' ' :: beside) :=
    (clearAfter_cons (by decide)).mpr ((clearAfter_cons (by decide)).mpr h)
  rw [List.append_assoc]
  refine ClearAfter.append ?_ ?_
  · rw [clearAfter_cons (by decide), clearAfter_cons (by decide)]
    exact clearAfter_scalarLine (Nat.succ_pos _) key
  · rcases Nat.eq_zero_or_pos column with rfl | hcolumn
    · exact clear_cons.mpr ⟨by decide, hvalue⟩
    · exact clear_blanks_append hcolumn hvalue

mutual

/-- After its first line, a value has no line that begins with a dash. -/
theorem clearAfter_value {column : Nat} (h : 0 < column) :
    (document : Document) → ClearAfter '-' (value column document)
  | .text content => clearAfter_scalarLine h content
  | .number n => clearAfter_number n
  | .sequence [] => by rw [value]; decide
  | .sequence (item :: rest) => by
    rw [value, clearAfter_cons (by decide), clearAfter_cons (by decide)]
    exact (clearAfter_value (Nat.succ_pos _) item).append (clear_items h rest)
  | .mapping [] => by rw [value]; decide
  | .mapping (entry :: rest) => by
    rw [value]
    exact (clearAfter_field h entry).append (clear_fields h rest)

theorem clear_items {column : Nat} (h : 0 < column) :
    (rest : List Document) → Clear '-' (items column rest)
  | [] => by rw [items]; exact clear_nil
  | item :: rest => by
    rw [items]
    refine clear_blanks_append h ?_
    rw [clearAfter_cons (by decide), clearAfter_cons (by decide)]
    exact (clearAfter_value (Nat.succ_pos _) item).append (clear_items h rest)

theorem clear_fields {column : Nat} (h : 0 < column) :
    (rest : List (String × Document)) → Clear '-' (fields column rest)
  | [] => by rw [fields]; exact clear_nil
  | entry :: rest => by
    rw [fields]
    exact (clear_blanks_append h (clearAfter_field h entry)).append (clear_fields h rest)

theorem clearAfter_field {column : Nat} (h : 0 < column) :
    (entry : String × Document) → ClearAfter '-' (field column entry)
  | (key, content) => by
    rw [field]
    split
    · exact clearAfter_complex key (clearAfter_value (Nat.succ_pos _) content)
    · exact clearAfter_inline key (clearAfter_besideKey h content)

theorem clearAfter_besideKey {column : Nat} (h : 0 < column) :
    (document : Document) → ClearAfter '-' (besideKey column document)
  | .text content => by
    rw [besideKey, clearAfter_cons (by decide)]
    exact clearAfter_scalarLine (Nat.succ_pos _) content
  | .number n => by
    rw [besideKey, List.cons_append, clearAfter_cons (by decide)]
    exact clearAfter_number n
  | .sequence [] => by rw [besideKey]; decide
  | .sequence (item :: rest) => by
    rw [besideKey]
    refine clear_blanks_append h ?_
    rw [clearAfter_cons (by decide), clearAfter_cons (by decide)]
    exact (clearAfter_value (Nat.succ_pos _) item).append (clear_items h rest)
  | .mapping [] => by rw [besideKey]; decide
  | .mapping (entry :: rest) => by
    rw [besideKey]
    exact (clear_blanks_append (Nat.succ_pos _) (clearAfter_field (Nat.succ_pos _) entry)).append
      (clear_fields (Nat.succ_pos _) rest)

end

/-! ### Reports -/

/-- The mark of a separator between documents. -/
def separator : List Char := ['-', '-', '-']

/-- The one key of a report stands at the left, and its entry further to the right. -/
theorem clearAfter_report (name : String) (entries : Mapping) :
    ClearAfter '-' (value 0 (.mapping [(name, .mapping entries)])) := by
  rw [value, fields, List.append_nil, field]
  split
  · exact clearAfter_complex name (clearAfter_value (Nat.succ_pos _) _)
  · refine clearAfter_inline name ?_
    rcases entries with _ | ⟨entry, rest⟩
    · rw [besideKey]
      decide
    · rw [besideKey]
      exact (clear_blanks_append (Nat.succ_pos _) (clearAfter_field (Nat.succ_pos _) entry)).append
        (clear_fields (Nat.succ_pos _) rest)

theorem not_separator_plain (h : allowsPlain text = true) (rest : List Char) :
    ¬ separator <+: text ++ ':' :: rest := by
  have hmark : startsWithDocumentMark text = false := by
    rw [allowsPlain, Bool.and_eq_true, Bool.not_eq_true', hasIndicator.eq_def,
      Bool.or_eq_false_iff, Bool.or_eq_false_iff] at h
    exact h.2.1.1
  intro hbegins
  rcases text with _ | ⟨a, _ | ⟨b, _ | ⟨c, text⟩⟩⟩
  · simp [separator] at hbegins
  · simp [separator] at hbegins
  · simp [separator] at hbegins
  · simp only [separator, List.cons_append, List.cons_prefix_cons, List.nil_prefix] at hbegins
    obtain ⟨rfl, rfl, rfl, -⟩ := hbegins
    simp [startsWithDocumentMark] at hmark

/-- A report does not begin like a separator. -/
theorem not_separator_report (name : String) (content : Document) (rest : List Char) :
    ¬ separator <+: value 0 (.mapping [(name, content)]) ++ rest := by
  rw [value, fields, List.append_nil, field]
  split
  · simp [separator]
  · rw [scalarInline, List.append_assoc]
    split
    · rename_i hstyle
      exact not_separator_plain (of_style_eq_plain hstyle).1 _
    · simp [separator, singleQuoted]
    · simp [separator, doubleQuoted]

/-- No line of a report begins like a separator, whatever ends the report. -/
theorem not_separator_of_mem_lines (name : String) (entries : Mapping) {ending : List Char}
    (h : Clear '-' ending) :
    ∀ line ∈ lines (value 0 (.mapping [(name, .mapping entries)]) ++ ending),
      ¬ separator <+: line :=
  ((clearAfter_report name entries).append h).not_begins (not_separator_report name _ ending)

end CountTree.Yaml
