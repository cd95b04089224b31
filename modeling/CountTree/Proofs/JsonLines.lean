import CountTree.Json
import CountTree.Proofs.Lines
import Mathlib.Data.List.Basic

/-!
The lines of a JSON text. Texts are escaped and hold no break, and everything inside the outermost
braces starts its lines with blanks, so that no line begins with a closing brace before the last
(`exists_lines_report`).
-/

set_option autoImplicit false
set_option relaxedAutoImplicit false

namespace CountTree.Json

open Text

variable {level : Nat} {text : List Char}

/-! ### Texts and numbers -/

theorem hexDigit_ne (n : Nat) : hexDigit n ≠ '\n' := by
  have hdigit : ∀ digit : Fin 16, Nat.digitChar digit ≠ '\n' := by decide
  exact hdigit ⟨_, Nat.mod_lt _ (by decide)⟩

theorem newline_notMem_escape (c : Char) : '\n' ∉ escape c := by
  rw [escape]
  split
  · decide
  split
  · decide
  split
  · decide
  split
  · decide
  split
  · decide
  split
  · decide
  split
  · decide
  split
  · simp [(hexDigit_ne _).symm]
  · rename_i hc _ _ _
    simpa [eq_comm] using hc

theorem newline_notMem_quoted (text : String) : '\n' ∉ quoted text := by
  refine List.not_mem_cons_of_ne_of_not_mem (by decide) ?_
  rw [List.mem_append, not_or, List.mem_flatMap]
  refine ⟨?_, by decide⟩
  rintro ⟨c, -, hc⟩
  exact newline_notMem_escape c hc

/-! ### Values inside brackets -/

theorem clear_newline_append (h : 0 < level) (hrest : ClearAfter '\x7d' text) :
    Clear '\x7d' (newline level ++ text) := by
  obtain ⟨blanks, hblanks⟩ : ∃ blanks, 2 * level = blanks + 1 := ⟨2 * level - 1, by omega⟩
  have hblank : '\n' ∉ List.replicate blanks ' ' := fun hmem ↦
    absurd (List.eq_of_mem_replicate hmem) (by decide)
  rw [newline, hblanks, List.replicate_succ, List.cons_append, List.cons_append, clear_cons]
  refine ⟨by decide, clear_cons.mpr ⟨by decide, ?_⟩⟩
  rw [clearAfter_cons (by decide)]
  exact (clearAfter_append hblank).mpr hrest

/-- The closing bracket stands below the opening one, to the right of the margin. -/
theorem clearAfter_bracketed (h : 0 < level) {opening closing : Char} (hopening : opening ≠ '\n')
    (hinner : Clear '\x7d' text) :
    ClearAfter '\x7d' (opening :: (text ++ newline level ++ [closing])) := by
  rw [clearAfter_cons hopening, List.append_assoc]
  exact (hinner.append (clear_newline_append h (List.isChain_singleton _))).clearAfter

theorem clear_entry (h : 0 < level) (key : String) (hvalue : ClearAfter '\x7d' text) :
    Clear '\x7d' (newline level ++ quoted key ++ [':', ' '] ++ text) := by
  have hkey : '\n' ∉ quoted key ++ [':', ' '] := by
    rw [List.mem_append, not_or]
    exact ⟨newline_notMem_quoted key, by decide⟩
  rw [List.append_assoc (newline level), List.append_assoc]
  exact clear_newline_append h ((clearAfter_append hkey).mpr hvalue)

mutual

/-- Inside of brackets no line of a value begins with a closing brace. -/
theorem clearAfter_value {level : Nat} (h : 0 < level) :
    (document : Document) → ClearAfter '\x7d' (value level document)
  | .text content => by
    rw [value]
    exact clearAfter_of_notMem (newline_notMem_quoted content)
  | .number n => by
    rw [value]
    exact clearAfter_of_notMem (newline_notMem_toDigits n)
  | .sequence [] => by rw [value]; decide
  | .sequence (item :: rest) => by
    rw [value]
    exact clearAfter_bracketed h (by decide) ((clear_newline_append (Nat.succ_pos _)
      (clearAfter_value (Nat.succ_pos _) item)).append (clear_items (Nat.succ_pos _) rest))
  | .mapping [] => by rw [value]; decide
  | .mapping ((key, field) :: rest) => by
    rw [value]
    exact clearAfter_bracketed h (by decide) ((clear_entry (Nat.succ_pos _) key
      (clearAfter_value (Nat.succ_pos _) field)).append (clear_fields (Nat.succ_pos _) rest))

theorem clear_items {level : Nat} (h : 0 < level) :
    (rest : List Document) → Clear '\x7d' (items level rest)
  | [] => by rw [items]; exact clear_nil
  | item :: rest => by
    rw [items, clear_cons, clearAfter_cons (by decide)]
    exact ⟨by decide, ((clear_newline_append h (clearAfter_value h item)).append
      (clear_items h rest)).clearAfter⟩

theorem clear_fields {level : Nat} (h : 0 < level) :
    (rest : List (String × Document)) → Clear '\x7d' (fields level rest)
  | [] => by rw [fields]; exact clear_nil
  | (key, field) :: rest => by
    rw [fields, clear_cons, clearAfter_cons (by decide)]
    exact ⟨by decide, ((clear_entry h key (clearAfter_value h field)).append
      (clear_fields h rest)).clearAfter⟩

end

/-! ### Reports -/

/-- The last line of a report holds the closing brace of the outermost mapping. -/
def closing : List Char := ['\x7d', '\n']

/-- A report and a line break: the closing line comes last, and there is no other line like it. -/
theorem exists_lines_report (name : String) (content : Document) :
    ∃ body, lines (value 0 (.mapping [(name, content)]) ++ ['\n']) = lines body ++ [closing] ∧
      ∀ line ∈ lines body, line ≠ closing := by
  refine ⟨'\x7b' :: (newline 1 ++ quoted name ++ [':', ' '] ++ value 1 content) ++ ['\n'], ?_, ?_⟩
  · have hclosing : [closing] = lines closing := rfl
    rw [value, fields, List.append_nil, hclosing, ← lines_append List.getLast?_concat]
    simp [newline, closing]
  · have hinner := clear_entry Nat.one_pos name (clearAfter_value Nat.one_pos content)
    have hbody : Clear '\x7d'
        ('\x7b' :: (newline 1 ++ quoted name ++ [':', ' '] ++ value 1 content) ++ ['\n']) := by
      refine Clear.append ?_ (clear_cons.mpr ⟨by decide, List.isChain_singleton _⟩)
      rw [clear_cons, clearAfter_cons (by decide)]
      exact ⟨by decide, hinner.clearAfter⟩
    intro line hline heq
    exact hbody.head?_ne line hline (by rw [heq]; rfl)

end CountTree.Json
