import CountTree.Proofs.CountReport
import CountTree.Proofs.ReportPaths
import CountTree.Proofs.YamlScalars
import CountTree.Writer

/-!
YAML reports determine their documents. A document without entries or items of its own is written
as one scalar, and its style and word tell which one it is (`IsLeaf.leafOf_eq`). Every other
document begins with the mark of an item, the mark of a key on lines of its own or a scalar before a
colon, and goes on while lines begin in its column (`Outdented`, `EndsItems`). So where two texts
are equal their parts are equal one by one, and the documents with them (`value_append_inj`).
`report_eq_of_yaml_eq` is the main statement.
-/

set_option autoImplicit false
set_option relaxedAutoImplicit false

namespace CountTree

/-- Every number in a document is an unsigned word. -/
inductive Document.WordSized : Document → Prop
  | text (content : String) : WordSized (.text content)
  | number {n : Nat} (h : n ≤ Word.top) : WordSized (.number n)
  | sequence {items : List Document} (h : ∀ item ∈ items, WordSized item) :
      WordSized (.sequence items)
  | mapping {entries : Mapping} (h : ∀ entry ∈ entries, WordSized entry.2) :
      WordSized (.mapping entries)

namespace Yaml

open Document (WordSized)

variable {column wider n : Nat} {c : Char} {s s' : Style} {document document' : Document}
  {text word word' rest rest' more : List Char}

/-! ### Columns -/

theorem Outdented.mono (h : Outdented column rest) (hle : column ≤ wider) :
    Outdented wider rest := by
  obtain rfl | ⟨smaller, hsmaller, c, more, rfl, hc, hbreak⟩ := h
  · exact .inl rfl
  · exact .inr ⟨smaller, by omega, c, more, rfl, hc, hbreak⟩

/-- A text does not go on in a column when its next line begins to the left of it. -/
theorem Outdented.ne_blanks (h : Outdented column rest) : rest ≠ blanks column ++ c :: more := by
  obtain rfl | ⟨smaller, hsmaller, d, after, rfl, hd, -⟩ := h
  · simp
  · intro heq
    obtain ⟨gap, rfl⟩ : ∃ gap, column = smaller + (gap + 1) := ⟨column - smaller - 1, by omega⟩
    have hblanks : blanks (smaller + (gap + 1)) = blanks smaller ++ ' ' :: blanks gap :=
      List.replicate_add ..
    rw [hblanks, List.append_assoc, List.cons_append] at heq
    exact hd (List.cons.inj (List.append_cancel_left heq)).1

/-- Whether the items of a sequence in a column end here. Entries of the mapping that holds the
sequence may stand in the same column. -/
structure EndsItems (column : Nat) (rest : List Char) : Prop where
  outdented : Outdented (column + 1) rest
  no_item : ∀ more, rest ≠ blanks column ++ '-' :: ' ' :: more

theorem Outdented.endsItems (h : Outdented column rest) : EndsItems column rest :=
  ⟨h.mono (Nat.le_succ _), fun _ ↦ h.ne_blanks⟩

/-! ### Scalars that are documents -/

/-- Documents that are written as one scalar, with its style and its word. -/
inductive IsLeaf : Document → Style → List Char → Prop
  | text (content : String) : IsLeaf (.text content) (style content.toList) content.toList
  | number {n : Nat} (h : n ≤ Word.top) : IsLeaf (.number n) .plain (Nat.toDigits 10 n)
  | noItems : IsLeaf (.sequence []) .plain ['[', ']']
  | noEntries : IsLeaf (.mapping []) .plain ['\x7b', '\x7d']

/-- The document that is written as one scalar, by its style and its word. -/
def leafOf : Style → List Char → Document
  | .plain, word =>
    if word = ['[', ']'] then .sequence []
    else if word = ['\x7b', '\x7d'] then .mapping []
    else if isInteger word then .number (Nat.ofDigitChars 10 word 0)
    else .text (String.ofList word)
  | _, word => .text (String.ofList word)

/-- The break after a scalar, which a block brings with it. -/
def lineEnd : Style → List Char
  | .literal => []
  | _ => ['\n']

namespace IsLeaf

theorem leafOf_eq (h : IsLeaf document s word) : leafOf s word = document := by
  cases h with
  | text content =>
    cases hstyle : style content.toList with
    | plain =>
      obtain ⟨hplain, hreads⟩ := of_style_eq_plain hstyle
      have hitems : content.toList ≠ ['[', ']'] := fun heq ↦ absurd (heq ▸ hplain) (by decide)
      have hentries : content.toList ≠ ['\x7b', '\x7d'] := fun heq ↦
        absurd (heq ▸ hplain) (by decide)
      have hinteger : ¬ isInteger content.toList = true := fun hinteger ↦
        absurd (readsOtherwise_of_isInteger hinteger) (by simp [hreads])
      rw [leafOf, if_neg hitems, if_neg hentries, if_neg hinteger, String.ofList_toList]
    | singleQuoted => rw [leafOf, String.ofList_toList]; simp
    | doubleQuoted => rw [leafOf, String.ofList_toList]; simp
    | literal => rw [leafOf, String.ofList_toList]; simp
  | @number n hn =>
    have hinteger := isInteger_toDigits (lt_of_le_of_lt hn (by decide))
    have hitems : Nat.toDigits 10 n ≠ ['[', ']'] := fun heq ↦ absurd (heq ▸ hinteger) (by decide)
    have hentries : Nat.toDigits 10 n ≠ ['\x7b', '\x7d'] := fun heq ↦
      absurd (heq ▸ hinteger) (by decide)
    rw [leafOf, if_neg hitems, if_neg hentries, if_pos hinteger,
      Nat.ofDigitChars_toDigits (by decide) (by decide)]
  | noItems => rfl
  | noEntries => rfl

theorem value_eq (h : IsLeaf document s word) (column : Nat) :
    value column document = written column s word ++ lineEnd s := by
  cases h with
  | text content =>
    rw [value, scalarLine]
    cases style content.toList with
    | plain => rfl
    | singleQuoted => rfl
    | doubleQuoted => rfl
    | literal => exact (List.append_nil _).symm
  | number hn => rw [value, written, lineEnd]; simp
  | noItems => rw [value]; rfl
  | noEntries => rw [value]; rfl

theorem isWord (h : IsLeaf document .plain word) : IsWord word := by
  generalize hstyle : Style.plain = s at h
  cases h with
  | text content => exact isWord_of_style hstyle.symm
  | number hn => exact isWord_toDigits _
  | noItems => exact ⟨by decide, by decide⟩
  | noEntries => exact ⟨by decide, by decide⟩

theorem scalar (h : IsLeaf document s word) (hrest : Outdented column rest) :
    Scalar column s word (lineEnd s ++ rest) := by
  cases s with
  | plain => exact .plain h.isWord rfl
  | singleQuoted => exact .singleQuoted (by simp [lineEnd])
  | doubleQuoted => exact .doubleQuoted
  | literal => exact .literal hrest

/-- A text begins with one of these documents only. -/
theorem append_inj (h : IsLeaf document s word) (h' : IsLeaf document' s' word')
    (hrest : Outdented column rest) (hrest' : Outdented column rest')
    (heq : value column document ++ rest = value column document' ++ rest') :
    document = document' ∧ rest = rest' := by
  rw [h.value_eq, h'.value_eq, List.append_assoc, List.append_assoc] at heq
  obtain ⟨rfl, rfl, hends⟩ := (h.scalar hrest).append_inj (h'.scalar hrest') heq
  exact ⟨h.leafOf_eq.symm.trans h'.leafOf_eq, List.append_cancel_left hends⟩

end IsLeaf

/-! ### Keys -/

theorem singleQuotedRest_of_no_break (h : text.any isBreak = false) (column : Nat) :
    singleQuotedRest column false text = singleQuotedRest 0 false text := by
  induction text with
  | nil => rfl
  | cons c text ih =>
    rw [List.any_cons, Bool.or_eq_false_iff] at h
    simp [singleQuotedRest, h.1, ih h.2]

theorem style_ne_literal (h : text.any isBreak = false) : style text ≠ .literal := by
  have hbreak : text.contains '\n' = false := by
    rw [List.any_eq_false] at h
    simpa using fun hmem ↦ h _ hmem (by decide)
  rw [style, hbreak, if_neg Bool.false_ne_true, quotedStyle]
  split
  · exact Style.noConfusion
  · split <;> exact Style.noConfusion

/-- A key on the line of its value is written like a text there. -/
theorem scalarInline_eq {key : String} (h : key.toList.any isBreak = false) (column : Nat) :
    scalarInline key = written column (style key.toList) key.toList := by
  rw [scalarInline]
  cases hstyle : style key.toList with
  | plain => rfl
  | singleQuoted => rw [written, singleQuoted, singleQuoted, singleQuotedRest_of_no_break h column]
  | doubleQuoted => rfl
  | literal => exact absurd hstyle (style_ne_literal h)

theorem followedByBlank_besideKey (column : Nat) (document : Document) (rest : List Char) :
    followedByBlank (besideKey column document ++ rest) = true := by
  have hspace : isBlank ' ' = true := by decide
  have hbreak : isBlank '\n' = true := by decide
  rcases document with _ | _ | (_ | _) | (_ | _) <;>
    simp [besideKey, followedByBlank, hspace, hbreak]

theorem scalar_colon (column : Nat) (hstyle : style text ≠ .literal)
    (hrest : followedByBlank rest = true) : Scalar column (style text) text (':' :: rest) := by
  cases hcase : style text with
  | plain => exact .plain (isWord_of_style hcase) (by simp [plainPart, hrest])
  | singleQuoted => exact .singleQuoted (by simp)
  | doubleQuoted => exact .doubleQuoted
  | literal => exact absurd hcase hstyle

/-- An entry begins with the mark of a key on lines of its own, or with its key and a colon. -/
theorem field_cases (column : Nat) (key : String) (document : Document) (rest : List Char) :
    (field column (key, document) ++ rest =
        '?' :: ' ' :: (value (column + 2) (.text key) ++
          (blanks column ++ ':' :: ' ' :: (value (column + 2) document ++ rest)))) ∨
      (style key.toList ≠ .literal ∧
        Scalar column (style key.toList) key.toList (':' :: (besideKey column document ++ rest)) ∧
        field column (key, document) ++ rest =
          written column (style key.toList) key.toList ++
            ':' :: (besideKey column document ++ rest)) := by
  rw [field]
  cases hkey : isComplexKey key with
  | true => exact .inl (by simp [value])
  | false =>
    rw [isComplexKey, Bool.or_eq_false_iff] at hkey
    have hliteral := style_ne_literal hkey.1
    exact .inr ⟨hliteral, scalar_colon column hliteral (followedByBlank_besideKey _ _ _),
      by simp [scalarInline_eq hkey.1 column]⟩

/-! ### Entries and items -/

theorem besideKey_of_isLeaf (h : IsLeaf document s word) (column : Nat) :
    besideKey column document = ' ' :: value (column + 2) document := by
  cases h <;> simp [besideKey, value]

theorem besideKey_sequence (column : Nat) (item : Document) (tail : List Document) :
    besideKey column (.sequence (item :: tail)) = '\n' :: items column (item :: tail) := by
  simp [besideKey, items]

theorem besideKey_mapping (column : Nat) (entry : String × Document)
    (tail : List (String × Document)) :
    besideKey column (.mapping (entry :: tail)) = '\n' :: fields (column + 2) (entry :: tail) := by
  simp [besideKey, fields]

theorem value_sequence (column : Nat) (item : Document) (tail : List Document) :
    blanks column ++ value column (.sequence (item :: tail)) = items column (item :: tail) := by
  simp [value, items]

theorem value_mapping (column : Nat) (entry : String × Document)
    (tail : List (String × Document)) :
    blanks column ++ value column (.mapping (entry :: tail)) = fields column (entry :: tail) := by
  simp [value, fields]

theorem exists_field_eq_cons (column : Nat) (entry : String × Document) (rest : List Char) :
    ∃ c more, field column entry ++ rest = c :: more ∧ c ≠ ' ' ∧ isBreak c = false := by
  obtain ⟨key, document⟩ := entry
  obtain heq | ⟨-, hkey, heq⟩ := field_cases column key document rest
  · exact ⟨_, _, heq, by decide, by decide⟩
  · rw [heq]
    exact hkey.exists_cons

theorem field_ne_item (column : Nat) (entry : String × Document) (rest more : List Char) :
    field column entry ++ rest ≠ '-' :: ' ' :: more := by
  obtain ⟨key, document⟩ := entry
  obtain heq | ⟨-, hkey, heq⟩ := field_cases column key document rest <;> rw [heq]
  · simp
  · exact hkey.ne_mark (.inl rfl) more

theorem exists_fields_eq_blanks (column : Nat) (entry : String × Document)
    (tail : List (String × Document)) (rest : List Char) :
    ∃ c more, fields column (entry :: tail) ++ rest = blanks column ++ c :: more ∧ c ≠ ' ' ∧
      isBreak c = false := by
  obtain ⟨c, more, hcons, hfirst⟩ := exists_field_eq_cons column entry (fields column tail ++ rest)
  exact ⟨c, more, by rw [fields, List.append_assoc, List.append_assoc, hcons], hfirst⟩

theorem endsItems_fields (h : Outdented column rest) (entries : List (String × Document)) :
    EndsItems column (fields column entries ++ rest) := by
  rcases entries with _ | ⟨entry, tail⟩
  · rw [fields, List.nil_append]
    exact h.endsItems
  · constructor
    · obtain ⟨c, more, heq, hfirst⟩ := exists_fields_eq_blanks column entry tail rest
      exact .inr ⟨column, Nat.lt_succ_self _, c, more, heq, hfirst⟩
    · intro more
      rw [fields, List.append_assoc, List.append_assoc]
      exact fun heq ↦ field_ne_item _ _ _ _ (List.append_cancel_left heq)

theorem outdented_items (h : EndsItems column rest) (list : List Document) :
    Outdented (column + 2) (items column list ++ rest) := by
  rcases list with _ | ⟨item, tail⟩
  · rw [items, List.nil_append]
    exact h.outdented.mono (Nat.le_succ _)
  · rw [items, List.append_assoc]
    exact .inr ⟨column, by omega, '-', _, rfl, by decide, by decide⟩

/-! ### Documents -/

/-- A scalar followed by a break is no key, which a colon follows. -/
theorem IsLeaf.ne_field (h : IsLeaf document s word) (hrest : Outdented column rest)
    (entry : String × Document) (rest' : List Char) :
    value column document ++ rest ≠ field column entry ++ rest' := by
  obtain ⟨key, content⟩ := entry
  rw [h.value_eq, List.append_assoc]
  intro heq
  obtain hfield | ⟨hliteral, hkey, hfield⟩ := field_cases column key content rest' <;>
    rw [hfield] at heq
  · exact (h.scalar hrest).ne_mark (.inr rfl) _ heq
  · obtain ⟨rfl, -, hends⟩ := (h.scalar hrest).append_inj hkey heq
    cases hstyle : style key.toList <;> simp_all [lineEnd]

theorem IsLeaf.ne_item (h : IsLeaf document s word) (hrest : Outdented column rest)
    (more : List Char) : value column document ++ rest ≠ '-' :: ' ' :: more := by
  rw [h.value_eq, List.append_assoc]
  exact (h.scalar hrest).ne_mark (.inl rfl) more

/-- What a document is written as: one scalar, items or entries. -/
theorem leaf_or_block (h : WordSized document) : (∃ s word, IsLeaf document s word) ∨
    (∃ item tail, document = .sequence (item :: tail)) ∨
      ∃ entry tail, document = .mapping (entry :: tail) := by
  cases h with
  | text content => exact .inl ⟨_, _, .text content⟩
  | number hn => exact .inl ⟨_, _, .number hn⟩
  | @sequence items _ =>
    rcases items with _ | ⟨item, tail⟩
    · exact .inl ⟨_, _, .noItems⟩
    · exact .inr (.inl ⟨item, tail, rfl⟩)
  | @mapping entries _ =>
    rcases entries with _ | ⟨entry, tail⟩
    · exact .inl ⟨_, _, .noEntries⟩
    · exact .inr (.inr ⟨entry, tail, rfl⟩)

theorem IsLeaf.value_append_inj (h : IsLeaf document s word) (h' : WordSized document')
    (hrest : Outdented column rest) (hrest' : Outdented column rest')
    (heq : value column document ++ rest = value column document' ++ rest') :
    document = document' ∧ rest = rest' := by
  obtain ⟨s', word', hleaf⟩ | ⟨item, tail, rfl⟩ | ⟨entry, tail, rfl⟩ := leaf_or_block h'
  · exact h.append_inj hleaf hrest hrest' heq
  · rw [value, List.cons_append, List.cons_append] at heq
    exact absurd heq (h.ne_item hrest _)
  · rw [value, List.append_assoc] at heq
    exact absurd heq (h.ne_field hrest _ _)

theorem IsLeaf.besideKey_append_inj (h : IsLeaf document s word) (h' : WordSized document')
    (hrest : EndsItems column rest) (hrest' : EndsItems column rest')
    (heq : besideKey column document ++ rest = besideKey column document' ++ rest') :
    document = document' ∧ rest = rest' := by
  rw [besideKey_of_isLeaf h] at heq
  obtain ⟨s', word', hleaf⟩ | ⟨item, tail, rfl⟩ | ⟨entry, tail, rfl⟩ := leaf_or_block h'
  · rw [besideKey_of_isLeaf hleaf, List.cons_append, List.cons_append, List.cons.injEq] at heq
    exact h.append_inj hleaf (hrest.outdented.mono (Nat.le_succ _))
      (hrest'.outdented.mono (Nat.le_succ _)) heq.2
  · simp [besideKey_sequence] at heq
  · simp [besideKey_mapping] at heq

theorem items_ne_fields (column : Nat) (item : Document) (tail : List Document)
    (entry : String × Document) (tail' : List (String × Document)) (rest rest' : List Char) :
    items column (item :: tail) ++ rest ≠ fields (column + 2) (entry :: tail') ++ rest' := by
  have hblanks : blanks (column + 2) = blanks column ++ [' ', ' '] := List.replicate_add ..
  rw [items, fields, hblanks]
  simp

-- The induction is on the first document, one theorem for each function that writes a part of it.
-- The second document is opened by `leaf_or_block`, and one of another shape begins otherwise. With
-- the blanks of its line before it, the first item or entry stands like the ones that follow.
mutual

/-- Of two equal texts that begin with documents the documents are equal. -/
theorem value_append_inj {column : Nat} {rest rest' : List Char} :
    (document document' : Document) → WordSized document → WordSized document' →
    Outdented column rest → Outdented column rest' →
    value column document ++ rest = value column document' ++ rest' →
    document = document' ∧ rest = rest'
  | .text content, _, _, h', hrest, hrest', heq =>
    (IsLeaf.text content).value_append_inj h' hrest hrest' heq
  | .number n, _, .number hn, h', hrest, hrest', heq =>
    (IsLeaf.number hn).value_append_inj h' hrest hrest' heq
  | .sequence [], _, _, h', hrest, hrest', heq =>
    IsLeaf.noItems.value_append_inj h' hrest hrest' heq
  | .mapping [], _, _, h', hrest, hrest', heq =>
    IsLeaf.noEntries.value_append_inj h' hrest hrest' heq
  | .sequence (item :: tail), document', .sequence h, h', hrest, hrest', heq => by
    obtain ⟨s', word', hleaf⟩ | ⟨item', tail', rfl⟩ | ⟨entry', tail', rfl⟩ := leaf_or_block h'
    · exact (hleaf.value_append_inj (.sequence h) hrest' hrest heq.symm).imp Eq.symm Eq.symm
    · cases h' with
      | sequence h' =>
        have hitems := congrArg (blanks column ++ ·) heq
        simp only [← List.append_assoc, value_sequence] at hitems
        obtain ⟨hlist, hafter⟩ := items_append_inj (item :: tail) (item' :: tail') h h'
          hrest.endsItems hrest'.endsItems hitems
        exact ⟨by rw [hlist], hafter⟩
    · rw [value, value, List.append_assoc] at heq
      exact absurd heq.symm (field_ne_item _ _ _ _)
  | .mapping (entry :: tail), document', .mapping h, h', hrest, hrest', heq => by
    obtain ⟨s', word', hleaf⟩ | ⟨item', tail', rfl⟩ | ⟨entry', tail', rfl⟩ := leaf_or_block h'
    · exact (hleaf.value_append_inj (.mapping h) hrest' hrest heq.symm).imp Eq.symm Eq.symm
    · rw [value, value, List.append_assoc] at heq
      exact absurd heq (field_ne_item _ _ _ _)
    · cases h' with
      | mapping h' =>
        have hfields := congrArg (blanks column ++ ·) heq
        simp only [← List.append_assoc, value_mapping] at hfields
        obtain ⟨hlist, hafter⟩ := fields_append_inj (entry :: tail) (entry' :: tail') h h' hrest
          hrest' hfields
        exact ⟨by rw [hlist], hafter⟩

theorem items_append_inj {column : Nat} {rest rest' : List Char} :
    (list list' : List Document) → (∀ item ∈ list, WordSized item) →
    (∀ item ∈ list', WordSized item) → EndsItems column rest → EndsItems column rest' →
    items column list ++ rest = items column list' ++ rest' → list = list' ∧ rest = rest'
  | [], [], _, _, _, _, heq => ⟨rfl, heq⟩
  | [], item' :: tail', _, _, hrest, _, heq => by
    simp only [items, List.nil_append, List.append_assoc, List.cons_append] at heq
    exact absurd heq (hrest.no_item _)
  | item :: tail, [], _, _, _, hrest', heq => by
    simp only [items, List.nil_append, List.append_assoc, List.cons_append] at heq
    exact absurd heq.symm (hrest'.no_item _)
  | item :: tail, item' :: tail', h, h', hrest, hrest', heq => by
    simp only [items, List.append_assoc, List.cons_append, List.append_cancel_left_eq,
      List.cons.injEq, true_and] at heq
    rw [List.forall_mem_cons] at h h'
    obtain ⟨rfl, htail⟩ := value_append_inj item item' h.1 h'.1 (outdented_items hrest tail)
      (outdented_items hrest' tail') heq
    obtain ⟨rfl, hafter⟩ := items_append_inj tail tail' h.2 h'.2 hrest hrest' htail
    exact ⟨rfl, hafter⟩

theorem fields_append_inj {column : Nat} {rest rest' : List Char} :
    (list list' : List (String × Document)) → (∀ entry ∈ list, WordSized entry.2) →
    (∀ entry ∈ list', WordSized entry.2) → Outdented column rest → Outdented column rest' →
    fields column list ++ rest = fields column list' ++ rest' → list = list' ∧ rest = rest'
  | [], [], _, _, _, _, heq => ⟨rfl, heq⟩
  | [], entry' :: tail', _, _, hrest, _, heq => by
    obtain ⟨c, more, hblanks, -⟩ := exists_fields_eq_blanks column entry' tail' rest'
    rw [hblanks, fields, List.nil_append] at heq
    exact absurd heq hrest.ne_blanks
  | entry :: tail, [], _, _, _, hrest', heq => by
    obtain ⟨c, more, hblanks, -⟩ := exists_fields_eq_blanks column entry tail rest
    rw [hblanks, fields, List.nil_append] at heq
    exact absurd heq.symm hrest'.ne_blanks
  | entry :: tail, entry' :: tail', h, h', hrest, hrest', heq => by
    simp only [fields, List.append_assoc, List.append_cancel_left_eq] at heq
    rw [List.forall_mem_cons] at h h'
    obtain ⟨rfl, htail⟩ := field_append_inj entry entry' h.1 h'.1 (endsItems_fields hrest tail)
      (endsItems_fields hrest' tail') heq
    obtain ⟨rfl, hafter⟩ := fields_append_inj tail tail' h.2 h'.2 hrest hrest' htail
    exact ⟨rfl, hafter⟩

theorem field_append_inj {column : Nat} {rest rest' : List Char} :
    (entry entry' : String × Document) → WordSized entry.2 → WordSized entry'.2 →
    EndsItems column rest → EndsItems column rest' →
    field column entry ++ rest = field column entry' ++ rest' → entry = entry' ∧ rest = rest'
  | (key, document), (key', document'), h, h', hrest, hrest', heq => by
    have hcolon (after : List Char) : Outdented (column + 2) (blanks column ++ ':' :: after) :=
      .inr ⟨column, by omega, ':', after, rfl, by decide, by decide⟩
    obtain hfield | ⟨-, hkey, hfield⟩ := field_cases column key document rest <;>
      obtain hfield' | ⟨-, hkey', hfield'⟩ := field_cases column key' document' rest' <;>
      rw [hfield, hfield'] at heq
    · obtain ⟨hkeys, hafter⟩ := (IsLeaf.text key).append_inj (.text key') (hcolon _) (hcolon _)
        (List.cons.inj (List.cons.inj heq).2).2
      simp only [List.append_cancel_left_eq, List.cons.injEq, true_and] at hafter
      obtain ⟨rfl, hrests⟩ := value_append_inj document document' h h'
        (hrest.outdented.mono (Nat.le_succ _)) (hrest'.outdented.mono (Nat.le_succ _)) hafter
      exact ⟨by rw [Document.text.inj hkeys], hrests⟩
    · exact absurd heq.symm (hkey'.ne_mark (.inr rfl) _)
    · exact absurd heq (hkey.ne_mark (.inr rfl) _)
    · obtain ⟨-, hkeys, hafter⟩ := hkey.append_inj hkey' heq
      obtain ⟨rfl, hrests⟩ := besideKey_append_inj document document' h h' hrest hrest'
        (List.cons.inj hafter).2
      exact ⟨by rw [String.toList_inj.mp hkeys], hrests⟩

theorem besideKey_append_inj {column : Nat} {rest rest' : List Char} :
    (document document' : Document) → WordSized document → WordSized document' →
    EndsItems column rest → EndsItems column rest' →
    besideKey column document ++ rest = besideKey column document' ++ rest' →
    document = document' ∧ rest = rest'
  | .text content, _, _, h', hrest, hrest', heq =>
    (IsLeaf.text content).besideKey_append_inj h' hrest hrest' heq
  | .number n, _, .number hn, h', hrest, hrest', heq =>
    (IsLeaf.number hn).besideKey_append_inj h' hrest hrest' heq
  | .sequence [], _, _, h', hrest, hrest', heq =>
    IsLeaf.noItems.besideKey_append_inj h' hrest hrest' heq
  | .mapping [], _, _, h', hrest, hrest', heq =>
    IsLeaf.noEntries.besideKey_append_inj h' hrest hrest' heq
  | .sequence (item :: tail), document', .sequence h, h', hrest, hrest', heq => by
    obtain ⟨s', word', hleaf⟩ | ⟨item', tail', rfl⟩ | ⟨entry', tail', rfl⟩ := leaf_or_block h'
    · exact (hleaf.besideKey_append_inj (.sequence h) hrest' hrest heq.symm).imp Eq.symm Eq.symm
    · cases h' with
      | sequence h' =>
        rw [besideKey_sequence, besideKey_sequence] at heq
        obtain ⟨hlist, hafter⟩ := items_append_inj (item :: tail) (item' :: tail') h h' hrest
          hrest' (List.cons.inj heq).2
        exact ⟨by rw [hlist], hafter⟩
    · rw [besideKey_sequence, besideKey_mapping] at heq
      exact absurd (List.cons.inj heq).2 (items_ne_fields _ _ _ _ _ _ _)
  | .mapping (entry :: tail), document', .mapping h, h', hrest, hrest', heq => by
    obtain ⟨s', word', hleaf⟩ | ⟨item', tail', rfl⟩ | ⟨entry', tail', rfl⟩ := leaf_or_block h'
    · exact (hleaf.besideKey_append_inj (.mapping h) hrest' hrest heq.symm).imp Eq.symm Eq.symm
    · rw [besideKey_sequence, besideKey_mapping] at heq
      exact absurd (List.cons.inj heq).2.symm (items_ne_fields _ _ _ _ _ _ _)
    · cases h' with
      | mapping h' =>
        rw [besideKey_mapping, besideKey_mapping] at heq
        obtain ⟨hlist, hafter⟩ := fields_append_inj (entry :: tail) (entry' :: tail') h h'
          (hrest.outdented.mono (Nat.le_succ _)) (hrest'.outdented.mono (Nat.le_succ _))
          (List.cons.inj heq).2
        exact ⟨by rw [hlist], hafter⟩

end

/-! ### Texts -/

/-- A text is written like nothing else, wherever it stands. -/
structure WrittenApart (column : Nat) (content : String) : Prop where
  /-- It is not written as a null, a boolean or a number of any form, nor as nothing. -/
  word : ∀ word, value column (.text content) = word ++ ['\n'] → readsOtherwise word = false
  /-- It is not written as another document: a count, a mapping or a sequence, empty or not. -/
  document : ∀ other rest rest', WordSized other → Outdented column rest →
    Outdented column rest' → value column (.text content) ++ rest = value column other ++ rest' →
      other = .text content ∧ rest' = rest
  /-- It is not written as a key with its value. -/
  entry : ∀ entry rest rest', Outdented column rest →
    value column (.text content) ++ rest ≠ field column entry ++ rest'
  /-- Under a key it takes nothing from the entries after it and gives nothing to them. -/
  neighbours : ∀ key entries entries', (∀ entry ∈ entries, WordSized entry.2) →
    (∀ entry ∈ entries', WordSized entry.2) →
    fields column ((key, .text content) :: entries) = fields column entries' →
      entries' = (key, .text content) :: entries

theorem writtenApart (column : Nat) (content : String) : WrittenApart column content where
  word word hword := by
    have hmarked {c : Char} {more : List Char} (hc : c = '\'' ∨ c = '"' ∨ c = '|')
        (heq : c :: more = word ++ ['\n']) : readsOtherwise word = false := by
      rcases word with _ | ⟨d, word⟩
      · obtain rfl := (List.cons.inj heq).1
        exact absurd hc (by decide)
      · obtain rfl := (List.cons.inj heq).1
        exact readsOtherwise_eq_false hc word
    rw [(IsLeaf.text content).value_eq] at hword
    cases hstyle : style content.toList with
    | plain =>
      rw [hstyle] at hword
      exact List.append_cancel_right hword ▸ (of_style_eq_plain hstyle).2
    | singleQuoted => exact hmarked (.inl rfl) (hstyle ▸ hword)
    | doubleQuoted => exact hmarked (.inr (.inl rfl)) (hstyle ▸ hword)
    | literal => exact hmarked (.inr (.inr rfl)) (hstyle ▸ hword)
  document other rest rest' hother hrest hrest' heq :=
    ((IsLeaf.text content).value_append_inj hother hrest hrest' heq).imp Eq.symm Eq.symm
  entry entry rest rest' hrest := (IsLeaf.text content).ne_field hrest entry rest'
  neighbours key entries entries' hentries hentries' heq := by
    have hfields := congrArg (· ++ []) heq
    exact (fields_append_inj _ _ (List.forall_mem_cons.mpr ⟨.text content, hentries⟩) hentries'
      (.inl rfl) (.inl rfl) hfields).1.symm

theorem render_inj {document document' : Mapping} (h : WordSized (.mapping document))
    (h' : WordSized (.mapping document')) (heq : render document = render document') :
    document = document' := by
  have hvalue := congrArg (· ++ []) (String.ofList_injective heq)
  exact Document.mapping.inj (value_append_inj _ _ h h' (.inl rfl) (.inl rfl) hvalue).1

end Yaml

/-! ### Reports -/

namespace Component

open Document (WordSized)

variable {node : Component} {action : Action} {document : Document}

theorem Shows.wordSized (hnode : node.WellFormed) (h : node.Shows action (some document)) :
    WordSized document := by
  cases h with
  | count _ hvalue =>
    refine .mapping fun entry hentry ↦ ?_
    rw [List.mem_singleton.mp hentry]
    exact .number (counterValue_le_top hnode hvalue)
  | observations _ hobserves _ =>
    refine .sequence fun item hitem ↦ ?_
    obtain ⟨⟨arguments, count⟩, hobservation, rfl⟩ := List.mem_map.mp hitem
    obtain ⟨hrange, hvalue, -⟩ := (hobserves.mem_iff arguments count).mp hobservation
    refine .mapping fun entry hentry ↦ ?_
    rcases List.mem_pair.mp hentry with rfl | rfl
    · exact .number (counterValue_le_top hnode hvalue)
    · refine .sequence fun argument hargument ↦ ?_
      obtain ⟨n, hn, rfl⟩ := List.mem_map.mp hargument
      exact .number (Action.argument_le_top hrange n hn)

end Component

theorem Report.wordSized_ofKind {root : Component} (h : Reachable root) (kind : ReportKind) :
    Document.WordSized (.mapping (ofKind kind root)) := by
  rw [ofKind_eq]
  refine .mapping fun entry hentry ↦ ?_
  rw [List.mem_singleton.mp hentry]
  exact childEntry_induction .text (fun _ _ _ hnode hshows ↦ hshows.wordSized hnode)
    (fun _ _ hentries ↦ .mapping hentries) h.wellFormed kind

/-- Reports of reachable trees that have one YAML text are one report, with its keys in one order,
whatever names and texts they hold. A text is written like no count, no null, no boolean, no empty
mapping and no key beside it, in whatever column it stands. -/
theorem report_eq_of_yaml_eq {root root' : Component} (h : Reachable root) (h' : Reachable root')
    (kind kind' : ReportKind) :
    (Format.yaml.render (Report.ofKind kind root) = Format.yaml.render (Report.ofKind kind' root') →
        Report.ofKind kind root = Report.ofKind kind' root') ∧
      ∀ column content, Yaml.WrittenApart column content :=
  ⟨Yaml.render_inj (Report.wordSized_ofKind h kind) (Report.wordSized_ofKind h' kind'),
    Yaml.writtenApart⟩

/-- A text that reads like an entry and the entry after it, and a container, whose two reports have
one text. -/
theorem report_eq_of_yaml_eq_sample :
    let described (entries : List (String × String)) : Component :=
      ⟨"pe\n", .leaf ⟨"SRAM", .ofList entries, ⟨[], List.nodup_nil⟩, ⟨[]⟩⟩, []⟩
    let one := described [("a", "1\nb: 2\n")]
    let two := described [("a", "1"), ("b", "2")]
    let container := Component.container "null"
    Format.yaml.render (Report.ofKind .architecture one) =
        "? |\n  pe\n: class: SRAM\n  hardware_attributes:\n    a: |\n      1\n      b: 2\n" ∧
      Format.yaml.render (Report.ofKind .architecture two) =
        "? |\n  pe\n: class: SRAM\n  hardware_attributes:\n    a: '1'\n    b: '2'\n" ∧
      Format.yaml.render (Report.ofKind .architecture one) ≠
        Format.yaml.render (Report.ofKind .architecture two) ∧
      Report.ofKind .architecture container = Report.ofKind .actionCounts container := by
  intro described one two container
  have hdescribed (entries : List (String × String)) : Reachable (described entries) :=
    .leaf (show Component.leaf "pe\n" "SRAM" (.ofList entries) ⟨[], List.nodup_nil⟩ =
      .ok (described entries) from rfl)
  have hcontainer : Reachable container := .container _
  refine ⟨by decide, by decide, fun htext ↦ ?_, ?_⟩
  · have hreport := (report_eq_of_yaml_eq (hdescribed _) (hdescribed _) .architecture
      .architecture).1 htext
    have hfollowed := congrArg (fun report ↦ ((Document.mapping report).follow?
      ["pe\n", "hardware_attributes", "b"]).isSome) hreport
    exact absurd hfollowed (by decide)
  · exact (report_eq_of_yaml_eq hcontainer hcontainer .architecture .actionCounts).1 (by decide)

end CountTree
