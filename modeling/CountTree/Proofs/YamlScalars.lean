import CountTree.Proofs.YamlLines

/-!
Scalars of a YAML text, read back from the place where they begin. The first character tells the
style. A plain scalar goes on up to a break or a colon before a blank (`plainPart`). Between quotes
every character is written by a code that is the beginning of no other, and what closes the quotes
begins no code (`flatMap_append_inj`). The lines of a literal block go on while they stand in the
column of the block (`unindent`), and its header tells whether the last break belongs to the text.
So a text that begins with a scalar begins with no other (`Scalar.append_inj`), whatever follows
them, as long as what follows ends them.
-/

set_option autoImplicit false
set_option relaxedAutoImplicit false

namespace CountTree.Yaml

variable {column n : Nat} {c : Char} {text text' word rest rest' : List Char}

/-! ### Plain scalars -/

/-- Whether a plain scalar of this text would end inside of it. -/
def endsEarly : List Char → Bool
  | [] => false
  | c :: rest => isBreak c || (c = ':' && followedByBlank rest) || endsEarly rest

/-- A text up to where a plain scalar ends. -/
def plainPart : List Char → List Char
  | [] => []
  | c :: rest =>
    if isBreak c || (c = ':' && followedByBlank rest) then [] else c :: plainPart rest

theorem plainPart_append (h : endsEarly text = false) (hrest : plainPart rest = []) :
    plainPart (text ++ rest) = text := by
  induction text with
  | nil => exact hrest
  | cons c more ih =>
    rw [endsEarly, Bool.or_eq_false_iff] at h
    -- What follows the text matters for its last character only, which is no colon.
    have hgoes : (isBreak c || (c = ':' && followedByBlank (more ++ rest))) = false := by
      rcases more with _ | ⟨d, more⟩
      · have hcolon : c ≠ ':' := by simpa [followedByBlank] using (Bool.or_eq_false_iff.mp h.1).2
        simpa [hcolon] using (Bool.or_eq_false_iff.mp h.1).1
      · exact h.1
    rw [List.cons_append, plainPart, hgoes, if_neg Bool.false_ne_true, ih h.2]

theorem endsEarly_eq_false {afterBlank : Bool} (h : hasInnerIndicator afterBlank text = false)
    (hbreak : text.any isBreak = false) : endsEarly text = false := by
  induction text generalizing afterBlank with
  | nil => rfl
  | cons c more ih =>
    rw [hasInnerIndicator, Bool.or_eq_false_iff, Bool.or_eq_false_iff] at h
    rw [List.any_cons, Bool.or_eq_false_iff] at hbreak
    rw [endsEarly, hbreak.1, h.1.1, ih h.2 hbreak.2]
    rfl

theorem endsEarly_of_forall (h : ∀ c ∈ text, isBreak c = false ∧ c ≠ ':') :
    endsEarly text = false := by
  induction text with
  | nil => rfl
  | cons c more ih =>
    obtain ⟨hbreak, hcolon⟩ := h c List.mem_cons_self
    simp [endsEarly, hbreak, hcolon, ih fun d hd ↦ h d (List.mem_cons_of_mem _ hd)]

/-- Whether a text begins like no plain scalar does: with a blank, or like a quoted scalar, a
block, an item or a key on lines of its own. -/
def beginsMarked : List Char → Bool
  | [] => true
  | c :: rest =>
    c = ' ' || c = '\'' || c = '"' || c = '|' || ((c = '-' || c = '?') && followedByBlank rest)

/-- A text that a plain scalar may have, whatever it is read as. -/
structure IsWord (word : List Char) : Prop where
  unmarked : beginsMarked word = false
  whole : endsEarly word = false

theorem beginsMarked_eq_false (hne : text ≠ []) (hblank : text.head?.any isSpace = false)
    (h : startsWithIndicator text = false) : beginsMarked text = false := by
  rcases text with _ | ⟨c, more⟩
  · exact absurd rfl hne
  · rw [startsWithIndicator, Bool.or_eq_false_iff] at h
    have hstart : c ∉ startIndicators := by simpa using h.1
    have hfirst : c ≠ ' ' ∧ c ≠ '\'' ∧ c ≠ '"' ∧ c ≠ '|' :=
      ⟨by simpa [isSpace] using hblank, fun hc ↦ hstart (hc ▸ by decide),
        fun hc ↦ hstart (hc ▸ by decide), fun hc ↦ hstart (hc ▸ by decide)⟩
    have hmark := h.2
    simp only [beginsMarked, hfirst, decide_false, Bool.false_or]
    grind

theorem isWord_of_style (h : style text = .plain) : IsWord text := by
  obtain ⟨hplain, hreads⟩ := of_style_eq_plain h
  have hne : text ≠ [] := by
    rintro rfl
    exact absurd hreads (by decide)
  rw [allowsPlain, hasIndicator.eq_def] at hplain
  simp only [Bool.and_eq_true, Bool.not_eq_true', Bool.or_eq_false_iff] at hplain
  obtain ⟨⟨⟨⟨-, hbreak⟩, hblank⟩, -⟩, ⟨-, hstart⟩, hinner⟩ := hplain
  refine ⟨beginsMarked_eq_false hne hblank hstart, ?_⟩
  rcases text with _ | ⟨c, more⟩
  · rfl
  · rw [List.any_cons, Bool.or_eq_false_iff] at hbreak
    have hcolon : (c = ':' && followedByBlank more) = false := by
      rw [startsWithIndicator, Bool.or_eq_false_iff] at hstart
      grind
    rw [endsEarly, hbreak.1, hcolon, endsEarly_eq_false hinner hbreak.2]
    rfl

/-! ### Words that are read as something else -/

theorem digitValue_of_isDigit (h : c.isDigit = true) : digitValue c = c.toNat - '0'.toNat :=
  if_pos h

theorem digitsIn?_toDigits (n : Nat) : digitsIn? 10 (Nat.toDigits 10 n) = some n := by
  have hdigit : ∀ c ∈ Nat.toDigits 10 n, c.isDigit = true := fun c hc ↦
    Nat.isDigit_of_mem_toDigits (by decide) (by decide) hc
  have hsmall : (Nat.toDigits 10 n).all (digitValue · < 10) = true := by
    rw [List.all_eq_true]
    intro c hc
    have hbound : c.toNat ≤ 57 := (Char.isDigit_iff_toNat.mp (hdigit c hc)).2
    rw [digitValue_of_isDigit (hdigit c hc), decide_eq_true_iff, show '0'.toNat = 48 from rfl]
    omega
  have hvalue : (Nat.toDigits 10 n).foldl (fun n c ↦ n * 10 + digitValue c) 0 = n := by
    conv_rhs => rw [← Nat.ofDigitChars_toDigits (b := 10) (n := n) (by decide) (by decide)]
    refine List.foldl_ext _ _ _ fun value c hc ↦ ?_
    rw [digitValue_of_isDigit (hdigit c hc), Nat.mul_comm]
  rw [digitsIn?, if_pos ⟨Nat.toDigits_ne_nil, hsmall⟩, hvalue]

/-- A word is read as the number whose digits it has. -/
theorem isInteger_toDigits (h : n < Nat.pow 2 128) : isInteger (Nat.toDigits 10 n) = true := by
  obtain ⟨c, more, heq, hdigit, hzero⟩ := Text.exists_toDigits n
  have hvalue := digitsIn?_toDigits n
  by_cases hn : n = 0
  · subst hn
    decide
  · have hc : c ≠ '0' ∧ c ≠ '-' ∧ c ≠ '+' := ⟨fun hc ↦ hn (hzero hc),
      Text.ne_of_isDigit hdigit (by decide), Text.ne_of_isDigit hdigit (by decide)⟩
    rw [heq] at hvalue ⊢
    have hbased : based? (c :: more) = none := by simp [based?, hc]
    have hled : isZeroLed (c :: more) = false := by simp [isZeroLed, dropSign, hc]
    simp [isInteger, dropSign, hc, magnitude?, hbased, hled, hvalue, h]

theorem isWord_toDigits (n : Nat) : IsWord (Nat.toDigits 10 n) := by
  have hne (c : Char) (hc : c ∈ Nat.toDigits 10 n) {d : Char} (hd : d.isDigit = false) : c ≠ d :=
    Text.ne_of_isDigit (Nat.isDigit_of_mem_toDigits (by decide) (by decide) hc) hd
  constructor
  · obtain ⟨c, more, heq⟩ := List.exists_cons_of_ne_nil (Nat.toDigits_ne_nil (b := 10) (n := n))
    have hc {d : Char} : d.isDigit = false → c ≠ d := hne c (heq ▸ List.mem_cons_self)
    simp [heq, beginsMarked, hc]
  · exact endsEarly_of_forall fun c hc ↦ ⟨by simp [isBreak, nextLine, lineSeparator,
      paragraphSeparator, hne c hc], hne c hc (by decide)⟩

theorem readsOtherwise_of_isInteger (h : isInteger word = true) : readsOtherwise word = true := by
  simp [readsOtherwise, h]

theorem readsOtherwise_eq_false (hc : c = '\'' ∨ c = '"' ∨ c = '|') (more : List Char) :
    readsOtherwise (c :: more) = false := by
  rcases hc with rfl | rfl | rfl <;>
    simp [readsOtherwise, isNull, isBoolean, isInteger, magnitude?, based?, isZeroLed, dropSign,
      digitsIn?, digitValue, isFloat, isNamedFloat, decimal?, spanDigits]

/-! ### Lines in a column -/

/-- Whether the text is over or its next line begins to the left of a column. -/
def Outdented (column : Nat) (text : List Char) : Prop :=
  text = [] ∨ ∃ smaller < column, ∃ c more,
    text = blanks smaller ++ c :: more ∧ c ≠ ' ' ∧ isBreak c = false

/-- Takes the blanks away that lines have on the left of a column, `skip` of them first, up to a
line that has fewer. Empty lines need none. -/
def unindent (column : Nat) : (skip : Nat) → List Char → List Char
  | _, [] => []
  | 0, c :: rest => c :: unindent column (if isBreak c then column else 0) rest
  | skip + 1, c :: rest =>
    if c = ' ' then unindent column skip rest
    else if isBreak c then c :: unindent column column rest
    else []

theorem blanks_succ (column : Nat) : blanks (column + 1) = ' ' :: blanks column :=
  List.replicate_succ

theorem isBreak_blank : isBreak ' ' = false := by decide

theorem unindent_break (h : isBreak c = true) (skip : Nat) (rest : List Char) :
    unindent column skip (c :: rest) = c :: unindent column column rest := by
  cases skip with
  | zero => rw [unindent, if_pos h]
  | succ skip =>
    have hblank : c ≠ ' ' := by
      rintro rfl
      simp [isBreak_blank] at h
    rw [unindent, if_neg hblank, if_pos h]

theorem unindent_blanks (h : isBreak c = false) (skip : Nat) (rest : List Char) :
    unindent column skip (blanks skip ++ c :: rest) = c :: unindent column 0 rest := by
  induction skip with
  | zero =>
    rw [blanks, List.replicate_zero, List.nil_append, unindent, h, if_neg Bool.false_ne_true]
  | succ skip ih => rw [blanks_succ, List.cons_append, unindent, if_pos rfl, ih]

theorem unindent_of_outdented (h : Outdented column rest) : unindent column column rest = [] := by
  have hshort (smaller skip : Nat) (hskip : smaller < skip) (c : Char) (more : List Char)
      (hc : c ≠ ' ') (hbreak : isBreak c = false) :
      unindent column skip (blanks smaller ++ c :: more) = [] := by
    induction smaller generalizing skip with
    | zero =>
      obtain ⟨skip, rfl⟩ : ∃ less, skip = less + 1 := ⟨skip - 1, by omega⟩
      rw [blanks, List.replicate_zero, List.nil_append, unindent, if_neg hc, hbreak,
        if_neg Bool.false_ne_true]
    | succ smaller ih =>
      obtain ⟨skip, rfl⟩ : ∃ less, skip = less + 1 := ⟨skip - 1, by omega⟩
      rw [blanks_succ, List.cons_append, unindent, if_pos rfl, ih skip (by omega)]
  obtain rfl | ⟨smaller, hsmaller, c, more, rfl, hc, hbreak⟩ := h
  · cases column <;> rfl
  · exact hshort smaller column hsmaller c more hc hbreak

/-- Whether the last character of a text is a break, when `before` tells of what precedes it. -/
def endsBroken (before : Bool) (text : List Char) : Bool :=
  text.foldl (fun _ c ↦ isBreak c) before

theorem endsBroken_concat (before : Bool) (text : List Char) (c : Char) :
    endsBroken before (text ++ [c]) = isBreak c := by
  rw [endsBroken, List.foldl_append]
  rfl

/-- The lines of a block are its text moved to the right. -/
theorem unindent_literalRest (column : Nat) (before : Bool) (text rest : List Char) :
    unindent column (if before then column else 0) (literalRest column before text ++ rest) =
      text ++ unindent column (if endsBroken before text then column else 0) rest := by
  induction text generalizing before with
  | nil => rfl
  | cons c text ih =>
    have hends : endsBroken before (c :: text) = endsBroken (isBreak c) text := rfl
    by_cases hbreak : isBreak c = true
    · have hrest := ih true
      rw [if_pos rfl] at hrest
      rw [literalRest, if_pos hbreak, List.cons_append, unindent_break hbreak, hrest, hends, hbreak,
        List.cons_append]
    · have hblanks : (if before then blanks column else []) =
          blanks (if before then column else 0) := by
        cases before <;> rfl
      have hrest := ih false
      rw [if_neg Bool.false_ne_true] at hrest
      rw [Bool.not_eq_true] at hbreak
      rw [literalRest, hbreak, if_neg Bool.false_ne_true, hblanks, List.append_assoc,
        List.cons_append, unindent_blanks hbreak, hrest, hends, hbreak, List.cons_append]

/-! ### Quotes -/

/-- A text written by codes, none of which begins another, is found up to where no code begins. -/
theorem flatMap_append_inj {code : Char → List Char}
    (hcode : ∀ c d more more', code c ++ more = code d ++ more' → c = d)
    (h : ∀ c, ¬ code c <+: rest) (h' : ∀ c, ¬ code c <+: rest')
    (heq : text.flatMap code ++ rest = text'.flatMap code ++ rest') : text = text' := by
  induction text generalizing text' with
  | nil =>
    rcases text' with _ | ⟨d, text'⟩
    · rfl
    · rw [List.flatMap_cons, List.append_assoc] at heq
      exact absurd ⟨_, heq.symm⟩ (h d)
  | cons c text ih =>
    rcases text' with _ | ⟨d, text'⟩
    · rw [List.flatMap_cons, List.append_assoc] at heq
      exact absurd ⟨_, heq⟩ (h' c)
    · rw [List.flatMap_cons, List.flatMap_cons, List.append_assoc, List.append_assoc] at heq
      obtain rfl := hcode c d _ _ heq
      rw [ih (List.append_cancel_left heq)]

/-- What stands between single quotes for a character. -/
def doubled (c : Char) : List Char := if c = '\'' then ['\'', '\''] else [c]

theorem singleQuotedRest_eq (before : Bool) (text : List Char) :
    singleQuotedRest column before text =
      literalRest column before (text.flatMap doubled ++ ['\'']) := by
  have hquote : isBreak '\'' = false := by decide
  induction text generalizing before with
  | nil => simp [singleQuotedRest, literalRest, hquote]
  | cons c text ih =>
    by_cases hc : c = '\''
    · subst hc
      simp [singleQuotedRest, literalRest, doubled, hquote, ih]
    · by_cases hbreak : isBreak c <;> simp [singleQuotedRest, literalRest, doubled, hc, hbreak, ih]

theorem doubled_eq (c : Char) : doubled c = c :: (if c = '\'' then ['\''] else []) := by
  rw [doubled]
  split
  · rename_i hc
    rw [hc]
  · rfl

theorem not_begins_doubled (h : rest.head? ≠ some '\'') (c : Char) :
    ¬ doubled c <+: '\'' :: rest := by
  rw [doubled]
  split
  · rcases rest with _ | ⟨d, rest⟩
    · simp
    · simpa [eq_comm] using h
  · rename_i hc
    simpa using hc

/-- What stands in a column between single quotes determines the text. -/
theorem singleQuoted_append_inj (h : rest.head? ≠ some '\'') (h' : rest'.head? ≠ some '\'')
    (heq : singleQuoted column text ++ rest = singleQuoted column text' ++ rest') :
    text = text' := by
  have hread (text rest : List Char) :
      unindent column 0 (singleQuotedRest column false text ++ rest) =
        text.flatMap doubled ++ '\'' :: unindent column 0 rest := by
    have hlines := unindent_literalRest column false (text.flatMap doubled ++ ['\'']) rest
    rw [endsBroken_concat, if_neg Bool.false_ne_true] at hlines
    rw [singleQuotedRest_eq, hlines, List.append_assoc]
    rfl
  have hafter {rest : List Char} (h : rest.head? ≠ some '\'') :
      (unindent column 0 rest).head? ≠ some '\'' := by
    cases rest with
    | nil => exact h
    | cons c rest => exact h
  rw [singleQuoted, singleQuoted, List.cons_append, List.cons_append, List.cons.injEq] at heq
  have hlines := congrArg (unindent column 0) heq.2
  rw [hread, hread] at hlines
  refine flatMap_append_inj (fun c d more more' hcode ↦ ?_) (not_begins_doubled (hafter h))
    (not_begins_doubled (hafter h')) hlines
  rw [doubled_eq, doubled_eq, List.cons_append, List.cons_append, List.cons.injEq] at hcode
  exact hcode.1

/-! ### Escapes -/

theorem hexDigits_append_inj {count n n' : Nat}
    (h : hexDigits count n ++ rest = hexDigits count n' ++ rest') :
    n % 16 ^ count = n' % 16 ^ count := by
  have hdigit : ∀ digit digit' : Fin 16,
      (Nat.digitChar digit).toUpper = (Nat.digitChar digit').toUpper → digit = digit' := by decide
  induction count with
  | zero => rw [Nat.pow_zero, Nat.mod_one, Nat.mod_one]
  | succ count ih =>
    rw [hexDigits, hexDigits, List.cons_append, List.cons_append, List.cons.injEq] at h
    have hfirst := hdigit ⟨_, Nat.mod_lt _ (by decide)⟩ ⟨_, Nat.mod_lt _ (by decide)⟩ h.1
    have hvalue : n / 16 ^ count % 16 = n' / 16 ^ count % 16 := Fin.mk.inj hfirst
    rw [Nat.mod_pow_succ, Nat.mod_pow_succ, ih h.2, hvalue]

theorem numericEscape_append_inj {d : Char}
    (h : numericEscape c ++ rest = numericEscape d ++ rest') : c = d := by
  have hmarks : ∀ mark ∈ numericMarks, ∀ mark' ∈ numericMarks, mark.1 = mark'.1 → mark = mark' := by
    decide
  obtain ⟨mark, hmark, hc, hlt⟩ := exists_numericEscape c
  obtain ⟨mark', hmark', hd, hlt'⟩ := exists_numericEscape d
  rw [hc, hd, List.cons_append, List.cons_append, List.cons.injEq] at h
  obtain rfl := hmarks mark hmark mark' hmark' h.1
  have hdigits := hexDigits_append_inj h.2
  rw [Nat.mod_eq_of_lt hlt, Nat.mod_eq_of_lt hlt'] at hdigits
  exact Char.toNat_inj.mp hdigits

theorem escapeName_append_inj {d : Char} (h : escapeName c ++ rest = escapeName d ++ rest') :
    c = d := by
  have hletters : ∀ entry ∈ escapeLetters, ∀ entry' ∈ escapeLetters,
      entry.2 = entry'.2 → entry.1 = entry'.1 := by decide
  have hmarks : ∀ entry ∈ escapeLetters, ∀ mark ∈ numericMarks, entry.2 ≠ mark.1 := by decide
  obtain ⟨letter, hletter, hc⟩ | hc := escapeName_cases c <;>
    obtain ⟨letter', hletter', hd⟩ | hd := escapeName_cases d <;> rw [hc, hd] at h
  · exact hletters _ hletter _ hletter' (List.cons.inj h).1
  · obtain ⟨mark, hmark, hnumeric, -⟩ := exists_numericEscape d
    rw [hnumeric] at h
    exact absurd (List.cons.inj h).1 (hmarks _ hletter mark hmark)
  · obtain ⟨mark, hmark, hnumeric, -⟩ := exists_numericEscape c
    rw [hnumeric] at h
    exact absurd (List.cons.inj h).1.symm (hmarks _ hletter' mark hmark)
  · exact numericEscape_append_inj h

theorem isEscaped_backslash : isEscaped '\\' = true := by decide

theorem escape_append_inj {d : Char} (h : escape c ++ rest = escape d ++ rest') : c = d := by
  rw [escape_eq, escape_eq] at h
  by_cases hc : isEscaped c = true <;> by_cases hd : isEscaped d = true <;>
    simp only [hc, hd, ↓reduceIte, Bool.false_eq_true, List.cons_append, List.cons.injEq] at h
  · exact escapeName_append_inj h.2
  · exact absurd (h.1 ▸ isEscaped_backslash) hd
  · exact absurd (h.1 ▸ isEscaped_backslash) hc
  · exact h.1

theorem not_begins_escape (rest : List Char) (c : Char) : ¬ escape c <+: '"' :: rest := by
  rw [escape_eq]
  split
  · simp
  · rename_i hc
    have hquote : c ≠ '"' := by
      rintro rfl
      exact hc (by decide)
    simpa using hquote

/-- What stands between double quotes determines the text. -/
theorem doubleQuoted_append_inj (h : doubleQuoted text ++ rest = doubleQuoted text' ++ rest') :
    text = text' := by
  rw [doubleQuoted, doubleQuoted, List.cons_append, List.cons_append, List.cons.injEq,
    List.append_assoc, List.append_assoc] at h
  exact flatMap_append_inj (fun _ _ _ _ ↦ escape_append_inj) (not_begins_escape rest)
    (not_begins_escape rest') h.2

/-! ### Literal blocks -/

/-- The break after a block whose text does not end with one. -/
def finalBreak (text : List Char) : List Char := if text.getLast?.any isBreak then [] else ['\n']

theorem dash_mem_literalHints (text : List Char) :
    '-' ∈ literalHints text ↔ text.getLast?.any isBreak = false := by
  rw [literalHints, List.mem_append, ← List.head?_reverse]
  rcases text.reverse with _ | ⟨c, _ | ⟨d, more⟩⟩ <;> grind

/-- The header of a block tells whether its last break belongs to the text. -/
theorem finalBreak_eq (text : List Char) :
    finalBreak text = if '-' ∈ literalHints text then ['\n'] else [] := by
  simp only [finalBreak, dash_mem_literalHints]
  cases text.getLast?.any isBreak <;> rfl

theorem endsBroken_of_getLast? (h : text.getLast?.any isBreak = true) (before : Bool) :
    endsBroken before text = true := by
  rcases List.eq_nil_or_concat text with rfl | ⟨first, c, rfl⟩
  · cases h
  · rw [List.concat_eq_append, endsBroken_concat]
    simpa using h

theorem unindent_literal (h : Outdented column rest) (text : List Char) :
    unindent column column (literalRest column true text ++ (finalBreak text ++ rest)) =
      text ++ finalBreak text := by
  have hlines := unindent_literalRest column true text (finalBreak text ++ rest)
  rw [if_pos rfl] at hlines
  rw [hlines]
  congr 1
  by_cases hends : text.getLast?.any isBreak = true
  · rw [finalBreak, if_pos hends, endsBroken_of_getLast? hends, if_pos rfl, List.nil_append,
      unindent_of_outdented h]
  · rw [finalBreak, if_neg hends, List.singleton_append, unindent_break (by decide),
      unindent_of_outdented h]

/-- The header and the lines of a block in a column determine the text. -/
theorem literal_append_inj (h : Outdented column rest) (h' : Outdented column rest')
    (heq : literal column text ++ (finalBreak text ++ rest) =
      literal column text' ++ (finalBreak text' ++ rest')) : text = text' := by
  simp only [literal, List.cons_append, List.append_assoc, List.cons.injEq, true_and] at heq
  have hheader (text more : List Char) :
      (literalHints text ++ '\n' :: more).takeWhile (· ≠ '\n') = literalHints text := by
    rw [List.takeWhile_append_of_pos fun c hc ↦ ?_, List.takeWhile_cons_of_neg (by simp),
      List.append_nil]
    exact decide_eq_true fun hbreak ↦ newline_notMem_literalHints text (hbreak ▸ hc)
  -- The header ends at the first break, so that it is known before the lines are read.
  have hhints : literalHints text = literalHints text' := by
    have hheads := congrArg (List.takeWhile (· ≠ '\n')) heq
    rwa [hheader, hheader] at hheads
  rw [hhints] at heq
  have hlines := congrArg (unindent column column) (List.cons.inj (List.append_cancel_left heq)).2
  rw [unindent_literal h, unindent_literal h'] at hlines
  have hbreaks : finalBreak text = finalBreak text' := by
    rw [finalBreak_eq, finalBreak_eq, hhints]
  exact List.append_cancel_right (hbreaks ▸ hlines)

/-! ### Scalars of any style -/

/-- A scalar as it is written in a style, up to where it ends. -/
def written (column : Nat) : Style → List Char → List Char
  | .plain, word => word
  | .singleQuoted, word => singleQuoted column word
  | .doubleQuoted, word => doubleQuoted word
  | .literal, word => literal column word ++ finalBreak word

/-- Whether what follows a scalar in a column ends it. -/
inductive Scalar (column : Nat) : Style → List Char → List Char → Prop
  | plain {word rest : List Char} (hword : IsWord word) (hrest : plainPart rest = []) :
      Scalar column .plain word rest
  | singleQuoted {word rest : List Char} (hrest : rest.head? ≠ some '\'') :
      Scalar column .singleQuoted word rest
  | doubleQuoted {word rest : List Char} : Scalar column .doubleQuoted word rest
  | literal {word rest : List Char} (hrest : Outdented column rest) :
      Scalar column .literal word rest

/-- The style of the scalar that a text begins with. -/
def leadingStyle : List Char → Style
  | '\'' :: _ => .singleQuoted
  | '"' :: _ => .doubleQuoted
  | '|' :: _ => .literal
  | _ => .plain

theorem IsWord.exists_cons (h : IsWord word) : ∃ c more, word = c :: more ∧
    (c ≠ ' ' ∧ isBreak c = false) ∧ (c ≠ '\'' ∧ c ≠ '"' ∧ c ≠ '|') ∧
      (c = '-' ∨ c = '?' → followedByBlank more = false) := by
  have hmarked := h.unmarked
  have hwhole := h.whole
  rcases word with _ | ⟨c, more⟩
  · cases hmarked
  · refine ⟨c, more, rfl, ?_⟩
    rw [beginsMarked] at hmarked
    rw [endsEarly] at hwhole
    grind

namespace Scalar

variable {s s' : Style} {word' : List Char}

theorem leadingStyle_eq (h : Scalar column s word rest) :
    leadingStyle (written column s word ++ rest) = s := by
  cases h with
  | plain hword hrest =>
    obtain ⟨c, more, rfl, -, ⟨hsingle, hdouble, hbar⟩, -⟩ := hword.exists_cons
    rw [written, List.cons_append, leadingStyle]
    · simpa using hsingle
    · simpa using hdouble
    · simpa using hbar
  | singleQuoted hrest => rfl
  | doubleQuoted => rfl
  | literal hrest => rfl

/-- A text begins with one scalar only. -/
theorem append_inj (h : Scalar column s word rest) (h' : Scalar column s' word' rest')
    (heq : written column s word ++ rest = written column s' word' ++ rest') :
    s = s' ∧ word = word' ∧ rest = rest' := by
  obtain rfl : s = s' := by rw [← h.leadingStyle_eq, heq, h'.leadingStyle_eq]
  have hword : word = word' := by
    cases h with
    | plain hword hrest =>
      cases h' with
      | plain hword' hrest' =>
        have hparts := congrArg plainPart heq
        rwa [written, written, plainPart_append hword.whole hrest,
          plainPart_append hword'.whole hrest'] at hparts
    | singleQuoted hrest =>
      cases h' with
      | singleQuoted hrest' => exact singleQuoted_append_inj hrest hrest' heq
    | doubleQuoted => exact doubleQuoted_append_inj heq
    | literal hrest =>
      cases h' with
      | literal hrest' =>
        rw [written, written, List.append_assoc, List.append_assoc] at heq
        exact literal_append_inj hrest hrest' heq
  subst hword
  exact ⟨rfl, rfl, List.append_cancel_left heq⟩

/-- A scalar begins with no blank and no break. -/
theorem exists_cons (h : Scalar column s word rest) :
    ∃ c more, written column s word ++ rest = c :: more ∧ c ≠ ' ' ∧ isBreak c = false := by
  cases h with
  | plain hword hrest =>
    obtain ⟨c, more, rfl, hfirst, -, -⟩ := hword.exists_cons
    exact ⟨c, more ++ rest, rfl, hfirst⟩
  | singleQuoted hrest => exact ⟨_, _, rfl, by decide, by decide⟩
  | doubleQuoted => exact ⟨_, _, rfl, by decide, by decide⟩
  | literal hrest => exact ⟨_, _, rfl, by decide, by decide⟩

/-- A scalar does not begin like an item or a key on lines of its own. -/
theorem ne_mark (h : Scalar column s word rest) (hc : c = '-' ∨ c = '?') (more : List Char) :
    written column s word ++ rest ≠ c :: ' ' :: more := by
  have hquote : c ≠ '\'' ∧ c ≠ '"' ∧ c ≠ '|' := by rcases hc with rfl | rfl <;> decide
  cases h with
  | plain hword hrest =>
    obtain ⟨first, after, rfl, -, -, hmark⟩ := hword.exists_cons
    rw [written, List.cons_append]
    intro heq
    obtain ⟨rfl, hafter⟩ := List.cons.inj heq
    have hfollowed := hmark hc
    rcases after with _ | ⟨d, after⟩
    · cases hfollowed
    · obtain rfl := (List.cons.inj hafter).1
      simp [followedByBlank, isBlank] at hfollowed
  | singleQuoted hrest => exact fun heq ↦ hquote.1 (List.cons.inj heq).1.symm
  | doubleQuoted => exact fun heq ↦ hquote.2.1 (List.cons.inj heq).1.symm
  | literal hrest => exact fun heq ↦ hquote.2.2 (List.cons.inj heq).1.symm

end Scalar

end CountTree.Yaml
