import CountTree.Json
import CountTree.Json.Reader
import CountTree.Proofs.Lines
import CountTree.Proofs.ReportPaths

/-!
JSON reports read back. A reader of all of JSON gives the document of which a report is the text,
with every key in its place (`report_reads_back`), and so different reports have different texts.
-/

set_option autoImplicit false
set_option relaxedAutoImplicit false

namespace CountTree

namespace Json

open Text

variable {rest : List Char}

/-! ### Blanks -/

theorem skipBlanks_cons {c : Char} (h : isBlank c = false) : skipBlanks (c :: rest) = c :: rest :=
  List.dropWhile_cons_of_neg (by simp [h])

theorem skipBlanks_append {blanks : List Char} (h : ∀ c ∈ blanks, isBlank c) (text : List Char) :
    skipBlanks (blanks ++ text) = skipBlanks text :=
  List.dropWhile_append_of_pos h

theorem isBlank_of_mem_newline (level : Nat) : ∀ c ∈ newline level, isBlank c := by
  intro c hc
  rcases List.mem_cons.mp hc with rfl | hc
  · decide
  · rw [List.eq_of_mem_replicate hc]
    decide

/-! ### Texts -/

theorem hexValue?_digitChar {n : Nat} (h : n < 16) : Toml.hexValue? (Nat.digitChar n) = some n := by
  have hdigit : ∀ digit : Fin 16, Toml.hexValue? (Nat.digitChar digit) = some digit.val := by decide
  exact hdigit ⟨n, h⟩

/-- The four digits of an escaped control character. -/
theorem codeUnit?_hexDigits {n : Nat} (h : n < 0x20) :
    codeUnit? ['0', '0', hexDigit (n / 16), hexDigit n] = some n := by
  have hzero : Toml.hexValue? '0' = some 0 := by decide
  have hfirst := hexValue?_digitChar (Nat.mod_lt (n / 16) (by decide : 0 < 16))
  have hsecond := hexValue?_digitChar (Nat.mod_lt n (by decide : 0 < 16))
  simp only [codeUnit?, hexDigit, List.foldlM_cons, List.foldlM_nil, hzero, hfirst, hsecond,
    Option.map_some, Option.bind_eq_bind, Option.bind_some, Option.pure_def]
  congr 1
  omega

theorem char?_toNat (c : Char) : char? c.toNat = some c := by
  have hvalid : c.toNat.isValidChar := c.valid
  have hchar : Char.ofNat c.toNat = Char.ofNatAux c.toNat hvalid := dif_pos hvalid
  rw [char?, dif_pos hvalid, ← hchar, Char.ofNat_toNat]

theorem textRest_cons {c : Char} (hplain : 0x20 ≤ c.toNat) (hquote : c ≠ '"') (hslash : c ≠ '\\') :
    textRest none (c :: rest) = Toml.push c (textRest none rest) := by
  rw [textRest.eq_def]
  simp [hplain, hslash]

theorem textRest_short {c : Char} (h : c ≠ 'u') :
    textRest none ('\\' :: c :: rest) =
      Toml.pushEscaped (shortEscapes.lookup c) (textRest none rest) := by
  rw [textRest.eq_def]
  simp [h]

theorem textRest_unit {a b c d : Char} {unit : Nat} (h : codeUnit? [a, b, c, d] = some unit)
    (hhigh : isHighSurrogate unit = false) :
    textRest none ('\\' :: 'u' :: a :: b :: c :: d :: rest) =
      Toml.pushEscaped (char? unit) (textRest none rest) := by
  rw [textRest.eq_def]
  simp [h, hhigh]

/-- What is written for a character is read as that character. -/
theorem textRest_escape (c : Char) :
    textRest none (escape c ++ rest) = Toml.push c (textRest none rest) := by
  rw [escape]
  split_ifs with hquote hslash _ _ _ _ _ hcontrol
  iterate 7
    · subst c
      exact textRest_short (by decide)
  · have hhigh : isHighSurrogate c.toNat = false := by
      rw [isHighSurrogate, Bool.and_eq_false_iff]
      exact .inl (decide_eq_false (by omega))
    exact (textRest_unit (codeUnit?_hexDigits hcontrol) hhigh).trans (by rw [char?_toNat]; rfl)
  · exact textRest_cons (by omega) hquote hslash

theorem textRest_escapes (content : List Char) :
    textRest none (content.flatMap escape ++ '"' :: rest) = some (content, rest) := by
  induction content with
  | nil => simp [textRest]
  | cons c content ih =>
    rw [List.flatMap_cons, List.append_assoc, textRest_escape, ih]
    rfl

/-! ### Numbers -/

/-- What stands after a value inside of a report. -/
def Delimited (rest : List Char) : Prop := ∀ c ∈ rest.head?, c = ',' ∨ c = '\n'

theorem delimited_nil : Delimited [] := by simp [Delimited]

theorem delimited_comma : Delimited (',' :: rest) := by simp [Delimited]

theorem delimited_newline (level : Nat) : Delimited (newline level ++ rest) := by
  simp [Delimited, newline]

theorem Delimited.digits_eq (h : Delimited rest) {text : List Char} (hne : text ≠ [])
    (hdigits : ∀ c ∈ text, c.isDigit) : digits (text ++ rest) = some (text, rest) := by
  have hrest : rest.takeWhile Char.isDigit = [] ∧ rest.dropWhile Char.isDigit = rest := by
    cases rest with
    | nil => exact ⟨rfl, rfl⟩
    | cons c rest => rcases h c rfl with rfl | rfl <;> exact ⟨rfl, rfl⟩
  rw [digits, List.takeWhile_append_of_pos hdigits, List.dropWhile_append_of_pos hdigits, hrest.1,
    hrest.2, List.append_nil]
  exact if_neg hne

theorem wholeDigits_toDigits (n : Nat) (h : Delimited rest) :
    wholeDigits (Nat.toDigits 10 n ++ rest) = some (Nat.toDigits 10 n, rest) := by
  have hne : Nat.toDigits 10 n ≠ [] := Nat.toDigits_ne_nil
  have hdigits := h.digits_eq hne fun c hc ↦ Nat.isDigit_of_mem_toDigits (by decide) (by decide) hc
  obtain ⟨c, more, htext, -, hzero⟩ := exists_toDigits n
  by_cases hn : n = 0
  · subst n
    rfl
  rw [htext, List.cons_append] at hdigits ⊢
  rw [wholeDigits]
  · exact hdigits
  · rintro _ heq
    exact hn (hzero (List.cons.inj heq).1)

theorem Delimited.fraction_eq (h : Delimited rest) : fraction rest = some ([], rest) := by
  cases rest with
  | nil => rfl
  | cons c rest => rcases h c rfl with rfl | rfl <;> rfl

theorem Delimited.exponent_eq (h : Delimited rest) : exponent rest = some (0, rest) := by
  cases rest with
  | nil => rfl
  | cons c rest => rcases h c rfl with rfl | rfl <;> rfl

theorem magnitude_toDigits (n : Nat) (h : Delimited rest) :
    magnitude (Nat.toDigits 10 n ++ rest) = some ((n : ℚ), rest) := by
  simp [magnitude, wholeDigits_toDigits n h, h.fraction_eq, h.exponent_eq,
    Nat.ofDigitChars_toDigits]

/-! ### Scalars -/

theorem scalar_quoted (content : String) :
    scalar (quoted content ++ rest) = some (.text content, rest) := by
  rw [quoted, List.cons_append, List.append_assoc, scalar]
  simp [textRest_escapes]

/-- A digit opens a number and nothing else. -/
theorem scalar_toDigits (n : Nat) (h : Delimited rest) :
    scalar (Nat.toDigits 10 n ++ rest) = some (.number n, rest) := by
  have hmagnitude := magnitude_toDigits n h
  obtain ⟨c, more, htext, hdigit, -⟩ := exists_toDigits n
  rw [htext, List.cons_append] at hmagnitude ⊢
  have hhead {d : Char} {text : List Char} (hd : d.isDigit = false) :
      c :: (more ++ rest) ≠ d :: text :=
    fun heq ↦ ne_of_isDigit hdigit hd (List.cons.inj heq).1
  have hnumber : number (c :: (more ++ rest)) = some ((n : ℚ), rest) := by
    rw [number]
    · exact hmagnitude
    · exact fun _ ↦ hhead (by decide)
  rw [scalar]
  · rw [hnumber]
    rfl
  · exact fun _ ↦ hhead (by decide)
  · exact fun _ ↦ hhead (by decide)
  · exact fun _ ↦ hhead (by decide)
  · exact fun _ ↦ hhead (by decide)

/-! ### Brackets -/

section Brackets

variable {α : Type} {closing : Char} {element : Toml.Reader α} {first : α} {others : List α}
  {fuel : Nat} {text afterFirst : List Char}

theorem following_closing (hclosing : isBlank closing = false) (level : Nat) :
    following closing element (fuel + 1) (newline level ++ closing :: rest) = some ([], rest) := by
  rw [following, skipBlanks_append (isBlank_of_mem_newline level), skipBlanks_cons hclosing]
  exact if_pos rfl

theorem following_comma (hclosing : closing ≠ ',')
    (hfirst : element text = some (first, afterFirst))
    (hothers : following closing element fuel afterFirst = some (others, rest)) :
    following closing element (fuel + 1) (',' :: text) = some (first :: others, rest) := by
  rw [following, skipBlanks_cons (by decide)]
  dsimp only
  rw [if_neg hclosing.symm, if_pos rfl, hfirst, Option.bind_some, hothers, Option.map_some]

theorem enclosed_closing (hclosing : isBlank closing = false) :
    enclosed closing element (closing :: rest) = some ([], rest) := by
  rw [enclosed, skipBlanks_cons hclosing]
  exact if_pos rfl

theorem enclosed_element (hopen : ∃ c more, skipBlanks text = c :: more ∧ c ≠ closing)
    (hfirst : element text = some (first, afterFirst))
    (hothers : following closing element (afterFirst.length + 1) afterFirst = some (others, rest)) :
    enclosed closing element text = some (first :: others, rest) := by
  obtain ⟨c, more, htext, hclosing⟩ := hopen
  rw [enclosed, htext]
  dsimp only
  rw [if_neg hclosing, hfirst, Option.bind_some, hothers, Option.map_some]

end Brackets

/-! ### Values -/

variable {depth : Nat}

/-- Blanks before a value do not matter. -/
theorem readValue_append {blanks : List Char} (h : ∀ c ∈ blanks, isBlank c) (text : List Char) :
    readValue depth (blanks ++ text) = readValue depth text := by
  cases depth with
  | zero => rfl
  | succ depth => rw [readValue, readValue, skipBlanks_append h]

theorem readValue_scalar {c : Char} {more : List Char} (hblank : isBlank c = false)
    (harray : c ≠ '[') (hobject : c ≠ '\x7b') :
    readValue (depth + 1) (c :: more) = scalar (c :: more) := by
  rw [readValue, skipBlanks_cons hblank]
  simp [harray, hobject]

theorem readValue_quoted (content : String) :
    readValue (depth + 1) (quoted content ++ rest) = some (.text content, rest) := by
  rw [← scalar_quoted]
  exact readValue_scalar (by decide) (by decide) (by decide)

theorem isBlank_of_isDigit {c : Char} (h : c.isDigit) : isBlank c = false := by
  have hne {d : Char} (hd : d.isDigit = false) : c ≠ d := ne_of_isDigit h hd
  rw [isBlank, decide_eq_false (hne (by decide)), decide_eq_false (hne (by decide)),
    decide_eq_false (hne (by decide)), decide_eq_false (hne (by decide))]
  rfl

theorem readValue_toDigits (n : Nat) (h : Delimited rest) :
    readValue (depth + 1) (Nat.toDigits 10 n ++ rest) = some (.number n, rest) := by
  obtain ⟨c, more, htext, hdigit, -⟩ := exists_toDigits n
  rw [← scalar_toDigits n h, htext]
  exact readValue_scalar (isBlank_of_isDigit hdigit) (ne_of_isDigit hdigit (by decide))
    (ne_of_isDigit hdigit (by decide))

theorem readValue_array {text : List Char} {items : List Value}
    (h : enclosed ']' (readValue depth) text = some (items, rest)) :
    readValue (depth + 1) ('[' :: text) = some (.array items, rest) := by
  rw [readValue, skipBlanks_cons (by decide)]
  simp [h]

theorem readValue_object {text : List Char} {members : List (String × Value)}
    (h : enclosed '\x7d' (member (readValue depth)) text = some (members, rest)) :
    readValue (depth + 1) ('\x7b' :: text) = some (.object members, rest) := by
  rw [readValue, skipBlanks_cons (by decide)]
  simp [h]

theorem key_quoted (level : Nat) (name : String) (text : List Char) :
    key (newline level ++ (quoted name ++ ':' :: ' ' :: text)) = some (name, ' ' :: text) := by
  rw [key, skipBlanks_append (isBlank_of_mem_newline level), quoted, List.cons_append,
    skipBlanks_cons (by decide)]
  simp [textRest_escapes, skipBlanks_cons, isBlank]

theorem member_field {text : List Char} {field : Value} (level : Nat) (name : String)
    (h : readValue depth text = some (field, rest)) :
    member (readValue depth) (newline level ++ (quoted name ++ ':' :: ' ' :: text)) =
      some ((name, field), rest) := by
  have hblank : ∀ c ∈ [' '], isBlank c := by
    intro c hc
    rw [List.mem_singleton.mp hc]
    decide
  have hfield : readValue depth (' ' :: text) = some (field, rest) := by
    rwa [← List.singleton_append, readValue_append hblank]
  simp only [member, key_quoted, Option.bind_some, hfield, Option.map_some]

/-- The first character of a value is no blank and closes nothing. -/
theorem exists_value (level : Nat) (document : Document) :
    ∃ c more, value level document = c :: more ∧ isBlank c = false ∧ c ≠ ']' := by
  cases document with
  | text content =>
    rw [value, quoted]
    exact ⟨_, _, rfl, by decide, by decide⟩
  | number n =>
    obtain ⟨c, more, htext, hdigit, -⟩ := exists_toDigits n
    rw [value, htext]
    exact ⟨c, more, rfl, isBlank_of_isDigit hdigit, ne_of_isDigit hdigit (by decide)⟩
  | sequence items =>
    cases items <;> rw [value] <;> exact ⟨_, _, rfl, by decide, by decide⟩
  | mapping entries =>
    cases entries <;> rw [value] <;> exact ⟨_, _, rfl, by decide, by decide⟩

theorem delimited_items (level outer : Nat) (tail : List Document) :
    Delimited (items level tail ++ (newline outer ++ rest)) := by
  cases tail with
  | nil => exact delimited_newline outer
  | cons item tail =>
    rw [items]
    exact delimited_comma

theorem delimited_fields (level outer : Nat) (tail : List (String × Document)) :
    Delimited (fields level tail ++ (newline outer ++ rest)) := by
  cases tail with
  | nil => exact delimited_newline outer
  | cons entry tail =>
    rw [fields]
    exact delimited_comma

theorem length_le_items (level : Nat) (tail : List Document) :
    tail.length ≤ (items level tail).length := by
  induction tail with
  | nil => exact Nat.zero_le _
  | cons item tail ih =>
    rw [items, List.length_cons, List.length_cons, List.length_append, List.length_append]
    omega

theorem length_le_fields (level : Nat) (tail : List (String × Document)) :
    tail.length ≤ (fields level tail).length := by
  induction tail with
  | nil => exact Nat.zero_le _
  | cons entry tail ih =>
    rw [fields, List.length_cons, List.length_cons, List.length_append, List.length_append]
    omega

/-! ### Documents -/

mutual

/-- The text of a value is read as that value, to its last character. Brackets nest no deeper than
a text is long. -/
theorem readValue_value {depth : Nat} {rest : List Char} (level : Nat) (hrest : Delimited rest) :
    (document : Document) → (value level document).length ≤ depth →
    readValue (depth + 1) (value level document ++ rest) = some (.ofDocument document, rest)
  | .text content, _ => by
    rw [value, Value.ofDocument]
    exact readValue_quoted content
  | .number n, _ => by
    rw [value, Value.ofDocument]
    exact readValue_toDigits n hrest
  | .sequence [], _ => by
    rw [value, Value.ofDocument]
    exact readValue_array (enclosed_closing (by decide))
  | .mapping [], _ => by
    rw [value, Value.ofDocument]
    exact readValue_object (enclosed_closing (by decide))
  | .sequence (item :: tail), hdepth => by
    rw [value] at hdepth ⊢
    simp only [List.length_cons, List.length_append] at hdepth
    obtain ⟨depth, rfl⟩ : ∃ inner, depth = inner + 1 := ⟨depth - 1, by omega⟩
    have hitem : (value (level + 1) item).length ≤ depth := by omega
    have htail : (items (level + 1) tail).length ≤ depth := by omega
    obtain ⟨c, more, hvalue, hblank, hclosing⟩ := exists_value (level + 1) item
    simp only [List.cons_append, List.append_assoc, List.nil_append, Value.ofDocument,
      Value.ofItems]
    refine readValue_array (enclosed_element ?_ ?_ (following_items _ level tail htail ?_))
    · rw [skipBlanks_append (isBlank_of_mem_newline _), hvalue]
      exact ⟨c, _, skipBlanks_cons hblank, hclosing⟩
    · rw [readValue_append (isBlank_of_mem_newline _)]
      exact readValue_value _ (delimited_items _ level tail) item hitem
    · have hlength := length_le_items (level + 1) tail
      rw [List.length_append]
      omega
  | .mapping ((key, field) :: tail), hdepth => by
    rw [value] at hdepth ⊢
    simp only [List.length_cons, List.length_append] at hdepth
    obtain ⟨depth, rfl⟩ : ∃ inner, depth = inner + 1 := ⟨depth - 1, by omega⟩
    have hfield : (value (level + 1) field).length ≤ depth := by omega
    have htail : (fields (level + 1) tail).length ≤ depth := by omega
    simp only [List.cons_append, List.append_assoc, List.nil_append, Value.ofDocument,
      Value.ofEntries]
    refine readValue_object (enclosed_element ?_ (member_field _ key ?_)
      (following_fields _ level tail htail ?_))
    · rw [skipBlanks_append (isBlank_of_mem_newline _)]
      exact ⟨'"', _, skipBlanks_cons (by decide), by decide⟩
    · exact readValue_value _ (delimited_fields _ level tail) field hfield
    · have hlength := length_le_fields (level + 1) tail
      rw [List.length_append]
      omega

theorem following_items {depth fuel : Nat} {rest : List Char} (level outer : Nat) :
    (tail : List Document) → (items level tail).length ≤ depth → tail.length < fuel →
    following ']' (readValue (depth + 1)) fuel
      (items level tail ++ (newline outer ++ ']' :: rest)) = some (Value.ofItems tail, rest)
  | [], _, hfuel => by
    obtain ⟨fuel, rfl⟩ : ∃ more, fuel = more + 1 := ⟨fuel - 1, by omega⟩
    exact following_closing (by decide) outer
  | item :: tail, hdepth, hfuel => by
    rw [items, List.length_cons, List.length_append, List.length_append] at hdepth
    obtain ⟨fuel, rfl⟩ : ∃ more, fuel = more + 1 := ⟨fuel - 1, by omega⟩
    simp only [items, List.cons_append, List.append_assoc, Value.ofItems]
    refine following_comma (by decide) ?_
      (following_items level outer tail (by omega) (Nat.lt_of_succ_lt_succ hfuel))
    rw [readValue_append (isBlank_of_mem_newline _)]
    exact readValue_value level (delimited_items level outer tail) item (by omega)

theorem following_fields {depth fuel : Nat} {rest : List Char} (level outer : Nat) :
    (tail : List (String × Document)) → (fields level tail).length ≤ depth → tail.length < fuel →
    following '\x7d' (member (readValue (depth + 1))) fuel
      (fields level tail ++ (newline outer ++ '\x7d' :: rest)) = some (Value.ofEntries tail, rest)
  | [], _, hfuel => by
    obtain ⟨fuel, rfl⟩ : ∃ more, fuel = more + 1 := ⟨fuel - 1, by omega⟩
    exact following_closing (by decide) outer
  | (key, field) :: tail, hdepth, hfuel => by
    simp only [fields, List.length_cons, List.length_append] at hdepth
    obtain ⟨fuel, rfl⟩ : ∃ more, fuel = more + 1 := ⟨fuel - 1, by omega⟩
    simp only [fields, List.cons_append, List.append_assoc, List.nil_append, Value.ofEntries]
    refine following_comma (by decide) (member_field level key ?_)
      (following_fields level outer tail (by omega) (Nat.lt_of_succ_lt_succ hfuel))
    exact readValue_value level (delimited_fields level outer tail) field (by omega)

end

mutual

theorem eq_of_ofDocument_eq : (document document' : Document) →
    Value.ofDocument document = Value.ofDocument document' → document = document'
  | .text _, .text _, h => by simpa [Value.ofDocument] using h
  | .number _, .number _, h => by simpa [Value.ofDocument] using h
  | .sequence items, .sequence items', h => by
    rw [Value.ofDocument, Value.ofDocument, Value.array.injEq] at h
    rw [eq_of_ofItems_eq items items' h]
  | .mapping entries, .mapping entries', h => by
    rw [Value.ofDocument, Value.ofDocument, Value.object.injEq] at h
    rw [eq_of_ofEntries_eq entries entries' h]
  | .text _, .number _, h | .text _, .sequence _, h | .text _, .mapping _, h
  | .number _, .text _, h | .number _, .sequence _, h | .number _, .mapping _, h
  | .sequence _, .text _, h | .sequence _, .number _, h | .sequence _, .mapping _, h
  | .mapping _, .text _, h | .mapping _, .number _, h | .mapping _, .sequence _, h => by
    simp [Value.ofDocument] at h

theorem eq_of_ofItems_eq : (items items' : List Document) →
    Value.ofItems items = Value.ofItems items' → items = items'
  | [], [], _ => rfl
  | item :: items, item' :: items', h => by
    rw [Value.ofItems, Value.ofItems, List.cons.injEq] at h
    rw [eq_of_ofDocument_eq item item' h.1, eq_of_ofItems_eq items items' h.2]
  | [], _ :: _, h | _ :: _, [], h => by simp [Value.ofItems] at h

theorem eq_of_ofEntries_eq : (entries entries' : List (String × Document)) →
    Value.ofEntries entries = Value.ofEntries entries' → entries = entries'
  | [], [], _ => rfl
  | (key, field) :: entries, (key', field') :: entries', h => by
    rw [Value.ofEntries, Value.ofEntries, List.cons.injEq, Prod.mk.injEq] at h
    rw [h.1.1, eq_of_ofDocument_eq field field' h.1.2, eq_of_ofEntries_eq entries entries' h.2]
  | [], _ :: _, h | _ :: _, [], h => by simp [Value.ofEntries] at h

end

theorem parse_render (document : Mapping) :
    parse (render document) = some (.ofDocument (.mapping document)) := by
  have hread := readValue_value 0 delimited_nil (.mapping document) (Nat.le_refl _)
  rw [List.append_nil] at hread
  rw [parse, render, String.toList_ofList, hread]
  rfl

theorem render_injective : Function.Injective render := by
  intro document document' h
  have hvalue := congrArg parse h
  rw [parse_render, parse_render, Option.some.injEq] at hvalue
  exact Document.mapping.inj (eq_of_ofDocument_eq _ _ hvalue)

end Json

/-! ### Keys -/

namespace Document

/-- No mapping in a document has a key twice. -/
inductive DistinctKeys : Document → Prop
  | text (content : String) : DistinctKeys (.text content)
  | number (n : Nat) : DistinctKeys (.number n)
  | sequence {items : List Document} (h : ∀ item ∈ items, DistinctKeys item) :
      DistinctKeys (.sequence items)
  | mapping {entries : Mapping} (hkeys : (Keyed.keys entries).Nodup)
      (h : ∀ entry ∈ entries, DistinctKeys entry.2) : DistinctKeys (.mapping entries)

theorem distinctKeys_observationDocument (observation : List Nat × Nat) :
    DistinctKeys (Component.observationDocument observation) := by
  refine .mapping (by simp [Keyed.keys]) fun entry hentry ↦ ?_
  rcases List.mem_pair.mp hentry with rfl | rfl
  · exact .number _
  · refine .sequence fun item hitem ↦ ?_
    obtain ⟨n, -, rfl⟩ := List.mem_map.mp hitem
    exact .number n

end Document

namespace Component

open Document (DistinctKeys)

variable {node : Component} {action : Action} {document : Document}

theorem Shows.distinctKeys (h : node.Shows action (some document)) : DistinctKeys document := by
  cases h with
  | count _ _ =>
    refine .mapping (List.nodup_singleton _) fun entry hentry ↦ ?_
    rw [List.mem_singleton.mp hentry]
    exact .number _
  | observations _ _ _ =>
    refine .sequence fun item hitem ↦ ?_
    obtain ⟨observation, -, rfl⟩ := List.mem_map.mp hitem
    exact Document.distinctKeys_observationDocument observation

theorem distinctKeys_childEntry {root : Component} (h : Everywhere WellFormed root)
    (kind : ReportKind) : DistinctKeys (Report.childEntry kind root).2 :=
  Report.childEntry_induction .text (fun _ _ _ _ hshows ↦ hshows.distinctKeys)
    (fun _ ↦ .mapping) h kind

end Component

/-! ### Reports -/

/-- A reader of all of JSON reads a report back as the document that was reported, every key in its
place. No mapping in it has a key twice, so that readers with other rules for such keys read the
same, and no other document has this text. -/
theorem report_reads_back {root : Component} (h : Reachable root) (kind : ReportKind) :
    Json.parse (Json.render (Report.ofKind kind root)) =
        some (.ofDocument (.mapping (Report.ofKind kind root))) ∧
      Document.DistinctKeys (.mapping (Report.ofKind kind root)) ∧
      ∀ other : Mapping, Json.render other = Json.render (Report.ofKind kind root) →
        other = Report.ofKind kind root := by
  refine ⟨Json.parse_render _, ?_, fun _ hother ↦ Json.render_injective hother⟩
  rw [Report.ofKind_eq]
  refine .mapping (List.nodup_singleton _) fun entry hentry ↦ ?_
  rw [List.mem_singleton.mp hentry]
  exact Component.distinctKeys_childEntry h.wellFormed kind

/-- The largest count there is, and a name with characters that have escapes of their own, one that
has only its code and one that needs none. -/
theorem report_reads_back_sample :
    let counts := "\x7b\n  \"spad\": \x7b\n    \"tick\": \x7b\n" ++
      "      \"count\": 18446744073709551615\n    \x7d\n  \x7d\n\x7d"
    let name := "\x7b\n  \"a\\\"\\\\\\n\\u0001😀\": \x7b\x7d\n\x7d"
    Json.parse counts = some (.object [("spad", .object [("tick",
        .object [("count", .number 18446744073709551615)])])]) ∧
      Json.parse name = some (.object [("a\"\\\n\x01😀", .object [])]) := by
  intro counts name
  let tree := Sample.leaf [0, 0, 0, 0, 0, 0] [18446744073709551615]
  let container := Component.container "a\"\\\n\x01😀"
  have hrun : Component.focus (Component.record "tick" [] 18446744073709551615) []
      (Sample.leaf [0, 0, 0, 0, 0, 0] [0]) = some (.ok () tree) := rfl
  have htree : Reachable tree := .record Sample.reachable_leaf hrun
  have hcounts : Json.render (Report.ofKind .actionCounts tree) = counts := by decide
  have hname : Json.render (Report.ofKind .architecture container) = name := by decide
  have hreport : Report.ofKind .actionCounts tree = [("spad", .mapping [("tick",
      .mapping [("count", .number 18446744073709551615)])])] := rfl
  rw [← hcounts, ← hname, (report_reads_back htree .actionCounts).1,
    (report_reads_back (.container _) .architecture).1, hreport]
  refine ⟨?_, rfl⟩
  simp [Json.Value.ofDocument, Json.Value.ofEntries]

end CountTree
