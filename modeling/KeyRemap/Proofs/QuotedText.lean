import KeyRemap.Toml.Text

/-!
# Reading quoted strings back

Whatever form a string is written in, the reader of strings gives it back and stops right behind the
closing delimiter, provided that no further quote stands there.

* `escape_case`: a character is written as itself or as an escape that is read as the character.
* `reads_flatMap_escape`, `literalRest?_append`, `reads_escapeLines`, `reads_literalLines`: the
  inside of each of the four forms.
* `Quoting.suits_of`: the form that is chosen suits the string.
* `string?_quoted`: a quoted string is read back.
-/

namespace KeyRemap.Toml

/-! ## Escapes -/

/-- The code of a control character in hexadecimal digits is read as the character. -/
theorem codeChar?_hexDigit {c : Char} (h : isControl c = true) :
    codeChar? ['0', '0', hexDigit (c.toNat / 16), hexDigit (c.toNat % 16)] = some c := by
  have hSmall : ∀ n < 128,
      codeChar? ['0', '0', hexDigit (n / 16), hexDigit (n % 16)] = some (Char.ofNat n) := by
    decide
  have hBound : c.toNat < 128 := by
    simp only [isControl, Bool.or_eq_true, decide_eq_true_eq, beq_iff_eq] at h
    omega
  rw [hSmall c.toNat hBound, Char.ofNat_toNat]

/-- A character between double quotes stands for itself, or is an escape from which it is read
back. What follows the backslash of an escape is no newline, nor are there spaces before one. -/
inductive EscapeCase (c : Char) : List Char → Prop
  | plain (hQuote : c ≠ '"') (hBackslash : c ≠ '\\') (hControl : isControl c = false) :
      EscapeCase c [c]
  | sequence {body : List Char}
      (hRead : ∀ rest, escapeSequence? (body ++ rest) = some (c, rest))
      (hLine : ∀ rest, newline? (skipSpaces (body ++ rest)) = none) :
      EscapeCase c ('\\' :: body)

theorem escape_case (c : Char) : EscapeCase c (escape c) := by
  unfold escape
  split
  · exact @EscapeCase.sequence _ ['t'] (fun _ => rfl) (fun _ => rfl)
  · exact @EscapeCase.sequence _ ['n'] (fun _ => rfl) (fun _ => rfl)
  · exact @EscapeCase.sequence _ ['r'] (fun _ => rfl) (fun _ => rfl)
  · exact @EscapeCase.sequence _ ['b'] (fun _ => rfl) (fun _ => rfl)
  · exact @EscapeCase.sequence _ ['f'] (fun _ => rfl) (fun _ => rfl)
  · exact @EscapeCase.sequence _ ['\\'] (fun _ => rfl) (fun _ => rfl)
  · exact @EscapeCase.sequence _ ['"'] (fun _ => rfl) (fun _ => rfl)
  · rename_i hBackslash hQuote
    split
    · rename_i hControl
      refine .sequence ?_ (fun _ => rfl)
      intro rest
      simp [escapeSequence?, codeChar?_hexDigit hControl]
    · rename_i hControl
      exact .plain hQuote hBackslash (by simpa using hControl)

theorem escape_ne_nil (c : Char) : escape c ≠ [] := by
  have hCase := escape_case c
  generalize escape c = written at hCase ⊢
  cases hCase <;> simp

/-- A written character does not begin with a quote. -/
theorem head?_escape_append (c : Char) (rest : List Char) :
    (escape c ++ rest).head? ≠ some '"' := by
  have hCase := escape_case c
  generalize escape c = written at hCase ⊢
  cases hCase with
  | plain hQuote => simpa using hQuote
  | sequence => simp

theorem isCommentChar_of_not_isControl {c : Char} (h : isControl c = false) :
    isCommentChar c = true := by
  simp [isCommentChar, h]

theorem newline?_cons_of_isCommentChar {c : Char} (h : isCommentChar c = true)
    (rest : List Char) : newline? (c :: rest) = none := by
  unfold newline?
  split
  · rename_i heq
    cases heq
    exact absurd h (by decide)
  · rename_i heq
    cases heq
    exact absurd h (by decide)
  · rfl

/-! ## Strings on one line -/

/-- With more steps than a number the reader gives a text and what follows it. -/
def Reads (read? : Nat → List Char → Option (List Char × List Char)) (count : Nat)
    (cs text rest : List Char) : Prop :=
  ∀ steps, count < steps → read? steps cs = some (text, rest)

theorem Reads.mono {read? : Nat → List Char → Option (List Char × List Char)} {count bound : Nat}
    {cs text rest : List Char} (h : Reads read? count cs text rest) (hLe : count ≤ bound) :
    Reads read? bound cs text rest :=
  fun steps hSteps => h steps (Nat.lt_of_le_of_lt hLe hSteps)

/-- One step that reads one character of the text. -/
theorem Reads.cons {read? : Nat → List Char → Option (List Char × List Char)} {count : Nat}
    {cs text rest : List Char} (h : Reads read? count cs text rest) {c : Char}
    {written : List Char}
    (hStep : ∀ steps, read? (steps + 1) written =
      (read? steps cs).map fun (text, rest) => (c :: text, rest)) :
    Reads read? (count + 1) written (c :: text) rest := by
  intro steps hSteps
  obtain ⟨steps, rfl⟩ : ∃ fewer, steps = fewer + 1 := ⟨steps - 1, by omega⟩
  rw [hStep, h steps (by omega)]
  rfl

theorem basicRest?_escape (steps : Nat) (c : Char) (rest : List Char) :
    basicRest? (steps + 1) (escape c ++ rest) =
      (basicRest? steps rest).map fun (text, rest) => (c :: text, rest) := by
  have hCase := escape_case c
  generalize escape c = written at hCase ⊢
  cases hCase with
  | plain hQuote hBackslash hControl =>
    simp [basicRest?, isCommentChar_of_not_isControl hControl]
  | sequence hRead _ =>
    rw [List.cons_append, basicRest?, hRead rest]

theorem length_le_flatMap_escape (cs : List Char) : cs.length ≤ (cs.flatMap escape).length := by
  induction cs with
  | nil => simp
  | cons c cs ih =>
    have hPos := List.length_pos_iff.mpr (escape_ne_nil c)
    rw [List.flatMap_cons, List.length_cons, List.length_append]
    omega

theorem reads_flatMap_escape (cs rest : List Char) :
    Reads basicRest? cs.length (cs.flatMap escape ++ '"' :: rest) cs rest := by
  induction cs with
  | nil =>
    intro steps hSteps
    obtain ⟨steps, rfl⟩ : ∃ fewer, steps = fewer + 1 := ⟨steps - 1, by omega⟩
    rfl
  | cons c cs ih =>
    rw [List.flatMap_cons, List.append_assoc]
    exact ih.cons (fun steps => basicRest?_escape steps c _)

theorem literalRest?_append {cs : List Char}
    (h : ∀ c ∈ cs, isCommentChar c = true ∧ c ≠ '\'') (rest : List Char) :
    literalRest? (cs ++ '\'' :: rest) = some (cs, rest) := by
  have hInside : ∀ c ∈ cs, (isCommentChar c && c != '\'') = true := by
    intro c hc
    simpa using h c hc
  simp only [literalRest?]
  rw [List.dropWhile_append_of_pos hInside, List.takeWhile_append_of_pos hInside]
  simp

/-! ## Strings over several lines -/

/-- The reader takes a whole run of quotes in one step. -/
def TakesQuotes (quote : Char) (read? : Nat → List Char → Option (List Char × List Char)) : Prop :=
  ∀ steps rest, read? (steps + 1) (quote :: rest) =
    match quoteRun quote (quote :: rest) with
    | (count, true) => some (List.replicate count quote, rest.drop (count + 2))
    | (count, false) =>
      (read? steps (rest.drop (count - 1))).map fun (text, rest) =>
        (List.replicate count quote ++ text, rest)

theorem takesQuotes_basicLinesRest? : TakesQuotes '"' basicLinesRest? :=
  fun _ _ => rfl

theorem takesQuotes_literalLinesRest? : TakesQuotes '\'' literalLinesRest? :=
  fun _ _ => rfl

theorem quoteRun_replicate (quote : Char) (count : Nat) {rest : List Char}
    (h : rest.head? ≠ some quote) :
    quoteRun quote (List.replicate count quote ++ rest) =
      if count < 3 then (count, false) else (min (count - 3) 2, true) := by
  have hRun : (List.replicate count quote ++ rest).takeWhile (· == quote) =
      List.replicate count quote := by
    rw [List.takeWhile_append_of_pos (by simp)]
    cases rest with
    | nil => simp
    | cons c rest =>
      have hc : c ≠ quote := by simpa using h
      simp [hc]
  simp only [quoteRun]
  rw [hRun, List.length_replicate]

section

variable {quote : Char} {read? : Nat → List Char → Option (List Char × List Char)}

/-- At most two quotes and the three that close the string. -/
theorem TakesQuotes.reads_end (hTakes : TakesQuotes quote read?) {count : Nat} (hCount : count ≤ 2)
    {rest : List Char} (hRest : rest.head? ≠ some quote) :
    Reads read? 0 (List.replicate count quote ++ (List.replicate 3 quote ++ rest))
      (List.replicate count quote) rest := by
  intro steps hSteps
  obtain ⟨steps, rfl⟩ : ∃ fewer, steps = fewer + 1 := ⟨steps - 1, by omega⟩
  have hRun := quoteRun_replicate quote (count + 2 + 1) hRest
  have hQuotes : List.replicate count quote ++ (List.replicate 3 quote ++ rest) =
      quote :: (List.replicate (count + 2) quote ++ rest) := by
    rw [← List.append_assoc, List.replicate_append_replicate, ← List.cons_append,
      ← List.replicate_succ]
  rw [List.replicate_succ, List.cons_append] at hRun
  have hMin : min (count + 2 + 1 - 3) 2 = count := by omega
  have hDrop : (List.replicate (count + 2) quote ++ rest).drop (count + 2) = rest :=
    List.drop_left' (List.length_replicate ..)
  rw [hQuotes, hTakes, hRun, if_neg (by omega), hMin]
  simp only [hDrop]

/-- At most two quotes that do not close the string. -/
theorem TakesQuotes.reads_replicate (hTakes : TakesQuotes quote read?) {count : Nat}
    (hCount : count ≤ 2) {bound : Nat} {cs text rest : List Char} (hHead : cs.head? ≠ some quote)
    (h : Reads read? bound cs text rest) :
    Reads read? (count + bound) (List.replicate count quote ++ cs)
      (List.replicate count quote ++ text) rest := by
  cases count with
  | zero => simpa using h
  | succ count =>
    intro steps hSteps
    obtain ⟨steps, rfl⟩ : ∃ fewer, steps = fewer + 1 := ⟨steps - 1, by omega⟩
    have hRun := quoteRun_replicate quote (count + 1) hHead
    rw [List.replicate_succ, List.cons_append] at hRun ⊢
    have hDrop : (List.replicate count quote ++ cs).drop count = cs :=
      List.drop_left' (List.length_replicate ..)
    rw [hTakes, hRun, if_pos (by omega)]
    simp [hDrop, h steps (by omega), List.replicate_succ]

/-- A character that ends a run of at most two quotes. -/
theorem TakesQuotes.reads_cons (hTakes : TakesQuotes quote read?) {count : Nat}
    (hCount : count ≤ 2) {bound : Nat} {cs text rest : List Char}
    (h : Reads read? (0 + bound) (List.replicate 0 quote ++ cs) (List.replicate 0 quote ++ text)
      rest)
    {c : Char} {written : List Char} (hHead : written.head? ≠ some quote)
    (hStep : ∀ steps, read? (steps + 1) written =
      (read? steps cs).map fun (text, rest) => (c :: text, rest)) :
    Reads read? (count + (bound + 1)) (List.replicate count quote ++ written)
      (List.replicate count quote ++ c :: text) rest := by
  rw [Nat.zero_add, List.replicate_zero, List.nil_append, List.nil_append] at h
  exact hTakes.reads_replicate hCount hHead (h.cons hStep)

end

theorem basicLinesRest?_escape (steps : Nat) (c : Char) (rest : List Char) :
    basicLinesRest? (steps + 1) (escape c ++ rest) =
      (basicLinesRest? steps rest).map fun (text, rest) => (c :: text, rest) := by
  have hCase := escape_case c
  generalize escape c = written at hCase ⊢
  cases hCase with
  | plain hQuote hBackslash hControl =>
    have hInside := isCommentChar_of_not_isControl hControl
    simp [basicLinesRest?, newline?_cons_of_isCommentChar hInside, hInside]
  | sequence hRead hLine =>
    rw [List.cons_append, basicLinesRest?, hLine rest, hRead rest]

theorem length_le_escapeLines (run : Nat) (cs : List Char) :
    cs.length ≤ (escapeLines run cs).length := by
  fun_induction escapeLines run cs with
  | case1 => simp
  | case2 rest ih =>
    simp only [List.length_cons]
    omega
  | case3 run rest _ ih => simpa using ih
  | case4 _ rest ih => simpa using ih
  | case5 _ c rest _ _ ih =>
    have hPos := List.length_pos_iff.mpr (escape_ne_nil c)
    rw [List.length_append, List.length_cons]
    omega

/-- The inside of a string between triple double quotes. Since the reader takes a run of quotes at
once, those of the run that are written already stand before it. -/
theorem reads_escapeLines {count : Nat} (hCount : count ≤ 2) (cs : List Char) {rest : List Char}
    (hRest : rest.head? ≠ some '"') :
    Reads basicLinesRest? (count + cs.length)
      (List.replicate count '"' ++ (escapeLines count cs ++ (List.replicate 3 '"' ++ rest)))
      (List.replicate count '"' ++ cs) rest := by
  fun_induction escapeLines count cs with
  | case1 count =>
    rw [List.nil_append, List.append_nil]
    exact (takesQuotes_basicLinesRest?.reads_end hCount hRest).mono (Nat.zero_le _)
  | case2 cs ih =>
    -- The third quote of a run is escaped, and a new run begins.
    exact takesQuotes_basicLinesRest?.reads_cons hCount (ih (Nat.zero_le 2)) (by simp)
      (fun _ => rfl)
  | case3 count cs hRun ih =>
    have hMore := ih (by omega)
    rw [List.replicate_succ', List.append_assoc, List.append_assoc] at hMore
    refine hMore.mono ?_
    rw [List.length_cons]
    omega
  | case4 count cs ih =>
    exact takesQuotes_basicLinesRest?.reads_cons hCount (ih (Nat.zero_le 2)) (by simp)
      (fun _ => rfl)
  | case5 count c cs hQuote hNewline ih =>
    rw [List.append_assoc]
    exact takesQuotes_basicLinesRest?.reads_cons hCount (ih (Nat.zero_le 2))
      (head?_escape_append c _) (fun steps => basicLinesRest?_escape steps c _)

/-- The inside of a string between triple single quotes, with the quotes of the run that the reader
is in before it. -/
theorem reads_literalLines {count : Nat} {cs : List Char}
    (hRun : longestRunFrom '\'' count cs ≤ 2)
    (hChars : ∀ c ∈ cs, isCommentChar c = true ∨ c = '\n') {rest : List Char}
    (hRest : rest.head? ≠ some '\'') :
    Reads literalLinesRest? (count + cs.length)
      (List.replicate count '\'' ++ (cs ++ (List.replicate 3 '\'' ++ rest)))
      (List.replicate count '\'' ++ cs) rest := by
  induction cs generalizing count with
  | nil =>
    rw [List.nil_append, List.append_nil]
    exact (takesQuotes_literalLinesRest?.reads_end hRun hRest).mono (Nat.zero_le _)
  | cons c cs ih =>
    rw [longestRunFrom] at hRun
    by_cases hQuote : c = '\''
    · subst hQuote
      rw [if_pos rfl] at hRun
      have hMore := ih hRun (fun c hc => hChars c (List.mem_cons_of_mem _ hc))
      rw [List.replicate_succ', List.append_assoc, List.append_assoc] at hMore
      refine hMore.mono ?_
      rw [List.length_cons]
      omega
    · rw [if_neg hQuote] at hRun
      have hMore := @ih 0 (by omega) (fun c hc => hChars c (List.mem_cons_of_mem _ hc))
      refine takesQuotes_literalLinesRest?.reads_cons (by omega) hMore (by simpa using hQuote) ?_
      intro steps
      rcases hChars c List.mem_cons_self with hInside | rfl
      · simp [literalLinesRest?, newline?_cons_of_isCommentChar hInside, hInside]
      · rfl

/-- The reader steps over the newline behind an opening delimiter, which is there exactly if the
text has newlines. -/
theorem dropNewline_leadingNewline {cs body : List Char} (h : '\n' ∉ cs → newline? body = none) :
    dropNewline (leadingNewline cs ++ body) = body := by
  unfold leadingNewline dropNewline
  split
  · rfl
  · rename_i hNone
    rw [List.nil_append, h (by simpa using hNone), Option.getD_none]

theorem newline?_escape_append (c : Char) (rest : List Char) :
    newline? (escape c ++ rest) = none := by
  have hCase := escape_case c
  generalize escape c = written at hCase ⊢
  cases hCase with
  | plain _ _ hControl =>
    exact newline?_cons_of_isCommentChar (isCommentChar_of_not_isControl hControl) rest
  | sequence => rfl

theorem newline?_escapeLines_append {cs : List Char} (h : '\n' ∉ cs) (rest : List Char) :
    newline? (escapeLines 0 cs ++ (List.replicate 3 '"' ++ rest)) = none := by
  fun_cases escapeLines 0 cs with
  | case1 => rfl
  | case2 => rfl
  | case3 => rfl
  | case4 => exact absurd List.mem_cons_self h
  | case5 =>
    rw [List.append_assoc]
    exact newline?_escape_append _ _

/-! ## Any form -/

/-- A text may be written in a form that does not escape only if no character of it needs an escape
and it has no delimiter inside. -/
def Quoting.Suits (cs : List Char) : Quoting → Prop
  | basic | basicLines => True
  | literal => ∀ c ∈ cs, isCommentChar c = true ∧ c ≠ '\''
  | literalLines =>
    (∀ c ∈ cs, isCommentChar c = true ∨ c = '\n') ∧ longestRun '\'' cs ≤ 2

theorem Quoting.suits_of (cs : List Char) : (Quoting.of cs).Suits cs := by
  simp only [Quoting.of]
  split
  · trivial
  split
  · rename_i hLiteral
    intro c hc
    simp only [Bool.and_eq_true, List.all_eq_true, Bool.not_eq_true', List.contains_eq_mem,
      decide_eq_false_iff_not] at hLiteral
    exact ⟨hLiteral.1 c hc, fun hQuote => hLiteral.2 (hQuote ▸ hc)⟩
  split
  · trivial
  split
  · rename_i hLines
    simp only [Bool.and_eq_true, List.all_eq_true, decide_eq_true_eq] at hLines
    refine ⟨?_, hLines.2⟩
    intro c hc
    simpa [isCommentChar] using hLines.1 c hc
  split
  · trivial
  · trivial

/-- A text between two quotes does not begin with three. -/
theorem not_quotes_isPrefix {quote : Char} {body rest : List Char}
    (hBody : body.head? ≠ some quote) (hRest : rest.head? ≠ some quote) :
    ¬ [quote, quote] <+: body ++ quote :: rest := by
  rintro ⟨more, h⟩
  cases body with
  | nil =>
    obtain rfl : quote :: more = rest := by simpa using h
    exact hRest rfl
  | cons c body =>
    obtain rfl : quote = c := (List.cons.inj h).1
    exact hBody rfl

theorem string?_eq_lineString? {quote : Char} {cs : List Char} (h : ¬ [quote, quote] <+: cs) :
    string? (quote :: cs) = lineString? (quote :: cs) := by
  unfold string?
  split
  · rename_i heq
    cases heq
    exact absurd (List.prefix_append ['"', '"'] _) h
  · rename_i heq
    cases heq
    exact absurd (List.prefix_append ['\'', '\''] _) h
  · rfl

theorem string?_write {quoting : Quoting} {cs : List Char} (hSuits : quoting.Suits cs)
    {rest : List Char} (hDouble : rest.head? ≠ some '"') (hSingle : rest.head? ≠ some '\'') :
    string? (quoting.write cs ++ rest) = some (cs, rest) := by
  cases quoting with
  | basic =>
    have hHead : (cs.flatMap escape).head? ≠ some '"' := by
      cases cs with
      | nil => simp
      | cons c cs => exact head?_escape_append c _
    have hLength := length_le_flatMap_escape cs
    rw [Quoting.write, List.cons_append, List.cons_append, List.append_assoc,
      List.singleton_append, string?_eq_lineString? (not_quotes_isPrefix hHead hDouble)]
    refine reads_flatMap_escape cs rest _ ?_
    rw [List.length_append]
    omega
  | literal =>
    have hHead : cs.head? ≠ some '\'' := by
      intro hQuote
      exact (hSuits _ (List.mem_of_head? hQuote)).2 rfl
    rw [Quoting.write, List.cons_append, List.cons_append, List.append_assoc,
      List.singleton_append, string?_eq_lineString? (not_quotes_isPrefix hHead hSingle)]
    exact literalRest?_append hSuits rest
  | basicLines =>
    have hText : Quoting.write cs .basicLines ++ rest = '"' :: '"' :: '"' ::
        (leadingNewline cs ++ (escapeLines 0 cs ++ (List.replicate 3 '"' ++ rest))) := by
      simp [Quoting.write, List.replicate]
    have hReads := reads_escapeLines (Nat.zero_le 2) cs hDouble
    have hLength := length_le_escapeLines 0 cs
    rw [hText, string?, dropNewline_leadingNewline (fun h => newline?_escapeLines_append h rest)]
    refine hReads _ ?_
    rw [List.length_append]
    omega
  | literalLines =>
    have hText : Quoting.write cs .literalLines ++ rest = '\'' :: '\'' :: '\'' ::
        (leadingNewline cs ++ (cs ++ (List.replicate 3 '\'' ++ rest))) := by
      simp [Quoting.write, List.replicate]
    have hReads := reads_literalLines hSuits.2 hSuits.1 hSingle
    have hFirst : '\n' ∉ cs → newline? (cs ++ (List.replicate 3 '\'' ++ rest)) = none := by
      intro hNone
      cases cs with
      | nil => rfl
      | cons c cs =>
        have hInside := (hSuits.1 c List.mem_cons_self).resolve_right
          (fun hNewline => hNone (hNewline ▸ List.mem_cons_self))
        exact newline?_cons_of_isCommentChar hInside _
    rw [hText, string?, dropNewline_leadingNewline hFirst]
    refine hReads _ ?_
    rw [List.length_append]
    omega

/-- A quoted string is read back, up to the text that follows it. -/
theorem string?_quoted (s : String) {rest : List Char} (hDouble : rest.head? ≠ some '"')
    (hSingle : rest.head? ≠ some '\'') :
    string? ((quoted s).toList ++ rest) = some (s.toList, rest) := by
  rw [quoted, String.toList_ofList]
  exact string?_write (Quoting.suits_of s.toList) hDouble hSingle

end KeyRemap.Toml
