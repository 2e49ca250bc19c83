import KeyRemap.Operand.Group
import KeyRemap.Proofs.Names
import KeyRemap.Proofs.Padding

/-!
# Reading a written operand

A kind, a double colon and a symbol make a token, and a token alone makes a group. Where such a
token is put in front of a parameter text, with a comma and a space, the text keeps its groups and
gets one more in front of them.

* `Text.pieces_cons_blank`, `Text.pieces_eq_singleton`: blanks before a text do not count, and a
  text without blanks and separators is one piece.
* `Operand.parse_token`: a written token is read as its kind and its symbol.
* `OperandGroup.classifyParams_token`: a token in front of parameters is a group of its own.
-/

namespace KeyRemap

/-! ## Pieces of a text -/

namespace Text

/-- A character that neither separates operands nor is trimmed. -/
def IsInert (c : Char) : Prop :=
  c ≠ ',' ∧ c ≠ '|' ∧ isBlank c = false

instance (c : Char) : Decidable (IsInert c) :=
  inferInstanceAs (Decidable (_ ∧ _))

theorem isBlank_of_isDigit {c : Char} (h : c.isDigit = true) : isBlank c = false := by
  have hRange : 48 ≤ c.toNat ∧ c.toNat ≤ 57 := by
    simpa [Char.isDigit, UInt32.le_iff_toNat_le] using h
  simp only [isBlank, Bool.or_eq_false_iff, Bool.and_eq_false_iff, decide_eq_false_iff_not,
    beq_eq_false_iff_ne]
  omega

theorem trim_cons_blank {c : Char} (h : isBlank c = true) (cs : List Char) :
    trim (c :: cs) = trim cs := by
  rw [trim, trim, trimStart, trimStart, List.dropWhile_cons_of_pos h]

/-- A text without blanks is left as it is. -/
theorem trim_eq_self {cs : List Char} (h : ∀ c ∈ cs, isBlank c = false) : trim cs = cs :=
  trim_eq_self_of_ends (fun c hc => h c (List.mem_of_mem_head? hc))
    fun c hc => h c (List.mem_of_mem_getLast? hc)

theorem pieces_cons_blank {sep c : Char} (hSep : c ≠ sep) (hBlank : isBlank c = true)
    (cs : List Char) : pieces sep (c :: cs) = pieces sep cs := by
  have hSplit : (c :: cs).splitOn sep = (cs.splitOn sep).modifyHead (c :: ·) := by
    rw [List.splitOn_cons_eq_if_modifyHead, if_neg (by simpa using hSep)]
  rw [pieces, pieces, hSplit]
  cases hFields : cs.splitOn sep with
  | nil => rfl
  | cons first rest => simp only [List.modifyHead_cons, List.map_cons, trim_cons_blank hBlank]

theorem pieces_eq_singleton {sep : Char} {cs : List Char} (hSep : sep ∉ cs)
    (hBlank : ∀ c ∈ cs, isBlank c = false) (hNil : cs ≠ []) :
    pieces sep cs = [String.ofList cs] := by
  have hEmpty : cs.isEmpty = false := by simpa using hNil
  rw [pieces, List.splitOn_eq_singleton hSep]
  simp [trim_eq_self hBlank, hEmpty]

end Text

/-! ## Tokens -/

/-- The token of a kind and a symbol. -/
def Operand.token (operand : Operand) : String :=
  operand.kind.name ++ "::" ++ operand.symbol

/-- The first double colon of a token is the one behind its kind. -/
theorem Operand.cutFirst_token (operand : Operand) :
    Text.cutFirst "::".toList operand.token.toList =
      some (operand.kind.name.toList, operand.symbol.toList) := by
  obtain ⟨kind, symbol⟩ := operand
  cases kind <;> simp [token, OperandKind.name, Text.cutFirst, Text.cutFirstFrom, Text.after?]

theorem Operand.parse_token {operand : Operand} (h : operand.symbol ≠ "") :
    parse operand.token = .ok operand := by
  have hCut := operand.cutFirst_token
  obtain ⟨kind, symbol⟩ := operand
  have hSymbol : symbol.toList.isEmpty = false := by simpa using h
  rw [parse, hCut]
  simp only [String.ofList_toList, kind.ofName?_name, hSymbol, Bool.false_eq_true, if_false]

namespace OperandGroup

/-- The group of one code. -/
def single (kind : OperandKind) (code : UInt32) : OperandGroup where
  kind
  value := code
  codes := [code]

theorem ofCodes_singleton (kind : OperandKind) (code : UInt32) :
    ofCodes kind [code] = single kind code := by
  simp [ofCodes, single]

/-- A token without separators and blanks is a group of its own. -/
theorem classify_token (resolver : Resolver) {operand : Operand} (hSymbol : operand.symbol ≠ "")
    (hInert : ∀ c ∈ operand.token.toList, Text.IsInert c) :
    classify resolver operand.token =
      match resolver.code? operand.kind operand.symbol with
      | none => .error (.unresolvedSymbol operand.token)
      | some code => .ok (some (single operand.kind code)) := by
  have hNil : operand.token.toList ≠ [] := by simp [Operand.token]
  have hBar : '|' ∉ operand.token.toList := fun h => (hInert _ h).2.1 rfl
  have hBlank : ∀ c ∈ operand.token.toList, Text.isBlank c = false := fun c h => (hInert c h).2.2
  have hPieces : Text.pieces '|' operand.token.toList = [operand.token] := by
    rw [Text.pieces_eq_singleton hBar hBlank hNil, String.ofList_toList]
  rw [classify, hPieces]
  simp only [Operand.parse_token hSymbol, codesOf]
  cases resolver.code? operand.kind operand.symbol with
  | none => simp
  | some code => simp [ofCodes_singleton]

theorem classify_space (resolver : Resolver) (group : String) :
    classify resolver (" " ++ group) = classify resolver group := by
  have hList : (" " ++ group).toList = ' ' :: group.toList := by simp
  have hPieces : Text.pieces '|' (" " ++ group).toList = Text.pieces '|' group.toList := by
    rw [hList, Text.pieces_cons_blank (by decide) (by decide)]
  have hTrimmed : Text.trimmed (" " ++ group) = Text.trimmed group := by
    rw [Text.trimmed, hList, Text.trim_cons_blank (by decide), Text.trimmed]
  rw [classify, hPieces, hTrimmed, classify]

/-- A space in front of a parameter text changes nothing. -/
theorem classifyParams_space (resolver : Resolver) (params : String) :
    classifyParams resolver (" " ++ params) = classifyParams resolver params := by
  have hSplit : (" " ++ params).toList.splitOn ',' =
      (params.toList.splitOn ',').modifyHead (' ' :: ·) := by
    have hList : (" " ++ params).toList = ' ' :: params.toList := by simp
    rw [hList, List.splitOn_cons_eq_if_modifyHead, if_neg (by decide)]
  rw [classifyParams, Text.fields, hSplit, classifyParams, Text.fields]
  cases params.toList.splitOn ',' with
  | nil => rfl
  | cons first rest =>
    have hFirst : String.ofList (' ' :: first) = " " ++ String.ofList first := by
      rw [← String.toList_inj]
      simp
    simp only [List.modifyHead_cons, List.map_cons, hFirst, classifyEach, classify_space]

/-- A token in front of parameters, with a comma and a space, makes a group in front of theirs. -/
theorem classifyParams_token (resolver : Resolver) {operand : Operand}
    (hSymbol : operand.symbol ≠ "") (hInert : ∀ c ∈ operand.token.toList, Text.IsInert c)
    (params : String) :
    classifyParams resolver (operand.token ++ ", " ++ params) =
      match resolver.code? operand.kind operand.symbol with
      | none => .error (.unresolvedSymbol operand.token)
      | some code => (classifyParams resolver params).map (single operand.kind code :: ·) := by
  have hComma : ',' ∉ operand.token.toList := fun h => (hInert _ h).1 rfl
  have hFields : Text.fields ',' (operand.token ++ ", " ++ params) =
      operand.token :: Text.fields ',' (" " ++ params) := by
    have hList : (operand.token ++ ", " ++ params).toList =
        operand.token.toList ++ ',' :: (" " ++ params).toList := by
      simp
    rw [Text.fields, hList, List.splitOn_append_cons_self_of_not_mem hComma, List.map_cons,
      String.ofList_toList, Text.fields]
  rw [← classifyParams_space resolver params, classifyParams, hFields, classifyEach,
    classify_token resolver hSymbol hInert, classifyParams]
  cases resolver.code? operand.kind operand.symbol with
  | none => rfl
  | some code => cases classifyEach resolver (Text.fields ',' (" " ++ params)) <;> rfl

end OperandGroup

end KeyRemap
