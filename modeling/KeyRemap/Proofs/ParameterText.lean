import KeyRemap.Proofs.Classification
import KeyRemap.Proofs.Padding

/-!
# Classifying written parameters

A list of groups, each with a kind and the names of its symbols, can be written down as a parameter
text: kind, double colon and name make a token, bars stand between the tokens of a group and commas
between the groups. Blanks may be put around tokens, and blank tokens and blank groups may be put in
anywhere. Classifying the text gives back the groups, whatever has been put in.

* `Spread`: items in fields, one after the other, with blank fields put in.
* `WrittenGroup.IsParams`: the texts in which groups can be written; `WrittenGroup.print` gives the
  plain one.
* `WrittenGroup.classify_of_isText`: a group is read back.
* `WrittenGroup.classifyParams_of_isParams`: all groups are.
-/

namespace KeyRemap

/-! ## Texts of groups -/

/-- Items written in fields, one after the other, with blank fields put in anywhere. -/
inductive Spread {α : Type} (Writes : α → String → Prop) (IsBlank : String → Prop) :
    List α → List String → Prop
  | nil : Spread Writes IsBlank [] []
  | blank {items : List α} {field : String} {fields : List String} (hBlank : IsBlank field)
      (hRest : Spread Writes IsBlank items fields) : Spread Writes IsBlank items (field :: fields)
  | item {item : α} {items : List α} {field : String} {fields : List String}
      (hItem : Writes item field) (hRest : Spread Writes IsBlank items fields) :
      Spread Writes IsBlank (item :: items) (field :: fields)

theorem Spread.map {α : Type} {Writes : α → String → Prop} {IsBlank : String → Prop}
    {write : α → String} {items : List α} (h : ∀ item ∈ items, Writes item (write item)) :
    Spread Writes IsBlank items (items.map write) := by
  induction items with
  | nil => exact .nil
  | cons item items ih =>
    obtain ⟨hItem, hItems⟩ := List.forall_mem_cons.mp h
    exact .item hItem (ih hItems)

/-- A name that comes through in a parameter text: it is not empty, holds no separator and does not
end with a blank. All else is allowed, double colons and blanks inside included. -/
structure IsSymbolName (name : String) : Prop where
  ne_empty : name ≠ ""
  no_comma : ',' ∉ name.toList
  no_bar : '|' ∉ name.toList
  last : ∀ c ∈ name.toList.getLast?, Text.isBlank c = false

theorem isSymbolName_iff {name : String} :
    IsSymbolName name ↔ name ≠ "" ∧ ',' ∉ name.toList ∧ '|' ∉ name.toList ∧
      name.toList.getLast?.any Text.isBlank = false := by
  have hLast : name.toList.getLast?.any Text.isBlank = false ↔
      ∀ c ∈ name.toList.getLast?, Text.isBlank c = false := by
    cases name.toList.getLast? <;> simp
  rw [hLast]
  exact ⟨fun ⟨h₁, h₂, h₃, h₄⟩ => ⟨h₁, h₂, h₃, h₄⟩, fun ⟨h₁, h₂, h₃, h₄⟩ => ⟨h₁, h₂, h₃, h₄⟩⟩

instance (name : String) : Decidable (IsSymbolName name) :=
  decidable_of_iff _ isSymbolName_iff.symm

/-- A group to be written: a kind and the names of symbols, at least one. -/
structure WrittenGroup where
  kind : OperandKind
  names : List String
  names_ne : names ≠ []
  names_fit : ∀ name ∈ names, IsSymbolName name

namespace WrittenGroup

/-- The tokens of names within a kind in fields, with blanks around them and with blank fields put
in. -/
def AreTokens (kind : OperandKind) : List String → List String → Prop :=
  Spread (fun name => Text.IsPadded (Operand.token ⟨kind, name⟩))
    (fun field => field.toList.all Text.isBlank = true)

/-- The text of a group: its tokens and blank tokens, with bars between. -/
def IsText (group : WrittenGroup) (text : String) : Prop :=
  ∃ fields, AreTokens group.kind group.names fields ∧ text = "|".intercalate fields

/-- The text of a blank group: blank tokens, with bars between. -/
def IsBlankText (text : String) : Prop :=
  ∃ fields : List String, (∀ field ∈ fields, field.toList.all Text.isBlank = true) ∧
    text = "|".intercalate fields

/-- A parameter text of groups: their texts and blank groups, with commas between. -/
def IsParams (groups : List WrittenGroup) (text : String) : Prop :=
  ∃ fields, Spread IsText IsBlankText groups fields ∧ text = ",".intercalate fields

/-- The plain parameter text of groups, with nothing put in. -/
def print (groups : List WrittenGroup) : String :=
  ",".intercalate (groups.map fun group =>
    "|".intercalate (group.names.map fun name => group.kind.name ++ "::" ++ name))

theorem isParams_print (groups : List WrittenGroup) : IsParams groups (print groups) := by
  refine ⟨_, Spread.map ?_, rfl⟩
  intro group _
  exact ⟨_, Spread.map fun name _ => Text.IsPadded.refl _, rfl⟩

/-- The resolver knows all names of a group. -/
def IsKnown (resolver : Resolver) (group : WrittenGroup) : Prop :=
  ∀ name ∈ group.names, ∃ code, resolver.code? group.kind name = some code

/-- What a written group stands for: its kind, the codes of its names in order and the word that
has the bits of these codes. -/
structure Denotes (resolver : Resolver) (written : WrittenGroup) (group : OperandGroup) :
    Prop where
  kind : group.kind = written.kind
  codes : List.Forall₂ (fun name code => resolver.code? written.kind name = some code)
    written.names group.codes
  value : ∀ i, group.value.toNat.testBit i = group.codes.any fun code => code.toNat.testBit i

/-! ## Tokens -/

/-- The characters that are cut at. -/
def IsSeparator (c : Char) : Prop :=
  c = ',' ∨ c = '|'

theorem isBlank_of_isSeparator {c : Char} (h : IsSeparator c) : Text.isBlank c = false := by
  rcases h with rfl | rfl <;> decide

theorem not_mem_token {c : Char} (hc : IsSeparator c) (kind : OperandKind) {name : String}
    (h : IsSymbolName name) : c ∉ (Operand.token ⟨kind, name⟩).toList := by
  have hKind : c ∉ kind.name.toList := by
    rcases hc with rfl | rfl <;> cases kind <;> decide
  have hColons : c ∉ "::".toList := by
    rcases hc with rfl | rfl <;> decide
  have hName : c ∉ name.toList := by
    rcases hc with rfl | rfl
    · exact h.no_comma
    · exact h.no_bar
  simp only [Operand.token, String.toList_append, List.mem_append, not_or]
  exact ⟨⟨hKind, hColons⟩, hName⟩

/-- A token begins with its kind and ends with its name, so trimming takes nothing from it. -/
theorem trim_token (kind : OperandKind) {name : String} (h : IsSymbolName name) :
    Text.trim (Operand.token ⟨kind, name⟩).toList = (Operand.token ⟨kind, name⟩).toList := by
  apply Text.trim_eq_self_of_ends
  · intro c hc
    cases kind <;> simp [Operand.token, OperandKind.name] at hc <;> subst hc <;> decide
  · intro c hc
    have hNil : name.toList ≠ [] := by simpa using h.ne_empty
    rw [Operand.token, String.toList_append, List.getLast?_append_of_ne_nil _ hNil] at hc
    exact h.last c hc

theorem not_blank_token (kind : OperandKind) {name : String} (h : IsSymbolName name) :
    ¬ (Operand.token ⟨kind, name⟩).toList.all Text.isBlank = true := by
  rw [← Text.trim_eq_nil_iff, trim_token kind h]
  simp [Operand.token]

/-! ## Groups -/

section Fields

variable {kind : OperandKind} {names fields : List String}

/-- No field of a group holds a separator. -/
theorem not_mem_field (hFit : ∀ name ∈ names, IsSymbolName name)
    (h : AreTokens kind names fields) {c : Char} (hc : IsSeparator c) :
    ∀ field ∈ fields, c ∉ field.toList := by
  induction h with
  | nil => simp
  | blank hBlank _ ih =>
    refine List.forall_mem_cons.mpr ⟨?_, ih hFit⟩
    intro hMem
    cases (List.all_eq_true.mp hBlank c hMem).symm.trans (isBlank_of_isSeparator hc)
  | item hItem _ ih =>
    obtain ⟨hName, hNames⟩ := List.forall_mem_cons.mp hFit
    refine List.forall_mem_cons.mpr ⟨?_, ih hNames⟩
    intro hMem
    exact not_mem_token hc kind hName (hItem.mem_of_not_isBlank (isBlank_of_isSeparator hc) hMem)

/-- The fields of a group that are not blank are its tokens, but for blanks. -/
theorem map_trim_fields (hFit : ∀ name ∈ names, IsSymbolName name)
    (h : AreTokens kind names fields) :
    (((fields.map String.toList).filter fun field => !field.all Text.isBlank).map
        fun field => String.ofList (Text.trim field)) =
      names.map fun name => Operand.token ⟨kind, name⟩ := by
  induction h with
  | nil => rfl
  | blank hBlank _ ih =>
    rw [List.map_cons, List.filter_cons_of_neg (by simpa using hBlank)]
    exact ih hFit
  | item hItem _ ih =>
    obtain ⟨hName, hNames⟩ := List.forall_mem_cons.mp hFit
    have hKeep := mt hItem.all_isBlank_iff.mp (not_blank_token kind hName)
    rw [List.map_cons, List.filter_cons_of_pos (by simpa using hKeep), List.map_cons, ih hNames,
      hItem.trim_eq, trim_token kind hName, String.ofList_toList, List.map_cons]

theorem toList_bars (fields : List String) :
    ("|".intercalate fields).toList = ['|'].intercalate (fields.map String.toList) :=
  Text.toList_intercalate rfl fields

theorem tokens_of_areTokens (hFit : ∀ name ∈ names, IsSymbolName name)
    (h : AreTokens kind names fields) :
    OperandGroup.tokens ("|".intercalate fields) =
      names.map fun name => Operand.token ⟨kind, name⟩ := by
  have hBars : ∀ field ∈ fields.map String.toList, '|' ∉ field :=
    List.forall_mem_map.mpr (not_mem_field hFit h (.inr rfl))
  rw [OperandGroup.tokens, toList_bars, Text.pieces_intercalate hBars, map_trim_fields hFit h]

theorem no_comma_of_areTokens (hFit : ∀ name ∈ names, IsSymbolName name)
    (h : AreTokens kind names fields) : ',' ∉ ("|".intercalate fields).toList := by
  have hCommas : ∀ field ∈ fields.map String.toList, ',' ∉ field :=
    List.forall_mem_map.mpr (not_mem_field hFit h (.inl rfl))
  rw [toList_bars]
  intro hMem
  rcases Text.mem_of_mem_intercalate hMem with hComma | ⟨field, hField, hMem⟩
  · cases hComma
  · exact hCommas field hField hMem

end Fields

/-- Blank fields hold no tokens, of whatever kind. -/
theorem areTokens_of_blanks {fields : List String}
    (h : ∀ field ∈ fields, field.toList.all Text.isBlank = true) :
    AreTokens .keyCode [] fields := by
  induction fields with
  | nil => exact .nil
  | cons field fields ih =>
    obtain ⟨hField, hFields⟩ := List.forall_mem_cons.mp h
    exact .blank hField (ih hFields)

/-- The group that a written group stands for where the resolver knows its names. -/
def meaning (resolver : Resolver) (group : WrittenGroup) : OperandGroup :=
  .ofCodes group.kind (group.names.map fun name => (resolver.code? group.kind name).getD 0)

theorem code?_eq_some_getD {resolver : Resolver} {group : WrittenGroup}
    (h : group.IsKnown resolver) {name : String} (hName : name ∈ group.names) :
    resolver.code? group.kind name = some ((resolver.code? group.kind name).getD 0) := by
  obtain ⟨code, hCode⟩ := h name hName
  rw [hCode, Option.getD_some]

theorem denotes_meaning {resolver : Resolver} {group : WrittenGroup}
    (h : group.IsKnown resolver) : group.Denotes resolver (group.meaning resolver) where
  kind := rfl
  codes := by
    rw [meaning, OperandGroup.ofCodes, List.forall₂_map_right_iff, List.forall₂_same]
    exact fun name hName => code?_eq_some_getD h hName
  value := OperandGroup.eq_ofCodes_iff.mp rfl

/-- A group is read back from its text. -/
theorem classify_of_isText {resolver : Resolver} {group : WrittenGroup} {text : String}
    (h : group.IsText text) (hKnown : group.IsKnown resolver) :
    OperandGroup.classify resolver text = .ok (some (group.meaning resolver)) := by
  obtain ⟨fields, hSpread, rfl⟩ := h
  have hTokens := tokens_of_areTokens group.names_fit hSpread
  have hNil : OperandGroup.tokens ("|".intercalate fields) ≠ [] := by
    rw [hTokens]
    simpa using group.names_ne
  refine (OperandGroup.classify_eq_ok_iff hNil).mpr ⟨_, rfl, ?_, (denotes_meaning hKnown).value⟩
  rw [hTokens, meaning, OperandGroup.ofCodes, List.forall₂_map_left_iff,
    List.forall₂_map_right_iff, List.forall₂_same]
  intro name hName
  exact ⟨name, (group.names_fit name hName).ne_empty, rfl, code?_eq_some_getD hKnown hName⟩

theorem classify_of_isBlankText (resolver : Resolver) {text : String} (h : IsBlankText text) :
    OperandGroup.classify resolver text = .ok none := by
  obtain ⟨fields, hBlank, rfl⟩ := h
  have hTokens := tokens_of_areTokens (List.forall_mem_nil _) (areTokens_of_blanks hBlank)
  exact OperandGroup.classify_of_nil resolver hTokens

/-! ## Parameters -/

variable {groups : List WrittenGroup} {fields : List String}

theorem no_comma_field (h : Spread IsText IsBlankText groups fields) :
    ∀ field ∈ fields, ',' ∉ field.toList := by
  induction h with
  | nil => simp
  | blank hBlank _ ih =>
    obtain ⟨bars, hBars, rfl⟩ := hBlank
    refine List.forall_mem_cons.mpr ⟨?_, ih⟩
    exact no_comma_of_areTokens (List.forall_mem_nil _) (areTokens_of_blanks hBars)
  | @item group _ _ _ hItem _ ih =>
    obtain ⟨bars, hBars, rfl⟩ := hItem
    exact List.forall_mem_cons.mpr ⟨no_comma_of_areTokens group.names_fit hBars, ih⟩

/-- Groups in fields are read back, and the blank fields are left out. -/
theorem classifyEach_of_spread {resolver : Resolver} (h : Spread IsText IsBlankText groups fields)
    (hKnown : ∀ group ∈ groups, group.IsKnown resolver) :
    OperandGroup.classifyEach resolver fields = .ok (groups.map (meaning resolver)) := by
  induction h with
  | nil => rfl
  | blank hBlank _ ih =>
    simp only [OperandGroup.classifyEach, classify_of_isBlankText resolver hBlank, ih hKnown]
    rfl
  | item hItem _ ih =>
    obtain ⟨hGroup, hGroups⟩ := List.forall_mem_cons.mp hKnown
    simp only [OperandGroup.classifyEach, classify_of_isText hItem hGroup, ih hGroups]
    rfl

/-- **Classifying undoes writing.** Write groups as a parameter text, plainly or with any blanks
around tokens and with blank tokens and blank groups anywhere. If the resolver knows all names, then
each of these texts is accepted, as exactly one group for each written one, in order, with its kind,
with the codes of its names in order and with the union of these codes. -/
theorem classifyParams_of_isParams (resolver : Resolver) {groups : List WrittenGroup}
    (hKnown : ∀ group ∈ groups, group.IsKnown resolver) :
    IsParams groups (print groups) ∧
    ∃ result, List.Forall₂ (Denotes resolver) groups result ∧
      ∀ text, IsParams groups text → OperandGroup.classifyParams resolver text = .ok result := by
  refine ⟨isParams_print groups, groups.map (meaning resolver), ?_, ?_⟩
  · rw [List.forall₂_map_right_iff, List.forall₂_same]
    exact fun group hGroup => denotes_meaning (hKnown group hGroup)
  · rintro text ⟨fields, hSpread, rfl⟩
    have hEach := classifyEach_of_spread hSpread hKnown
    cases fields with
    | nil =>
      -- no fields at all and one empty field are written alike
      cases hSpread
      rfl
    | cons field fields =>
      rw [OperandGroup.classifyParams, Text.fields_intercalate (List.cons_ne_nil _ _)
        (no_comma_field hSpread), hEach]

/-- Two groups with blanks around their tokens, between blank tokens and blank groups. A name holds
a double colon and a space, another begins with one. -/
theorem classifyParams_of_isParams_padded :
    ∃ (resolver : Resolver) (groups : List WrittenGroup) (text : String),
      text = " | KeyCode::A\t|| KeyCode::B::C d ,, | ,Option:: x " ∧
      (groups.map fun group => (group.kind, group.names)) =
        [(.keyCode, ["A", "B::C d"]), (.option, [" x"])] ∧
      IsParams groups text ∧ (∀ group ∈ groups, group.IsKnown resolver) ∧
      ∃ result, List.Forall₂ (Denotes resolver) groups result ∧
        OperandGroup.classifyParams resolver text = .ok result := by
  let resolver : Resolver := {
    code? := fun _ name => some (if name = "A" then 1 else 6)
    flag? := fun _ => none }
  let keys : WrittenGroup := ⟨.keyCode, ["A", "B::C d"], by decide, by decide +kernel⟩
  let options : WrittenGroup := ⟨.option, [" x"], by decide, by decide +kernel⟩
  have hKeys : keys.IsText " | KeyCode::A\t|| KeyCode::B::C d " := by
    refine ⟨[" ", " KeyCode::A\t", "", " KeyCode::B::C d "], ?_, by decide +kernel⟩
    exact .blank (by decide) (.item ⟨" ", "\t", by decide, by decide, by decide +kernel⟩
      (.blank (by decide) (.item ⟨" ", " ", by decide, by decide, by decide +kernel⟩ .nil)))
  have hOptions : options.IsText "Option:: x " := by
    refine ⟨["Option:: x "], ?_, by decide +kernel⟩
    exact .item ⟨"", " ", by decide, by decide, by decide +kernel⟩ .nil
  have hText : IsParams [keys, options] " | KeyCode::A\t|| KeyCode::B::C d ,, | ,Option:: x " := by
    refine ⟨[" | KeyCode::A\t|| KeyCode::B::C d ", "", " | ", "Option:: x "], ?_,
      by decide +kernel⟩
    exact .item hKeys (.blank ⟨[""], by decide, by decide +kernel⟩
      (.blank ⟨[" ", " "], by decide, by decide +kernel⟩ (.item hOptions .nil)))
  have hKnown : ∀ group ∈ [keys, options], group.IsKnown resolver :=
    fun group _ name _ => ⟨_, rfl⟩
  obtain ⟨_, result, hResult, hTexts⟩ := classifyParams_of_isParams resolver hKnown
  exact ⟨resolver, [keys, options], _, rfl, rfl, hText, hKnown, result, hResult,
    hTexts _ hText⟩

end WrittenGroup

end KeyRemap
