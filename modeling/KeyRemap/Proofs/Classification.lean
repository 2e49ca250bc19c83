import KeyRemap.Proofs.Names
import KeyRemap.Proofs.Operands
import Mathlib.Data.List.Forall2

/-!
# Which parameters are accepted

Parameters are cut at commas into groups and groups at bars into tokens. They are accepted exactly
if every token is a kind, a double colon and a symbol that is known within the kind, and the tokens
of a group have one kind. Otherwise they are refused for the first token, from left to right, that
is not so.

* `Except.mapM_eq_ok_iff`, `Except.mapM_eq_error_iff`: a scan succeeds with all elements or fails
  with the first that does.
* `Operand.parse_case`: a token has no kind, has a kind and no symbol, or is a written operand.
* `OperandGroup.classify_eq_error_iff`: a group is refused for its first token at fault.
* `OperandGroup.classifyParams_spec`: what is accepted, as what, and what is refused, for what.
-/

namespace KeyRemap

/-! ## Scans -/

namespace Except

variable {ε α β : Type}

theorem mapM_cons (f : α → Except ε β) (a : α) (as : List α) :
    (a :: as).mapM f =
      match f a with
      | .error cause => .error cause
      | .ok b => (as.mapM f).map (b :: ·) := by
  rw [List.mapM_cons]
  cases f a with
  | error cause => rfl
  | ok b => cases as.mapM f <;> rfl

/-- A scan succeeds exactly if it succeeds with every element. -/
theorem mapM_eq_ok_iff {f : α → Except ε β} {as : List α} {bs : List β} :
    as.mapM f = .ok bs ↔ List.Forall₂ (fun a b => f a = .ok b) as bs := by
  induction as generalizing bs with
  | nil => cases bs <;> simp [pure, Except.pure]
  | cons a as ih =>
    rw [mapM_cons]
    cases hHead : f a with
    | error cause => cases bs <;> simp [hHead]
    | ok b =>
      cases hTail : as.mapM f with
      | error cause => cases bs <;> simp [Except.map, hHead, ← ih, hTail]
      | ok rest => cases bs <;> simp [Except.map, hHead, ← ih, hTail]

theorem exists_mapM_eq_ok_iff {f : α → Except ε β} {as : List α} :
    (∃ bs, as.mapM f = .ok bs) ↔ ∀ a ∈ as, ∃ b, f a = .ok b := by
  induction as with
  | nil => simp [pure, Except.pure]
  | cons a as ih =>
    rw [mapM_cons, List.forall_mem_cons, ← ih]
    cases f a with
    | error cause => simp
    | ok b => cases as.mapM f <;> simp [Except.map]

/-- A scan fails for the first element with which it fails. -/
theorem mapM_eq_error_iff {f : α → Except ε β} {as : List α} {cause : ε} :
    as.mapM f = .error cause ↔
      ∃ before a after, as = before ++ a :: after ∧
        (∀ earlier ∈ before, ∃ b, f earlier = .ok b) ∧ f a = .error cause := by
  induction as with
  | nil => simp [pure, Except.pure]
  | cons a as ih =>
    rw [mapM_cons]
    cases hHead : f a with
    | error fault =>
      constructor
      · rintro ⟨⟩
        exact ⟨[], a, as, rfl, by simp, hHead⟩
      · rintro ⟨_ | ⟨first, before⟩, other, after, hSplit, hBefore, hFault⟩
        · cases hSplit
          cases hHead.symm.trans hFault
          rfl
        · cases hSplit
          obtain ⟨b, hFirst⟩ := hBefore a List.mem_cons_self
          cases hHead.symm.trans hFirst
    | ok b =>
      have hTail : (as.mapM f).map (b :: ·) = .error cause ↔ as.mapM f = .error cause := by
        cases as.mapM f <;> simp [Except.map]
      rw [hTail, ih]
      constructor
      · rintro ⟨before, other, after, rfl, hBefore, hFault⟩
        exact ⟨a :: before, other, after, rfl,
          List.forall_mem_cons.mpr ⟨⟨b, hHead⟩, hBefore⟩, hFault⟩
      · rintro ⟨_ | ⟨first, before⟩, other, after, hSplit, hBefore, hFault⟩
        · cases hSplit
          cases hHead.symm.trans hFault
        · cases hSplit
          exact ⟨before, other, after, rfl, (List.forall_mem_cons.mp hBefore).2, hFault⟩

end Except

/-! ## Tokens -/

namespace Operand

/-- An operand can be read off its token. -/
theorem token_injective {operand other : Operand} (h : operand.token = other.token) :
    operand = other := by
  have hCut := operand.cutFirst_token
  rw [h, other.cutFirst_token] at hCut
  simp only [Option.some.injEq, Prod.mk.injEq, String.toList_inj] at hCut
  obtain ⟨hName, hSymbol⟩ := hCut
  have hKind : operand.kind = other.kind := by
    have hFound := OperandKind.ofName?_eq_some_iff.mpr hName
    rw [OperandKind.ofName?_eq_some_iff.mpr rfl] at hFound
    exact (Option.some.inj hFound)
  cases operand
  cases other
  simp_all

/-- What a token can be, and what is read from it. -/
inductive ParseCase : String → Except OperandError Operand → Prop
  /-- There is no kind with a double colon in front. -/
  | unknown {token : String} (hToken : ∀ operand : Operand, token ≠ operand.token) :
      ParseCase token (.error (.unknownCategory token))
  /-- There is a kind and nothing behind the double colon. -/
  | bare (kind : OperandKind) :
      ParseCase (Operand.token ⟨kind, ""⟩) (.error (.unresolvedSymbol (Operand.token ⟨kind, ""⟩)))
  | operand {operand : Operand} (hSymbol : operand.symbol ≠ "") :
      ParseCase operand.token (.ok operand)

theorem parse_case (token : String) : ParseCase token (parse token) := by
  unfold parse
  split
  · rename_i hCut
    refine .unknown ?_
    rintro operand rfl
    cases hCut.symm.trans operand.cutFirst_token
  · rename_i category symbol hCut
    split
    · rename_i hKind
      refine .unknown ?_
      rintro operand rfl
      rw [operand.cutFirst_token] at hCut
      cases hCut
      rw [String.ofList_toList, OperandKind.ofName?_eq_some_iff.mpr rfl] at hKind
      cases hKind
    · rename_i kind hKind
      have hToken : token = Operand.token ⟨kind, String.ofList symbol⟩ := by
        rw [← String.toList_inj, Text.eq_append_of_cutFirst hCut]
        simp [Operand.token, OperandKind.ofName?_eq_some_iff.mp hKind]
      split
      · rename_i hEmpty
        rw [List.isEmpty_iff.mp hEmpty] at hToken
        subst hToken
        exact .bare kind
      · rename_i hNonempty
        subst hToken
        refine .operand ?_
        simpa using hNonempty

end Operand

/-! ## The tokens of a group -/

namespace OperandGroup

/-- The tokens of a group's text: what stands between bars, trimmed, unless it is blank. -/
def tokens (text : String) : List String :=
  Text.pieces '|' text.toList

/-- A token stands for a code: it is a kind, a double colon and a symbol that has this code within
the kind. -/
def HasCode (resolver : Resolver) (kind : OperandKind) (token : String) (code : UInt32) : Prop :=
  ∃ symbol, symbol ≠ "" ∧ token = Operand.token ⟨kind, symbol⟩ ∧
    resolver.code? kind symbol = some code

/-- The tokens of a text all stand for codes within one kind. -/
def IsUniform (resolver : Resolver) (text : String) : Prop :=
  ∃ kind, ∀ token ∈ tokens text, ∃ code, HasCode resolver kind token code

/-- A group has the kind of the tokens of a text, their codes in order, and as its value the word
that has the bits of these codes. -/
structure Describes (resolver : Resolver) (text : String) (group : OperandGroup) : Prop where
  codes : List.Forall₂ (HasCode resolver group.kind) (tokens text) group.codes
  value : ∀ i, group.value.toNat.testBit i = group.codes.any fun code => code.toNat.testBit i

/-- Why a token is refused in a group whose first token is given. -/
inductive Fault (resolver : Resolver) (text first token : String) : OperandError → Prop
  | unknown (hToken : ∀ operand : Operand, token ≠ operand.token) :
      Fault resolver text first token (.unknownCategory token)
  | bare {kind : OperandKind} (hToken : token = Operand.token ⟨kind, ""⟩) :
      Fault resolver text first token (.unresolvedSymbol token)
  | mixed {head operand : Operand} (hToken : token = operand.token)
      (hSymbol : operand.symbol ≠ "") (hFirst : first = head.token)
      (hKind : operand.kind ≠ head.kind) :
      Fault resolver text first token
        (.kindMismatch (Text.trimmed text) head.kind operand.kind)
  | unresolved {head operand : Operand} (hToken : token = operand.token)
      (hSymbol : operand.symbol ≠ "") (hFirst : first = head.token)
      (hKind : operand.kind = head.kind)
      (hCode : resolver.code? operand.kind operand.symbol = none) :
      Fault resolver text first token (.unresolvedSymbol token)

/-- The code of one token of a group that has a kind already. -/
def codeOf (resolver : Resolver) (text : String) (expected : OperandKind) (token : String) :
    Except OperandError UInt32 :=
  match Operand.parse token with
  | .error e => .error e
  | .ok operand =>
    if operand.kind ≠ expected then .error (.kindMismatch text expected operand.kind)
    else
      match resolver.code? operand.kind operand.symbol with
      | none => .error (.unresolvedSymbol token)
      | some code => .ok code

theorem codesOf_eq_mapM (resolver : Resolver) (text : String) (expected : OperandKind)
    (tokens : List String) :
    codesOf resolver text expected tokens = tokens.mapM (codeOf resolver text expected) := by
  induction tokens with
  | nil => rfl
  | cons token tokens ih =>
    rw [Except.mapM_cons, ← ih, codesOf, codeOf]
    cases Operand.parse token with
    | error e => rfl
    | ok operand =>
      dsimp only
      split
      · rfl
      · cases resolver.code? operand.kind operand.symbol with
        | none => rfl
        | some code => cases codesOf resolver text expected tokens <;> rfl

theorem codeOf_eq_ok_iff {resolver : Resolver} {text token : String} {kind : OperandKind}
    {code : UInt32} :
    codeOf resolver text kind token = .ok code ↔ HasCode resolver kind token code := by
  unfold codeOf HasCode
  have hCase := Operand.parse_case token
  generalize Operand.parse token = result at hCase ⊢
  cases hCase with
  | unknown hToken => simp [hToken]
  | bare found =>
    simp only [reduceCtorEq, false_iff]
    rintro ⟨symbol, hSymbol, hToken, _⟩
    cases Operand.token_injective hToken
    exact hSymbol rfl
  | @operand operand hSymbol =>
    dsimp only
    constructor
    · intro h
      split at h
      · cases h
      · rename_i hKind
        obtain rfl := not_not.mp hKind
        split at h
        · cases h
        · rename_i hCode
          cases h
          exact ⟨operand.symbol, hSymbol, rfl, hCode⟩
    · rintro ⟨symbol, _, hToken, hCode⟩
      cases Operand.token_injective hToken
      simp [hCode]

theorem parse_of_hasCode {resolver : Resolver} {kind : OperandKind} {token : String}
    {code : UInt32} (h : HasCode resolver kind token code) :
    ∃ operand : Operand, operand.kind = kind ∧ Operand.parse token = .ok operand := by
  obtain ⟨symbol, hSymbol, rfl, _⟩ := h
  exact ⟨⟨kind, symbol⟩, rfl, Operand.parse_token hSymbol⟩

/-- A token that cannot be read is at fault for that, whatever the first token is. -/
theorem fault_iff_of_parse_error {resolver : Resolver} {text first token : String}
    {fault cause : OperandError} (hParse : Operand.parse token = .error fault) :
    Fault resolver text first token cause ↔ cause = fault := by
  have hCase := Operand.parse_case token
  rw [hParse] at hCase
  constructor
  · intro hFault
    cases hFault with
    | unknown hToken =>
      cases hCase with
      | unknown => rfl
      | bare kind => exact absurd rfl (hToken ⟨kind, ""⟩)
    | bare hToken =>
      cases hCase with
      | unknown hOther => exact absurd hToken (hOther _)
      | bare => rfl
    | mixed hToken hSymbol =>
      rw [hToken, Operand.parse_token hSymbol] at hParse
      cases hParse
    | unresolved hToken hSymbol =>
      rw [hToken, Operand.parse_token hSymbol] at hParse
      cases hParse
  · rintro rfl
    cases hCase with
    | unknown hToken => exact .unknown hToken
    | bare kind => exact .bare rfl

/-- The fault of a token is what looking for its code within the kind of the first one ends
with. -/
theorem fault_iff {resolver : Resolver} {text token : String} {head : Operand}
    {cause : OperandError} :
    Fault resolver text head.token token cause ↔
      codeOf resolver (Text.trimmed text) head.kind token = .error cause := by
  unfold codeOf
  cases hParse : Operand.parse token with
  | error fault =>
    rw [fault_iff_of_parse_error hParse]
    simp [eq_comm]
  | ok operand =>
    have hCase := Operand.parse_case token
    rw [hParse] at hCase
    cases hCase with
    | operand hSymbol =>
      dsimp only
      constructor
      · intro hFault
        cases hFault with
        | unknown hToken => exact absurd rfl (hToken operand)
        | bare hToken =>
          cases Operand.token_injective hToken
          exact absurd rfl hSymbol
        | mixed hToken _ hFirst hKind =>
          cases Operand.token_injective hToken
          cases Operand.token_injective hFirst
          simp [hKind]
        | unresolved hToken _ hFirst hKind hCode =>
          cases Operand.token_injective hToken
          cases Operand.token_injective hFirst
          simp [hKind, hKind ▸ hCode]
      · intro h
        split at h
        · rename_i hKind
          cases h
          exact .mixed rfl hSymbol rfl hKind
        · rename_i hKind
          split at h
          · rename_i hCode
            cases h
            exact .unresolved rfl hSymbol rfl (not_not.mp hKind) hCode
          · cases h

theorem isUniform_iff {resolver : Resolver} {text : String} :
    IsUniform resolver text ↔ ∃ kind codes,
      (tokens text).mapM (codeOf resolver (Text.trimmed text) kind) = .ok codes := by
  simp only [Except.exists_mapM_eq_ok_iff, codeOf_eq_ok_iff, IsUniform]

/-! ## The value of a group -/

theorem testBit_foldl_or (codes : List UInt32) (value : UInt32) (i : Nat) :
    (codes.foldl (· ||| ·) value).toNat.testBit i =
      (value.toNat.testBit i || codes.any fun code => code.toNat.testBit i) := by
  induction codes generalizing value with
  | nil => simp
  | cons code codes ih =>
    rw [List.foldl_cons, ih, UInt32.toNat_or, Nat.testBit_or, List.any_cons, Bool.or_assoc]

/-- The value of a group of codes has the bits of the codes, and no other value has. -/
theorem eq_ofCodes_iff {group : OperandGroup} :
    group = ofCodes group.kind group.codes ↔
      ∀ i, group.value.toNat.testBit i = group.codes.any fun code => code.toNat.testBit i := by
  have hBits : ∀ i, (ofCodes group.kind group.codes).value.toNat.testBit i =
      group.codes.any fun code => code.toNat.testBit i := by
    intro i
    rw [ofCodes, testBit_foldl_or]
    simp
  constructor
  · intro h i
    rw [← hBits i, ← h]
  · intro h
    have hValue : group.value = (ofCodes group.kind group.codes).value := by
      apply UInt32.toNat_inj.mp
      apply Nat.eq_of_testBit_eq
      intro i
      rw [h i, hBits i]
    obtain ⟨kind, value, codes⟩ := group
    exact congrArg (fun value => OperandGroup.mk kind value codes) hValue

theorem describes_iff {resolver : Resolver} {text : String} {group : OperandGroup} :
    Describes resolver text group ↔
      (tokens text).mapM (codeOf resolver (Text.trimmed text) group.kind) = .ok group.codes ∧
        group = ofCodes group.kind group.codes := by
  rw [Except.mapM_eq_ok_iff, eq_ofCodes_iff]
  simp only [codeOf_eq_ok_iff]
  exact ⟨fun h => ⟨h.codes, h.value⟩, fun h => ⟨h.1, h.2⟩⟩

/-! ## Groups -/

theorem classify_of_nil (resolver : Resolver) {text : String} (h : tokens text = []) :
    classify resolver text = .ok none := by
  rw [classify, ← tokens, h]

/-- A text with tokens is classified within the kind of the first one. -/
theorem classify_of_cons (resolver : Resolver) {text first : String} {rest : List String}
    (h : tokens text = first :: rest) :
    classify resolver text =
      match Operand.parse first with
      | .error cause => .error cause
      | .ok head =>
        ((tokens text).mapM (codeOf resolver (Text.trimmed text) head.kind)).map fun codes =>
          some (ofCodes head.kind codes) := by
  rw [classify, ← tokens, h]
  dsimp only
  cases Operand.parse first with
  | error cause => rfl
  | ok head =>
    simp only [codesOf_eq_mapM]
    cases (first :: rest).mapM (codeOf resolver (Text.trimmed text) head.kind) <;> rfl

/-- A text with tokens is accepted as the group that describes them, if there is one. -/
theorem classify_eq_ok_iff {resolver : Resolver} {text : String} (hTokens : tokens text ≠ [])
    {result : Option OperandGroup} :
    classify resolver text = .ok result ↔
      ∃ group, result = some group ∧ Describes resolver text group := by
  obtain ⟨first, rest, hCons⟩ := List.exists_cons_of_ne_nil hTokens
  rw [classify_of_cons resolver hCons]
  constructor
  · intro h
    split at h
    · cases h
    · rename_i head hParse
      cases hCodes : (tokens text).mapM (codeOf resolver (Text.trimmed text) head.kind) with
      | error cause =>
        rw [hCodes] at h
        cases h
      | ok codes =>
        rw [hCodes] at h
        cases h
        exact ⟨ofCodes head.kind codes, rfl, describes_iff.mpr ⟨hCodes, rfl⟩⟩
  · rintro ⟨group, rfl, hDescribes⟩
    have hFirst := hDescribes.codes
    rw [hCons] at hFirst
    obtain ⟨code, codes, hCode, _⟩ := List.forall₂_cons_left_iff.mp hFirst
    obtain ⟨head, hKind, hParse⟩ := parse_of_hasCode hCode
    obtain ⟨hCodes, hGroup⟩ := describes_iff.mp hDescribes
    rw [hParse]
    dsimp only
    rw [hKind, hCodes, hGroup]
    rfl

theorem exists_classify_eq_ok_iff {resolver : Resolver} {text : String} :
    (∃ result, classify resolver text = .ok result) ↔ IsUniform resolver text := by
  by_cases hTokens : tokens text = []
  · have hUniform : IsUniform resolver text := ⟨.keyCode, by simp [hTokens]⟩
    exact iff_of_true ⟨none, classify_of_nil resolver hTokens⟩ hUniform
  · simp only [classify_eq_ok_iff hTokens, isUniform_iff]
    constructor
    · rintro ⟨_, group, rfl, hDescribes⟩
      exact ⟨group.kind, group.codes, (describes_iff.mp hDescribes).1⟩
    · rintro ⟨kind, codes, hCodes⟩
      exact ⟨_, ofCodes kind codes, rfl, describes_iff.mpr ⟨hCodes, rfl⟩⟩

/-- A text is refused for the first of its tokens that is at fault. -/
theorem classify_eq_error_iff {resolver : Resolver} {text : String} {cause : OperandError} :
    classify resolver text = .error cause ↔
      ∃ before token after, tokens text = before ++ token :: after ∧
        (∃ kind, ∀ earlier ∈ before, ∃ code, HasCode resolver kind earlier code) ∧
        Fault resolver text (before.head?.getD token) token cause := by
  cases hTokens : tokens text with
  | nil => simp [classify_of_nil resolver hTokens]
  | cons first rest =>
    rw [classify_of_cons resolver hTokens]
    cases hParse : Operand.parse first with
    | error fault =>
      -- the first token cannot be read, so no token before the one at fault can be right
      constructor
      · rintro ⟨⟩
        exact ⟨[], first, rest, rfl, ⟨.keyCode, by simp⟩,
          (fault_iff_of_parse_error hParse).mpr rfl⟩
      · rintro ⟨_ | ⟨earlier, before⟩, token, after, hSplit, ⟨kind, hBefore⟩, hFault⟩
        · cases hSplit
          rw [(fault_iff_of_parse_error hParse).mp hFault]
        · cases hSplit
          obtain ⟨code, hCode⟩ := hBefore first List.mem_cons_self
          obtain ⟨_, _, hOk⟩ := parse_of_hasCode hCode
          cases hParse.symm.trans hOk
    | ok head =>
      have hFirst : first = head.token := by
        have hCase := Operand.parse_case first
        rw [hParse] at hCase
        cases hCase
        rfl
      have hError : ((tokens text).mapM (codeOf resolver (Text.trimmed text) head.kind)).map
          (fun codes => some (ofCodes head.kind codes)) = .error cause ↔
          (first :: rest).mapM (codeOf resolver (Text.trimmed text) head.kind) =
            .error cause := by
        rw [hTokens]
        cases (first :: rest).mapM (codeOf resolver (Text.trimmed text) head.kind) <;>
          simp [Except.map]
      dsimp only
      rw [hError, Except.mapM_eq_error_iff]
      simp only [codeOf_eq_ok_iff, ← fault_iff]
      -- the tokens before the one at fault begin with the first, so their kind is its kind
      constructor
      · rintro ⟨before, token, after, hSplit, hBefore, hFault⟩
        refine ⟨before, token, after, hSplit, ⟨head.kind, hBefore⟩, ?_⟩
        cases before <;> cases hSplit <;> exact hFirst ▸ hFault
      · rintro ⟨_ | ⟨earlier, before⟩, token, after, hSplit, ⟨kind, hBefore⟩, hFault⟩
        · cases hSplit
          exact ⟨[], first, rest, rfl, by simp, hFirst ▸ hFault⟩
        · cases hSplit
          obtain ⟨code, symbol, _, hToken, _⟩ := hBefore first List.mem_cons_self
          have hHead := Operand.token_injective (hFirst.symm.trans hToken)
          refine ⟨first :: before, token, after, rfl, ?_, hFirst ▸ hFault⟩
          rwa [hHead]

/-! ## Parameters -/

theorem classifyEach_eq_mapM (resolver : Resolver) (texts : List String) :
    classifyEach resolver texts =
      (texts.mapM (classify resolver)).map fun results => results.flatMap Option.toList := by
  induction texts with
  | nil => rfl
  | cons text texts ih =>
    rw [Except.mapM_cons, classifyEach, ih]
    cases classify resolver text with
    | error cause => rfl
    | ok result => cases texts.mapM (classify resolver) <;> rfl

/-- The accepted groups are those that describe the texts with tokens, one after the other. -/
theorem classifyEach_eq_ok_iff {resolver : Resolver} {texts : List String}
    {groups : List OperandGroup} :
    classifyEach resolver texts = .ok groups ↔
      List.Forall₂ (Describes resolver)
        (texts.filter fun text => !(tokens text).isEmpty) groups := by
  induction texts generalizing groups with
  | nil => cases groups <;> simp [classifyEach]
  | cons text texts ih =>
    by_cases hTokens : tokens text = []
    · have hSkip : classifyEach resolver (text :: texts) = classifyEach resolver texts := by
        rw [classifyEach, classify_of_nil resolver hTokens]
        cases classifyEach resolver texts <;> rfl
      rw [hSkip, ih, List.filter_cons_of_neg (by simp [hTokens])]
    · rw [List.filter_cons_of_pos (by simp [hTokens]), List.forall₂_cons_left_iff]
      simp only [← ih, classifyEach]
      constructor
      · intro h
        split at h
        · cases h
        · rename_i result hText
          obtain ⟨group, rfl, hDescribes⟩ := (classify_eq_ok_iff hTokens).mp hText
          split at h
          · cases h
          · rename_i rest hRest
            cases h
            exact ⟨group, rest, hDescribes, hRest, rfl⟩
      · rintro ⟨group, rest, hDescribes, hRest, rfl⟩
        rw [(classify_eq_ok_iff hTokens).mpr ⟨group, rfl, hDescribes⟩, hRest]
        rfl

/-- **Which parameters are accepted.** Parameters are accepted exactly if in each text between
commas the tokens stand for codes within one kind. They are accepted as one group for each text
that has tokens, in order, with that kind, with the codes of the tokens in order and with the union
of these codes. Otherwise they are refused for the first token at fault: all texts before its own
are right, and so are the tokens before it in its own text. -/
theorem classifyParams_spec (resolver : Resolver) (params : String) :
    ((∃ groups, classifyParams resolver params = .ok groups) ↔
      ∀ text ∈ Text.fields ',' params, IsUniform resolver text) ∧
    (∀ groups, classifyParams resolver params = .ok groups ↔
      List.Forall₂ (Describes resolver)
        ((Text.fields ',' params).filter fun text => !(tokens text).isEmpty) groups) ∧
    ∀ cause, classifyParams resolver params = .error cause ↔
      ∃ earlier text later before token after,
        Text.fields ',' params = earlier ++ text :: later ∧
        (∀ other ∈ earlier, IsUniform resolver other) ∧
        tokens text = before ++ token :: after ∧
        (∃ kind, ∀ other ∈ before, ∃ code, HasCode resolver kind other code) ∧
        Fault resolver text (before.head?.getD token) token cause := by
  unfold classifyParams
  refine ⟨?_, fun groups => classifyEach_eq_ok_iff, ?_⟩
  · simp only [← exists_classify_eq_ok_iff, ← Except.exists_mapM_eq_ok_iff, classifyEach_eq_mapM]
    cases (Text.fields ',' params).mapM (classify resolver) <;> simp [Except.map]
  · intro cause
    have hError : classifyEach resolver (Text.fields ',' params) = .error cause ↔
        (Text.fields ',' params).mapM (classify resolver) = .error cause := by
      rw [classifyEach_eq_mapM]
      cases (Text.fields ',' params).mapM (classify resolver) <;> simp [Except.map]
    rw [hError, Except.mapM_eq_error_iff]
    simp only [exists_classify_eq_ok_iff, classify_eq_error_iff]
    constructor
    · rintro ⟨earlier, text, later, hFields, hEarlier, before, token, after, hFault⟩
      exact ⟨earlier, text, later, before, token, after, hFields, hEarlier, hFault⟩
    · rintro ⟨earlier, text, later, before, token, after, hFields, hEarlier, hFault⟩
      exact ⟨earlier, text, later, hFields, hEarlier, before, token, after, hFault⟩

end OperandGroup

end KeyRemap
