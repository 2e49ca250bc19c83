import KeyRemap.Proofs.PseudoKeys
import Mathlib.Data.Finset.Card
import Mathlib.Data.List.Nodup

/-!
# Loading symbol files

A symbol file is refused for one of two reasons: two rules have one flag, or the pseudo keys do not
fit into 32 bits. The first reason is seen first. Otherwise the loaded map gives back what the file
says: the pseudo keys, and apart from them the entries of the sections. None of this depends on the
order in which the entries are visited, except which two rules are named where flags are shared.

* `SymbolFile.LoadCase`, `SymbolMap.ofFile_case`: the three ways in which loading can end.
* `SymbolMap.size_eq_card`: the size of a map is the number of names that have a code.
* `SymbolFile.LoadCase.of_reordered`: the order of the entries does not matter.
* `SymbolMap.load_faithful`: loading, in success and failure and for every order of the entries.
-/

namespace KeyRemap

theorem NamedWords.lookup_eq_some_iff (words : NamedWords) {name : String} {value : UInt32} :
    words.entries.lookup name = some value ↔ (name, value) ∈ words.entries := by
  constructor
  · intro h
    obtain ⟨before, after, hEntries, _⟩ := List.lookup_eq_some_iff.mp h
    rw [hEntries]
    exact List.mem_append_right _ List.mem_cons_self
  · intro h
    obtain ⟨before, after, hEntries⟩ := List.append_of_mem h
    have hNodup := words.nodup
    rw [hEntries, List.map_append, List.nodup_append] at hNodup
    obtain ⟨_, _, hApart⟩ := hNodup
    refine List.lookup_eq_some_iff.mpr ⟨before, after, hEntries, ?_⟩
    intro entry hEntry
    have hNe : entry.1 ≠ name := hApart _ (List.mem_map_of_mem hEntry) _ List.mem_cons_self
    simpa using Ne.symm hNe

/-- The named numbers from the last to the first. -/
def NamedWords.reverse (words : NamedWords) : NamedWords where
  entries := words.entries.reverse
  nodup := by
    rw [List.map_reverse, List.nodup_reverse]
    exact words.nodup

/-! ## What a file says -/

namespace SymbolFile

/-- The positions of different rules are different. -/
def DistinctFlags (file : SymbolFile) : Prop :=
  ∀ first second index, (first, index) ∈ file.flags.entries →
    (second, index) ∈ file.flags.entries → first = second

/-- There is no range of pseudo keys, or it is empty, or its last code has 32 bits. -/
def RangeFits (file : SymbolFile) : Prop :=
  file.pseudoKeys = none ∨ ∃ range, file.pseudoKeys = some range ∧
    (range.count = 0 ∨ range.base.toNat + range.count.toNat - 1 < UInt32.size)

/-- A name that the range of the file defines. -/
def IsPseudoKey (file : SymbolFile) (kind : OperandKind) (name : String) : Prop :=
  ∃ range, file.pseudoKeys = some range ∧
    ∃ i < range.count.toNat, (kind, name) = (.keyCode, pseudoKey i)

/-- All names that a file defines, as often as it defines them. -/
def definedNames (file : SymbolFile) : List (OperandKind × String) :=
  (OperandKind.all.flatMap fun kind =>
      (file.codes kind).entries.map fun entry => (kind, entry.1)) ++
    file.pseudoKeys.toList.flatMap fun range =>
      (List.range range.count.toNat).map fun i => (.keyCode, pseudoKey i)

/-- The same file with the entries of its sections in another order. -/
structure Reordered (file visited : SymbolFile) : Prop where
  codes : ∀ kind, (visited.codes kind).entries.Perm (file.codes kind).entries
  flags : visited.flags.entries.Perm file.flags.entries
  pseudoKeys : visited.pseudoKeys = file.pseudoKeys

theorem distinctFlags_of_nodup {file : SymbolFile}
    (h : (file.flags.entries.map Prod.snd).Nodup) : file.DistinctFlags := by
  intro first second index hFirst hSecond
  exact congrArg Prod.fst (List.inj_on_of_nodup_map h hFirst hSecond rfl)

theorem not_distinctFlags {file : SymbolFile} {first second : String} {index : UInt32}
    (hNe : first ≠ second) (hFirst : (first, index) ∈ file.flags.entries)
    (hSecond : (second, index) ∈ file.flags.entries) : ¬ file.DistinctFlags := by
  intro hFlags
  exact hNe (hFlags first second index hFirst hSecond)

theorem rangeFits_iff (file : SymbolFile) :
    file.RangeFits ↔ ∀ range, file.pseudoKeys = some range → ¬ range.TooLarge := by
  have hSmall : ∀ range : PseudoKeyRange, ¬ range.TooLarge ↔
      range.count = 0 ∨ range.base.toNat + range.count.toNat - 1 < UInt32.size := by
    intro range
    rw [PseudoKeyRange.TooLarge, range.count_eq_zero_iff]
    omega
  unfold RangeFits
  cases file.pseudoKeys with
  | none => simp
  | some range => simp [hSmall]

theorem mem_definedNames_iff (file : SymbolFile) {kind : OperandKind} {name : String} :
    (kind, name) ∈ file.definedNames ↔
      file.IsPseudoKey kind name ∨ ∃ code, (name, code) ∈ (file.codes kind).entries := by
  have hKinds : kind ∈ OperandKind.all := by cases kind <;> decide
  have hPseudo : (∃ range, file.pseudoKeys = some range ∧
      ∃ i < range.count.toNat, OperandKind.keyCode = kind ∧ pseudoKey i = name) ↔
      file.IsPseudoKey kind name := by
    simp only [IsPseudoKey, Prod.mk.injEq, eq_comm (b := kind), eq_comm (b := name)]
  simp only [definedNames, List.mem_append, List.mem_flatMap, List.mem_map, Option.mem_toList,
    List.mem_range, Prod.mk.injEq, hPseudo, or_comm (a := file.IsPseudoKey _ _)]
  apply or_congr_left
  constructor
  · rintro ⟨_, _, ⟨_, code⟩, hEntry, rfl, rfl⟩
    exact ⟨code, hEntry⟩
  · rintro ⟨code, hEntry⟩
    exact ⟨kind, hKinds, (name, code), hEntry, rfl, rfl⟩

/-- A name that is no pseudo key of the range has the code of its section. -/
theorem code?_of_not_isPseudoKey {file : SymbolFile} {kind : OperandKind} {name : String}
    (h : ¬ file.IsPseudoKey kind name) :
    file.code? kind name = (file.codes kind).entries.lookup name := by
  have hNone : (file.pseudoKeys.bind fun range => range.code? kind name) = none := by
    rw [Option.bind_eq_none_iff]
    intro range hRange
    apply PseudoKeyRange.code?_eq_none
    intro i hi hName
    exact h ⟨range, hRange, i, hi, hName⟩
  rw [code?, hNone, Option.none_or]

end SymbolFile

/-! ## The answers of a loaded map -/

namespace SymbolMap

/-- A map that answers as a file says: for the pseudo keys of the range with consecutive codes, for
all other names with the code of the section, and for rules with their positions. It holds as many
codes as there are different names. -/
structure Answers (symbols : SymbolMap) (file : SymbolFile) : Prop where
  pseudoKeys : ∀ range, file.pseudoKeys = some range → ∀ i < range.count.toNat,
    ∃ code, symbols.code? .keyCode (pseudoKey i) = some code ∧
      code.toNat = range.base.toNat + i
  codes : ∀ kind name, ¬ file.IsPseudoKey kind name → ∀ code,
    symbols.code? kind name = some code ↔ (name, code) ∈ (file.codes kind).entries
  flags : ∀ rule index, symbols.flag? rule = some index ↔ (rule, index) ∈ file.flags.entries
  size : symbols.size = file.definedNames.toFinset.card

/-- The size of a map is the number of names that have a code. -/
theorem size_eq_card (symbols : SymbolMap) {names : List (OperandKind × String)}
    (h : ∀ kind name, (kind, name) ∈ names ↔ ∃ code, symbols.code? kind name = some code) :
    symbols.size = names.toFinset.card := by
  have hKeys : symbols.codes.keys.toFinset = names.toFinset := by
    ext ⟨kind, name⟩
    rw [List.mem_toFinset, List.mem_toFinset, Std.HashMap.mem_keys,
      Std.HashMap.mem_iff_isSome_getElem?, Option.isSome_iff_exists, h]
    rfl
  rw [← hKeys, List.toFinset_card_of_nodup Std.HashMap.nodup_keys, Std.HashMap.length_keys, size]

theorem answers_of_ofFile {file : SymbolFile} {symbols : SymbolMap}
    (h : ofFile file = .ok symbols) : symbols.Answers file := by
  obtain ⟨hFits, hCode, hFlag⟩ := ofFile_spec h
  have hPseudo : ∀ range, file.pseudoKeys = some range → ∀ i < range.count.toNat,
      ∃ code, symbols.code? .keyCode (pseudoKey i) = some code ∧
        code.toNat = range.base.toNat + i := by
    intro range hRange i hi
    refine ⟨range.base + UInt32.ofNat i, ?_, PseudoKeyRange.toNat_code (hFits range hRange) hi⟩
    rw [hCode, SymbolFile.code?, hRange, Option.bind_some, range.code?_pseudoKey, if_pos hi,
      Option.some_or]
  have hCodes : ∀ kind name, ¬ file.IsPseudoKey kind name → ∀ code,
      symbols.code? kind name = some code ↔ (name, code) ∈ (file.codes kind).entries := by
    intro kind name hOther code
    rw [hCode, SymbolFile.code?_of_not_isPseudoKey hOther, NamedWords.lookup_eq_some_iff]
  refine ⟨hPseudo, hCodes, ?_, ?_⟩
  · intro rule index
    rw [hFlag, NamedWords.lookup_eq_some_iff]
  · apply size_eq_card
    intro kind name
    rw [SymbolFile.mem_definedNames_iff]
    by_cases hKey : file.IsPseudoKey kind name
    · have hSome : ∃ code, symbols.code? kind name = some code := by
        obtain ⟨range, hRange, i, hi, ⟨⟩⟩ := hKey
        obtain ⟨code, hCode, _⟩ := hPseudo range hRange i hi
        exact ⟨code, hCode⟩
      exact iff_of_true (.inl hKey) hSome
    · simp only [hKey, false_or, hCodes kind name hKey]

/-- Two maps that answer as one file says answer alike. -/
theorem Answers.eq {first second : SymbolMap} {file : SymbolFile} (h₁ : first.Answers file)
    (h₂ : second.Answers file) : first.resolver = second.resolver ∧ first.size = second.size := by
  have hCode : first.code? = second.code? := by
    funext kind name
    by_cases hKey : file.IsPseudoKey kind name
    · obtain ⟨range, hRange, i, hi, ⟨⟩⟩ := hKey
      obtain ⟨code₁, hCode₁, hValue₁⟩ := h₁.pseudoKeys range hRange i hi
      obtain ⟨code₂, hCode₂, hValue₂⟩ := h₂.pseudoKeys range hRange i hi
      rw [hCode₁, hCode₂, UInt32.toNat_inj.mp (hValue₁.trans hValue₂.symm)]
    · apply Option.ext
      intro code
      rw [h₁.codes kind name hKey, h₂.codes kind name hKey]
  have hFlag : first.flag? = second.flag? := by
    funext rule
    apply Option.ext
    intro index
    rw [h₁.flags, h₂.flags]
  exact ⟨by rw [resolver, resolver, hCode, hFlag], h₁.size.trans h₂.size.symm⟩

end SymbolMap

/-! ## How loading ends -/

/-- The three ways in which loading a file can end. -/
inductive SymbolFile.LoadCase (file : SymbolFile) : Except SymbolError SymbolMap → Prop
  /-- Two rules have one flag. -/
  | shared {index : UInt32} {first second : String} (hNe : first ≠ second)
      (hFirst : (first, index) ∈ file.flags.entries)
      (hSecond : (second, index) ∈ file.flags.entries) :
      LoadCase file (.error (.sharedFlag index first second))
  /-- No flag is shared, but the pseudo keys do not fit. -/
  | tooLarge {range : PseudoKeyRange} (hFlags : file.DistinctFlags)
      (hRange : file.pseudoKeys = some range) (hLarge : range.TooLarge) :
      LoadCase file (.error (.rangeTooLarge range))
  | loaded {symbols : SymbolMap} (hFlags : file.DistinctFlags) (hRange : file.RangeFits)
      (hAnswers : symbols.Answers file) : LoadCase file (.ok symbols)

namespace SymbolMap

/-- A position that is refused belongs to a rule that has been seen before and to the one at
hand. -/
theorem exists_of_insertFlags_error {seen rest : List (String × UInt32)} {symbols : SymbolMap}
    {cause : SymbolError} (hNodup : ((seen ++ rest).map Prod.fst).Nodup)
    (h : insertFlags seen rest symbols = .error cause) :
    ∃ index first second, cause = .sharedFlag index first second ∧ first ≠ second ∧
      (first, index) ∈ seen ++ rest ∧ (second, index) ∈ seen ++ rest := by
  induction rest generalizing seen symbols with
  | nil => cases h
  | cons entry rest ih =>
    obtain ⟨rule, index⟩ := entry
    simp only [insertFlags] at h
    split at h
    · rename_i first other hFound
      cases h
      have hFirst : (first, other) ∈ seen := List.mem_of_find?_eq_some hFound
      obtain rfl : other = index := by simpa using List.find?_some hFound
      rw [List.map_append, List.nodup_append] at hNodup
      obtain ⟨_, _, hApart⟩ := hNodup
      refine ⟨other, first, rule, rfl, ?_, List.mem_append_left _ hFirst,
        List.mem_append_right _ List.mem_cons_self⟩
      exact hApart first (List.mem_map_of_mem (f := Prod.fst) hFirst) rule List.mem_cons_self
    · rw [List.append_cons] at hNodup ⊢
      exact ih hNodup h

theorem ofFile_case (file : SymbolFile) : file.LoadCase (ofFile file) := by
  cases hFlags : insertFlags [] file.flags.entries
    (OperandKind.all.foldl (insertSection file) {}) with
  | error cause =>
    have hError : ofFile file = .error cause := by simp only [ofFile, hFlags]
    have hNodup : (([] ++ file.flags.entries).map Prod.fst).Nodup := file.flags.nodup
    obtain ⟨index, first, second, rfl, hNe, hFirst, hSecond⟩ :=
      exists_of_insertFlags_error hNodup hFlags
    rw [hError]
    exact .shared hNe hFirst hSecond
  | ok accepted =>
    have hDistinct : file.DistinctFlags :=
      SymbolFile.distinctFlags_of_nodup (distinct_of_insertFlags hFlags).1
    cases hLoad : ofFile file with
    | ok symbols =>
      obtain ⟨hFits, _⟩ := ofFile_spec hLoad
      refine .loaded hDistinct ?_ (answers_of_ofFile hLoad)
      rw [SymbolFile.rangeFits_iff]
      intro range hRange hLarge
      exact range.not_fits_iff.mpr hLarge (hFits range hRange)
    | error cause =>
      simp only [ofFile, hFlags] at hLoad
      split at hLoad
      · cases hLoad
      · rename_i range hRange
        by_cases hFits : range.fits = true
        · simp only [insertPseudoKeys, if_pos hFits] at hLoad
          cases hLoad
        · simp only [insertPseudoKeys, if_neg hFits] at hLoad
          cases hLoad
          exact .tooLarge hDistinct hRange (range.not_fits_iff.mp hFits)

end SymbolMap

/-! ## The order of the entries -/

namespace SymbolFile

theorem Reordered.refl (file : SymbolFile) : file.Reordered file where
  codes _ := .refl _
  flags := .refl _
  pseudoKeys := rfl

/-- The file with the entries of every section from the last to the first. -/
def backwards (file : SymbolFile) : SymbolFile where
  keyCodes := file.keyCodes.reverse
  modifierFlags := file.modifierFlags.reverse
  consumerKeyCodes := file.consumerKeyCodes.reverse
  pointingButtons := file.pointingButtons.reverse
  options := file.options.reverse
  flags := file.flags.reverse
  pseudoKeys := file.pseudoKeys

theorem reordered_backwards (file : SymbolFile) : file.Reordered file.backwards where
  codes kind := by cases kind <;> exact List.reverse_perm _
  flags := List.reverse_perm _
  pseudoKeys := rfl

theorem Reordered.distinctFlags {file visited : SymbolFile} (h : file.Reordered visited)
    (hFlags : visited.DistinctFlags) : file.DistinctFlags := by
  intro first second index hFirst hSecond
  exact hFlags first second index (h.flags.mem_iff.mpr hFirst) (h.flags.mem_iff.mpr hSecond)

theorem Reordered.answers {file visited : SymbolFile} (h : file.Reordered visited)
    {symbols : SymbolMap} (hAnswers : symbols.Answers visited) : symbols.Answers file := by
  have hKey : ∀ kind name, visited.IsPseudoKey kind name ↔ file.IsPseudoKey kind name := by
    intro kind name
    rw [IsPseudoKey, IsPseudoKey, h.pseudoKeys]
  have hNames : visited.definedNames.toFinset = file.definedNames.toFinset := by
    ext ⟨kind, name⟩
    simp only [List.mem_toFinset, mem_definedNames_iff, hKey, (h.codes kind).mem_iff]
  refine ⟨?_, ?_, ?_, ?_⟩
  · rw [← h.pseudoKeys]
    exact hAnswers.pseudoKeys
  · intro kind name hOther code
    rw [hAnswers.codes kind name (mt (hKey kind name).mp hOther), (h.codes kind).mem_iff]
  · intro rule index
    rw [hAnswers.flags, h.flags.mem_iff]
  · rw [hAnswers.size, hNames]

/-- What loading a file can come to, if its entries are visited in some order. -/
def Loads (file : SymbolFile) (result : Except SymbolError SymbolMap) : Prop :=
  ∃ visited, file.Reordered visited ∧ SymbolMap.ofFile visited = result

/-- How loading ends is described alike for every order of the entries. -/
theorem LoadCase.of_reordered {file visited : SymbolFile} (h : file.Reordered visited)
    {result : Except SymbolError SymbolMap} (hCase : visited.LoadCase result) :
    file.LoadCase result := by
  cases hCase with
  | shared hNe hFirst hSecond =>
    exact .shared hNe (h.flags.mem_iff.mp hFirst) (h.flags.mem_iff.mp hSecond)
  | tooLarge hFlags hRange hLarge =>
    exact .tooLarge (h.distinctFlags hFlags) (h.pseudoKeys ▸ hRange) hLarge
  | loaded hFlags hRange hAnswers =>
    refine .loaded (h.distinctFlags hFlags) ?_ (h.answers hAnswers)
    rw [RangeFits, ← h.pseudoKeys]
    exact hRange

end SymbolFile

namespace SymbolMap

/-- Two attempts to load that end alike: with maps of one size that answer alike, with two shared
flags, or with the same range. -/
def EndAlike : Except SymbolError SymbolMap → Except SymbolError SymbolMap → Prop
  | .ok first, .ok second => first.resolver = second.resolver ∧ first.size = second.size
  | .error (.sharedFlag ..), .error (.sharedFlag ..) => True
  | .error (.rangeTooLarge first), .error (.rangeTooLarge second) => first = second
  | _, _ => False

/-- All that loading leaves open is which rules are named where a flag is shared. -/
theorem endAlike_of_loadCase {file : SymbolFile} {first second : Except SymbolError SymbolMap}
    (h₁ : file.LoadCase first) (h₂ : file.LoadCase second) : EndAlike first second := by
  cases h₁ with
  | shared hNe hRule hOther =>
    cases h₂ with
    | shared => trivial
    | tooLarge hFlags => exact absurd hFlags (SymbolFile.not_distinctFlags hNe hRule hOther)
    | loaded hFlags => exact absurd hFlags (SymbolFile.not_distinctFlags hNe hRule hOther)
  | tooLarge hFlags hRange hLarge =>
    cases h₂ with
    | shared hNe hRule hOther => exact absurd hFlags (SymbolFile.not_distinctFlags hNe hRule hOther)
    | tooLarge _ hRange' => exact Option.some.inj (hRange.symm.trans hRange')
    | loaded _ hFits => exact absurd hLarge (file.rangeFits_iff.mp hFits _ hRange)
  | loaded hFlags hFits hAnswers =>
    cases h₂ with
    | shared hNe hRule hOther => exact absurd hFlags (SymbolFile.not_distinctFlags hNe hRule hOther)
    | tooLarge _ hRange hLarge => exact absurd hLarge (file.rangeFits_iff.mp hFits _ hRange)
    | loaded _ _ hAnswers' => exact hAnswers.eq hAnswers'

/-- **A symbol file is loaded faithfully, whatever the order of its entries.** For a text that is a
symbol file, and in whatever order the entries of its sections are visited: it is accepted exactly
if no two rules have one flag and the pseudo keys fit. A flag that is shared is reported with two
rules that have it, also if the pseudo keys do not fit; that is reported only if no flag is shared.
An accepted file gives a map that answers as the file says. Two orders of the entries end alike,
with equal answers or for the same reason. -/
theorem load_faithful {text : String} {file : SymbolFile}
    (hParse : SymbolFile.parse? text = some file) :
    file.Loads (load text) ∧
    (∀ first second, file.Loads first → file.Loads second → EndAlike first second) ∧
    ∀ result, file.Loads result →
      ((∃ symbols, result = .ok symbols) ↔ file.DistinctFlags ∧ file.RangeFits) ∧
      (¬ file.DistinctFlags → ∃ index first second,
        result = .error (.sharedFlag index first second) ∧ first ≠ second ∧
        (first, index) ∈ file.flags.entries ∧ (second, index) ∈ file.flags.entries) ∧
      (file.DistinctFlags → ¬ file.RangeFits → ∃ range, file.pseudoKeys = some range ∧
        result = .error (.rangeTooLarge range)) ∧
      ∀ symbols, result = .ok symbols → symbols.Answers file := by
  have hLoad : ofFile file = load text := by simp only [load, hParse]
  have hCase : ∀ {result}, file.Loads result → file.LoadCase result := by
    rintro result ⟨visited, hOrder, rfl⟩
    exact .of_reordered hOrder (ofFile_case visited)
  refine ⟨⟨file, .refl file, hLoad⟩, ?_, ?_⟩
  · intro first second hFirst hSecond
    exact endAlike_of_loadCase (hCase hFirst) (hCase hSecond)
  · intro result hResult
    cases hCase hResult with
    | @shared index rule other hNe hRule hOther =>
      have hShared := SymbolFile.not_distinctFlags hNe hRule hOther
      refine ⟨?_, fun _ => ⟨index, rule, other, rfl, hNe, hRule, hOther⟩, ?_, ?_⟩
      · exact iff_of_false (by simp) (fun h => hShared h.1)
      · intro hFlags
        exact absurd hFlags hShared
      · rintro symbols ⟨⟩
    | @tooLarge range hFlags hRange hLarge =>
      have hFits : ¬ file.RangeFits := by
        intro hFits
        exact file.rangeFits_iff.mp hFits range hRange hLarge
      refine ⟨?_, fun hShared => absurd hFlags hShared, fun _ _ => ⟨range, hRange, rfl⟩, ?_⟩
      · exact iff_of_false (by simp) (fun h => hFits h.2)
      · rintro symbols ⟨⟩
    | @loaded symbols hFlags hFits hAnswers =>
      refine ⟨?_, fun hShared => absurd hFlags hShared, fun _ h => absurd hFits h, ?_⟩
      · exact iff_of_true ⟨symbols, rfl⟩ ⟨hFlags, hFits⟩
      · rintro _ ⟨⟩
        exact hAnswers

/-- A file that defines the first pseudo key also as a key code, with a range up to the last code
there is: visited from the back, it is accepted, the pseudo key wins and counts once. -/
theorem load_faithful_backwards :
    ∃ text file symbols,
      text = "[keycode]\nA = 5\nVK_SIMULTANEOUSKEYPRESSES_0 = 1\n" ++
        "[config_index]\nr = 0\ns = 1\n[simultaneous]\nbase = 4294967294\ncount = 2" ∧
      SymbolFile.parse? text = some file ∧ ofFile file.backwards = .ok symbols ∧
      symbols.code? .keyCode "VK_SIMULTANEOUSKEYPRESSES_0" = some 4294967294 ∧
      symbols.code? .keyCode "A" = some 5 ∧ symbols.flag? "s" = some 1 ∧ symbols.size = 3 := by
  obtain ⟨text, hText⟩ : ∃ text : String, text =
      "[keycode]\nA = 5\nVK_SIMULTANEOUSKEYPRESSES_0 = 1\n" ++
        "[config_index]\nr = 0\ns = 1\n[simultaneous]\nbase = 4294967294\ncount = 2" := ⟨_, rfl⟩
  obtain ⟨hFacts, hNames⟩ :
      (SymbolFile.parse? text).map (fun file =>
        (file.keyCodes.entries, file.flags.entries, file.pseudoKeys)) =
          some ([("A", 5), ("VK_SIMULTANEOUSKEYPRESSES_0", 1)], [("r", 0), ("s", 1)],
            some ⟨4294967294, 2⟩) ∧
      (SymbolFile.parse? text).map SymbolFile.definedNames =
        some [(.keyCode, "A"), (.keyCode, "VK_SIMULTANEOUSKEYPRESSES_0"),
          (.keyCode, "VK_SIMULTANEOUSKEYPRESSES_0"),
          (.keyCode, "VK_SIMULTANEOUSKEYPRESSES_1")] := by
    subst hText
    decide +kernel
  obtain ⟨file, hFile, hFacts⟩ := Option.map_eq_some_iff.mp hFacts
  simp only [Prod.mk.injEq] at hFacts
  obtain ⟨hKeyCodes, hFlags, hRange⟩ := hFacts
  have hNames := Option.some.inj ((congrArg (Option.map _) hFile).symm.trans hNames)
  have hDistinct : file.DistinctFlags := by
    apply SymbolFile.distinctFlags_of_nodup
    rw [hFlags]
    decide
  have hFits : file.RangeFits := .inr ⟨_, hRange, .inr (by decide)⟩
  obtain ⟨hAccepted, _, _, hAnswers⟩ :=
    (load_faithful hFile).2.2 (ofFile file.backwards) ⟨_, file.reordered_backwards, rfl⟩
  obtain ⟨symbols, hLoaded⟩ := hAccepted.mpr ⟨hDistinct, hFits⟩
  have hAnswers := hAnswers symbols hLoaded
  refine ⟨text, file, symbols, hText, hFile, hLoaded, ?_, ?_, ?_, ?_⟩
  · obtain ⟨code, hCode, hValue⟩ := hAnswers.pseudoKeys _ hRange 0 (by decide)
    have hName : pseudoKey 0 = "VK_SIMULTANEOUSKEYPRESSES_0" := by decide
    have hLast : code = 4294967294 := UInt32.toNat_inj.mp hValue
    rw [← hName, hCode, hLast]
  · have hOther : ¬ file.IsPseudoKey .keyCode "A" := by
      rintro ⟨range, hSome, i, hi, hEq⟩
      cases hRange.symm.trans hSome
      have hNone : ∀ i < 2, pseudoKey i ≠ "A" := by decide
      exact hNone i hi (congrArg Prod.snd hEq).symm
    rw [hAnswers.codes _ _ hOther]
    show ("A", 5) ∈ file.keyCodes.entries
    rw [hKeyCodes]
    decide
  · rw [hAnswers.flags, hFlags]
    decide
  · rw [hAnswers.size, hNames]
    decide

end SymbolMap

end KeyRemap
