import KeyRemap.SymbolFile
import Std.Data.HashMap.Lemmas
import Std.Data.String.ToNat

/-!
# What a loaded symbol file answers

A symbol map is filled entry by entry, section by section, and then with the pseudo keys of a range.
What it answers afterwards can be read off the file: the pseudo keys first, then the section of the
kind. No name of a section is lost, since names are not repeated in it.

* `SymbolMap.code?_insertSection`: what a section adds to the answers.
* `SymbolMap.insertPseudoKeys_spec`: what a range adds to the answers.
* `SymbolMap.resolver_of_ofFile`: the answers of a loaded map are those of its file.
* `SymbolFile.code?_pseudoKey`: a file whose key codes leave the names of pseudo keys free answers
  for these with the consecutive codes of its range.
-/

namespace KeyRemap

theorem pseudoKey_injective {i j : Nat} (h : pseudoKey i = pseudoKey j) : i = j := by
  have hList := congrArg String.toList h
  simp only [pseudoKey, String.toList_append, List.append_cancel_left_eq,
    String.toList_inj] at hList
  exact Nat.repr_injective hList

/-- Where no name occurs twice, the first entry of a name is also the last one, so it does not
matter in which order the entries are seen. -/
theorem lookup_cons_or {entry : String × UInt32} {entries : List (String × UInt32)}
    (hNodup : ((entry :: entries).map Prod.fst).Nodup) (name : String) (fallback : Option UInt32) :
    ((entry :: entries).lookup name).or fallback =
      (entries.lookup name).or (if name = entry.1 then some entry.2 else fallback) := by
  obtain ⟨key, code⟩ := entry
  obtain ⟨hFirst, _⟩ := List.nodup_cons.mp hNodup
  by_cases hName : name = key
  · subst hName
    have hAbsent : entries.lookup name = none := by
      rw [List.lookup_eq_none_iff]
      intro other hOther
      have hNe : name ≠ other.1 := by
        intro hEq
        exact hFirst (List.mem_map.mpr ⟨other, hOther, hEq.symm⟩)
      simpa using hNe
    simp [hAbsent]
  · have hBeq : (name == key) = false := by simpa using hName
    simp [List.lookup_cons, hBeq, hName]

/-! ## Sections and flags -/

namespace SymbolMap

theorem code?_insert (symbols : SymbolMap) (kind kind' : OperandKind) (name name' : String)
    (code : UInt32) :
    (symbols.insert kind name code).code? kind' name' =
      if kind' = kind ∧ name' = name then some code else symbols.code? kind' name' := by
  simp only [code?, insert, Std.HashMap.getElem?_insert, beq_iff_eq, Prod.mk.injEq,
    eq_comm (a := kind'), eq_comm (a := name')]

theorem flag?_insertFlag (symbols : SymbolMap) (rule rule' : String) (index : UInt32) :
    (symbols.insertFlag rule index).flag? rule' =
      if rule' = rule then some index else symbols.flag? rule' := by
  simp only [flag?, insertFlag, Std.HashMap.getElem?_insert, beq_iff_eq, eq_comm (a := rule')]

/-- A section defines its names for its kind and leaves everything else alone. -/
theorem code?_insertSection (file : SymbolFile) (symbols : SymbolMap) (kind kind' : OperandKind)
    (name : String) :
    (insertSection file symbols kind).code? kind' name =
      if kind' = kind then ((file.codes kind).entries.lookup name).or (symbols.code? kind' name)
      else symbols.code? kind' name := by
  unfold insertSection
  have hNodup := (file.codes kind).nodup
  generalize (file.codes kind).entries = entries at hNodup
  induction entries generalizing symbols with
  | nil => simp
  | cons entry entries ih =>
    rw [List.foldl_cons, ih _ (List.nodup_cons.mp hNodup).2, code?_insert]
    by_cases hKind : kind' = kind
    · simp only [hKind, true_and, if_true, lookup_cons_or hNodup]
    · simp only [hKind, false_and, if_false]

theorem flag?_insertSection (file : SymbolFile) (symbols : SymbolMap) (kind : OperandKind)
    (rule : String) : (insertSection file symbols kind).flag? rule = symbols.flag? rule := by
  unfold insertSection
  generalize (file.codes kind).entries = entries
  induction entries generalizing symbols with
  | nil => rfl
  | cons entry entries ih =>
    rw [List.foldl_cons, ih]
    rfl

theorem code?_sections (file : SymbolFile) (kind : OperandKind) (name : String) :
    (OperandKind.all.foldl (insertSection file) {}).code? kind name =
      (file.codes kind).entries.lookup name := by
  have hEmpty : ({} : SymbolMap).code? kind name = none := by simp [code?]
  simp only [OperandKind.all, List.foldl_cons, List.foldl_nil, code?_insertSection, hEmpty]
  cases kind <;> simp

theorem flag?_sections (file : SymbolFile) (rule : String) :
    (OperandKind.all.foldl (insertSection file) {}).flag? rule = none := by
  simp only [OperandKind.all, List.foldl_cons, List.foldl_nil, flag?_insertSection]
  simp [flag?]

/-- Accepted flags are defined, and no code changes. -/
theorem insertFlags_spec {seen rest : List (String × UInt32)} {symbols symbols' : SymbolMap}
    (hNodup : (rest.map Prod.fst).Nodup) (h : insertFlags seen rest symbols = .ok symbols') :
    symbols'.codes = symbols.codes ∧
    ∀ rule, symbols'.flag? rule = (rest.lookup rule).or (symbols.flag? rule) := by
  induction rest generalizing seen symbols with
  | nil =>
    cases h
    simp
  | cons entry rest ih =>
    simp only [insertFlags] at h
    split at h
    · cases h
    · obtain ⟨hCodes, hFlags⟩ := ih (List.nodup_cons.mp hNodup).2 h
      refine ⟨hCodes, ?_⟩
      intro rule
      rw [hFlags rule, flag?_insertFlag, lookup_cons_or hNodup]

/-- No two accepted flags are at one position, nor is one at a position that has been seen. -/
theorem distinct_of_insertFlags {seen rest : List (String × UInt32)}
    {symbols symbols' : SymbolMap} (h : insertFlags seen rest symbols = .ok symbols') :
    (rest.map Prod.snd).Nodup ∧ ∀ entry ∈ rest, ∀ other ∈ seen, other.2 ≠ entry.2 := by
  induction rest generalizing seen symbols with
  | nil => simp
  | cons entry rest ih =>
    simp only [insertFlags] at h
    split at h
    · cases h
    · rename_i hNew
      obtain ⟨hNodup, hApart⟩ := ih h
      have hSeen : ∀ other ∈ seen, other.2 ≠ entry.2 := by
        intro other hOther
        simpa using List.find?_eq_none.mp hNew other hOther
      refine ⟨?_, ?_⟩
      · refine List.nodup_cons.mpr ⟨?_, hNodup⟩
        intro hMem
        obtain ⟨later, hLater, hEq⟩ := List.mem_map.mp hMem
        exact hApart later hLater entry (by simp) hEq.symm
      · refine List.forall_mem_cons.mpr ⟨hSeen, ?_⟩
        intro later hLater other hOther
        exact hApart later hLater other (List.mem_append_left _ hOther)

end SymbolMap

/-! ## Ranges of pseudo keys -/

/-- The code that a range gives to a name. -/
def PseudoKeyRange.code? (range : PseudoKeyRange) (kind : OperandKind) (name : String) :
    Option UInt32 :=
  if kind = .keyCode then
    ((List.range range.count.toNat).find? fun suffix => pseudoKey suffix = name).map fun suffix =>
      range.base + UInt32.ofNat suffix
  else none

namespace PseudoKeyRange

theorem find?_pseudoKey (count k : Nat) :
    ((List.range count).find? fun suffix => pseudoKey suffix = pseudoKey k) =
      if k < count then some k else none := by
  cases hFind : (List.range count).find? fun suffix => pseudoKey suffix = pseudoKey k with
  | some suffix =>
    obtain rfl : suffix = k := pseudoKey_injective (by simpa using List.find?_some hFind)
    have hLt : suffix < count := List.mem_range.mp (List.mem_of_find?_eq_some hFind)
    rw [if_pos hLt]
  | none =>
    have hOther := List.find?_eq_none.mp hFind k
    have hGe : ¬ k < count := fun hLt => hOther (List.mem_range.mpr hLt) (by simp)
    rw [if_neg hGe]

/-- The pseudo keys of a range have consecutive codes. -/
theorem code?_pseudoKey (range : PseudoKeyRange) (k : Nat) :
    range.code? .keyCode (pseudoKey k) =
      if k < range.count.toNat then some (range.base + UInt32.ofNat k) else none := by
  rw [code?, if_pos rfl, find?_pseudoKey]
  split <;> rfl

/-- No code of a range that fits goes beyond 32 bits. -/
theorem toNat_code {range : PseudoKeyRange} (hFits : range.fits = true) {k : Nat}
    (hk : k < range.count.toNat) :
    (range.base + UInt32.ofNat k).toNat = range.base.toNat + k := by
  have hSum : range.base.toNat + range.count.toNat - 1 < UInt32.size := by
    simp only [fits, Bool.or_eq_true, beq_iff_eq, decide_eq_true_eq] at hFits
    rcases hFits with hZero | hFits
    · rw [hZero] at hk
      cases hk
    · exact hFits
  have hSmall : k < UInt32.size := by omega
  have hBound : range.base.toNat + k < UInt32.size := by omega
  rw [UInt32.toNat_add, UInt32.toNat_ofNat_of_lt' hSmall]
  exact Nat.mod_eq_of_lt hBound

end PseudoKeyRange

namespace SymbolMap

theorem code?_foldl_insertPseudoKey (base : UInt32) (symbols : SymbolMap) (suffixes : List Nat)
    (kind : OperandKind) (name : String) :
    (suffixes.foldl (insertPseudoKey base) symbols).code? kind name =
      (if kind = .keyCode then
        (suffixes.find? fun suffix => pseudoKey suffix = name).map fun suffix =>
          base + UInt32.ofNat suffix
      else none).or (symbols.code? kind name) := by
  induction suffixes generalizing symbols with
  | nil => simp
  | cons suffix suffixes ih =>
    rw [List.foldl_cons, ih, insertPseudoKey, code?_insert]
    by_cases hKind : kind = .keyCode
    · by_cases hName : pseudoKey suffix = name
      · -- a later definition of the same name has the same suffix, hence the same code
        cases hLater : suffixes.find? fun suffix => pseudoKey suffix = name with
        | none => simp [hKind, hName]
        | some later =>
          have hSame : pseudoKey later = name := by simpa using List.find?_some hLater
          simp [hKind, hName, pseudoKey_injective (hSame.trans hName.symm)]
      · simp [hKind, hName, Ne.symm hName]
    · simp [hKind]

theorem flags_foldl_insertPseudoKey (base : UInt32) (symbols : SymbolMap) (suffixes : List Nat) :
    (suffixes.foldl (insertPseudoKey base) symbols).flags = symbols.flags := by
  induction suffixes generalizing symbols with
  | nil => rfl
  | cons suffix suffixes ih =>
    rw [List.foldl_cons, ih]
    rfl

/-- A range that fits defines its pseudo keys and leaves everything else alone. -/
theorem insertPseudoKeys_spec {symbols symbols' : SymbolMap} {range : PseudoKeyRange}
    (h : symbols.insertPseudoKeys range = .ok symbols') :
    range.fits = true ∧ symbols'.flags = symbols.flags ∧
    ∀ kind name, symbols'.code? kind name =
      (range.code? kind name).or (symbols.code? kind name) := by
  unfold insertPseudoKeys at h
  split at h
  · rename_i hFits
    cases h
    refine ⟨hFits, flags_foldl_insertPseudoKey .., ?_⟩
    intro kind name
    rw [code?_foldl_insertPseudoKey]
    rfl
  · cases h

end SymbolMap

/-! ## Loaded files -/

namespace SymbolFile

/-- The code that a file gives to a name within a kind. -/
def code? (file : SymbolFile) (kind : OperandKind) (name : String) : Option UInt32 :=
  (file.pseudoKeys.bind fun range => range.code? kind name).or
    ((file.codes kind).entries.lookup name)

/-- The look-ups that a file describes. -/
def resolver (file : SymbolFile) : Resolver where
  code? := file.code?
  flag? rule := file.flags.entries.lookup rule

/-- Where no key code has a name like that of a pseudo key, the pseudo keys are those of the
range. -/
theorem code?_pseudoKey {file : SymbolFile} {range : PseudoKeyRange}
    (hRange : file.pseudoKeys = some range)
    (hFree : ∀ entry ∈ file.keyCodes.entries, ¬ pseudoKeyStem.toList <+: entry.1.toList)
    (k : Nat) :
    file.code? .keyCode (pseudoKey k) =
      if k < range.count.toNat then some (range.base + UInt32.ofNat k) else none := by
  have hAbsent : file.keyCodes.entries.lookup (pseudoKey k) = none := by
    rw [List.lookup_eq_none_iff]
    intro entry hEntry
    have hNe : pseudoKey k ≠ entry.1 := by
      intro hEq
      apply hFree entry hEntry
      rw [← hEq, pseudoKey, String.toList_append]
      exact List.prefix_append _ _
    simpa using hNe
  rw [code?, hRange, Option.bind_some, range.code?_pseudoKey]
  simp only [codes, hAbsent, Option.or_none]

end SymbolFile

namespace SymbolMap

/-- A loaded map has the flags and the sections of its file, and the pseudo keys of a range that
fits. -/
theorem ofFile_spec {file : SymbolFile} {symbols : SymbolMap} (h : ofFile file = .ok symbols) :
    (∀ range, file.pseudoKeys = some range → range.fits = true) ∧
    (∀ kind name, symbols.code? kind name = file.code? kind name) ∧
    ∀ rule, symbols.flag? rule = file.flags.entries.lookup rule := by
  unfold ofFile at h
  split at h
  · cases h
  · rename_i accepted hAccepted
    obtain ⟨hCodes, hFlag⟩ := insertFlags_spec file.flags.nodup hAccepted
    simp only [flag?_sections, Option.or_none] at hFlag
    have hCode : ∀ kind name, accepted.code? kind name = (file.codes kind).entries.lookup name := by
      intro kind name
      rw [← code?_sections, code?, hCodes, code?]
    cases hRange : file.pseudoKeys with
    | none =>
      rw [hRange] at h
      cases h
      refine ⟨?_, ?_, hFlag⟩
      · rintro range ⟨⟩
      · intro kind name
        rw [hCode, SymbolFile.code?, hRange, Option.bind_none, Option.none_or]
    | some range =>
      simp only [hRange] at h
      split at h
      · cases h
      · rename_i loaded hLoaded
        cases h
        obtain ⟨hFits, hKept, hAnswers⟩ := insertPseudoKeys_spec hLoaded
        refine ⟨?_, ?_, ?_⟩
        · rintro range ⟨⟩
          exact hFits
        · intro kind name
          rw [hAnswers, hCode, SymbolFile.code?, hRange, Option.bind_some]
        · intro rule
          rw [← hFlag rule, flag?, hKept, flag?]

/-- Loading a file loses nothing and adds nothing: the answers of the map are those of the file. -/
theorem resolver_of_ofFile {file : SymbolFile} {symbols : SymbolMap}
    (h : ofFile file = .ok symbols) : symbols.resolver = file.resolver := by
  obtain ⟨_, hCode, hFlag⟩ := ofFile_spec h
  have hCodes : symbols.code? = file.code? := by
    funext kind name
    exact hCode kind name
  have hFlags : symbols.flag? = fun rule => file.flags.entries.lookup rule := funext hFlag
  rw [resolver, SymbolFile.resolver, hCodes, hFlags]

end SymbolMap

end KeyRemap
