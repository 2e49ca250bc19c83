import KeyRemap.Proofs.Numerals
import KeyRemap.Proofs.SymbolLookup

/-!
# Defining a range of pseudo keys

A range is defined as a whole or not at all. Whether it fits is seen from its last code; if it does,
none of the sums on the way goes beyond 32 bits, so the pseudo keys can be defined in place, one
after the other, with the same outcome. Names that are no pseudo keys of the range keep their codes,
however much they look like one.

* `SymbolMap.defineRange`: the definition in place, with every sum checked.
* `pseudoKey_ne_of_foreign`: names that a range leaves alone.
* `SymbolMap.size_foldl_insertPseudoKey`: a map grows by the names that are new to it.
* `SymbolMap.insertPseudoKeys_all_or_nothing`: all that a range does to a map.
-/

namespace KeyRemap

/-! ## Names that are no pseudo keys of a range -/

/-- Suffixes that no pseudo key below a bound has: numbers from the bound on, numbers with a zero in
front, and what is not written with digits. -/
inductive ForeignSuffix (bound : Nat) : String → Prop
  | larger {n : Nat} (h : bound ≤ n) : ForeignSuffix bound n.repr
  | padded {digits : String} (h : digits ≠ "") : ForeignSuffix bound ("0" ++ digits)
  | notDecimal {suffix : String} {c : Char} (h : c ∈ suffix.toList) (hc : c.isDigit = false) :
      ForeignSuffix bound suffix
  | empty : ForeignSuffix bound ""

theorem repr_ne_of_foreign {bound i : Nat} {suffix : String} (h : ForeignSuffix bound suffix)
    (hi : i < bound) : i.repr ≠ suffix := by
  intro hEq
  cases h with
  | larger hLarge =>
    have hSame := Nat.repr_injective hEq
    omega
  | @padded digits hPadded =>
    have hList : i.repr.toList = '0' :: digits.toList := by
      rw [hEq, String.toList_append]
      rfl
    have hZero : i = 0 := eq_zero_of_head?_repr (by rw [hList, List.head?_cons])
    subst hZero
    have hNil : digits.toList = [] := (List.cons.inj hList).2.symm
    exact hPadded (String.toList_eq_nil_iff.mp hNil)
  | notDecimal hMem hc =>
    rw [← hEq] at hMem
    cases hc.symm.trans (isDigit_of_mem_repr hMem)
  | empty => exact Nat.repr_ne_empty hEq

theorem pseudoKey_ne_of_foreign {bound i : Nat} {suffix : String}
    (h : ForeignSuffix bound suffix) (hi : i < bound) : pseudoKey i ≠ pseudoKeyStem ++ suffix := by
  intro hEq
  have hList := congrArg String.toList hEq
  simp only [pseudoKey, String.toList_append, List.append_cancel_left_eq,
    String.toList_inj] at hList
  exact repr_ne_of_foreign h hi hList

/-! ## Definition in place -/

namespace PseudoKeyRange

/-- A range does not fit if it has a last code and that one is beyond 32 bits. -/
def TooLarge (range : PseudoKeyRange) : Prop :=
  0 < range.count.toNat ∧ UInt32.size ≤ range.base.toNat + range.count.toNat - 1

theorem count_eq_zero_iff (range : PseudoKeyRange) : range.count = 0 ↔ range.count.toNat = 0 := by
  rw [← UInt32.toNat_inj, UInt32.toNat_zero]

theorem not_fits_iff (range : PseudoKeyRange) : ¬ range.fits = true ↔ range.TooLarge := by
  simp only [fits, TooLarge, Bool.or_eq_true, beq_iff_eq, decide_eq_true_eq,
    range.count_eq_zero_iff]
  omega

/-- No sum that a range that fits asks for goes beyond 32 bits. -/
theorem sum_lt {range : PseudoKeyRange} (hFits : range.fits = true) {suffix : Nat}
    (h : suffix < range.count.toNat) : range.base.toNat + suffix < UInt32.size := by
  rw [← toNat_code hFits h]
  exact UInt32.toNat_lt_size _

/-- A range gives no code to other names than those of its pseudo keys. -/
theorem code?_eq_none {range : PseudoKeyRange} {kind : OperandKind} {name : String}
    (h : ∀ i < range.count.toNat, (kind, name) ≠ (.keyCode, pseudoKey i)) :
    range.code? kind name = none := by
  unfold code?
  split
  · rename_i hKind
    rw [Option.map_eq_none_iff, List.find?_eq_none]
    intro i hi hName
    apply h i (List.mem_range.mp hi)
    rw [hKind, decide_eq_true_eq.mp hName]
  · rfl

end PseudoKeyRange

namespace SymbolMap

/-- Why a definition in place stops. -/
inductive RangeStop where
  /-- The range does not fit. -/
  | refused (range : PseudoKeyRange)
  /-- The code of a pseudo key is beyond 32 bits. -/
  | overflow (suffix : Nat)
  deriving DecidableEq, Repr

/-- Defines pseudo keys in place, one after the other, with every sum checked. If one does not fit,
what has been defined before it stays in the map. -/
def defineEach (base : UInt32) : List Nat → EStateM RangeStop SymbolMap Unit
  | [] => pure ()
  | suffix :: suffixes => do
    if base.toNat + suffix < UInt32.size then
      modify fun symbols => insertPseudoKey base symbols suffix
      defineEach base suffixes
    else throw (.overflow suffix)

/-- Defines the pseudo keys of a range in place, after a look at its last code. -/
def defineRange (range : PseudoKeyRange) : EStateM RangeStop SymbolMap Unit := do
  if range.fits then defineEach range.base (List.range range.count.toNat)
  else throw (.refused range)

theorem defineEach_eq {base : UInt32} {suffixes : List Nat}
    (h : ∀ suffix ∈ suffixes, base.toNat + suffix < UInt32.size) (symbols : SymbolMap) :
    defineEach base suffixes symbols =
      .ok () (suffixes.foldl (insertPseudoKey base) symbols) := by
  induction suffixes generalizing symbols with
  | nil => rfl
  | cons suffix suffixes ih =>
    obtain ⟨hFirst, hRest⟩ := List.forall_mem_cons.mp h
    simp only [defineEach, if_pos hFirst, List.foldl_cons]
    exact ih hRest (insertPseudoKey base symbols suffix)

/-- In place a range comes to the same: the sums fit if it is accepted, and if it is refused, the
map has not been touched. -/
theorem defineRange_eq (symbols : SymbolMap) (range : PseudoKeyRange) :
    defineRange range symbols =
      match symbols.insertPseudoKeys range with
      | .ok defined => .ok () defined
      | .error refused => .error (.refused refused) symbols := by
  unfold defineRange insertPseudoKeys
  by_cases hFits : range.fits = true
  · have hSums : ∀ suffix ∈ List.range range.count.toNat,
        range.base.toNat + suffix < UInt32.size := by
      intro suffix hSuffix
      exact PseudoKeyRange.sum_lt hFits (List.mem_range.mp hSuffix)
    simp only [hFits, if_true]
    exact defineEach_eq hSums symbols
  · simp only [hFits]
    rfl

/-! ## How a map grows -/

theorem size_insert (symbols : SymbolMap) (kind : OperandKind) (name : String) (code : UInt32) :
    (symbols.insert kind name code).size =
      symbols.size + if (symbols.code? kind name).isNone then 1 else 0 := by
  have hMem : (kind, name) ∈ symbols.codes ↔ (symbols.code? kind name).isNone = false := by
    rw [Std.HashMap.mem_iff_isSome_getElem?, code?]
    cases symbols.codes[(kind, name)]? <;> simp
  simp only [size, insert, Std.HashMap.size_insert, hMem]
  cases (symbols.code? kind name).isNone <;> simp

/-- Pseudo keys make a map grow by those among them that had no code before. -/
theorem size_foldl_insertPseudoKey (base : UInt32) (symbols : SymbolMap) {suffixes : List Nat}
    (hNodup : suffixes.Nodup) :
    (suffixes.foldl (insertPseudoKey base) symbols).size =
      symbols.size +
        suffixes.countP fun suffix => (symbols.code? .keyCode (pseudoKey suffix)).isNone := by
  induction suffixes generalizing symbols with
  | nil => rfl
  | cons suffix suffixes ih =>
    obtain ⟨hFirst, hRest⟩ := List.nodup_cons.mp hNodup
    -- the first name is none of the later ones, so they are as new as before
    have hLater : (suffixes.countP fun later =>
        ((insertPseudoKey base symbols suffix).code? .keyCode (pseudoKey later)).isNone) =
        suffixes.countP fun later => (symbols.code? .keyCode (pseudoKey later)).isNone := by
      apply List.countP_congr
      intro later hMem
      have hNe : pseudoKey later ≠ pseudoKey suffix := by
        intro hEq
        exact hFirst (pseudoKey_injective hEq ▸ hMem)
      rw [insertPseudoKey, code?_insert, if_neg (by simp [hNe])]
    rw [List.foldl_cons, ih _ hRest, hLater, insertPseudoKey, size_insert, List.countP_cons]
    omega

/-! ## What a range does -/

/-- **All or nothing, and never too far.** A range is refused exactly if it has pseudo keys and its
last code is beyond 32 bits; the map is then as before, also where it is changed in place. Otherwise
all sums fit, and the pseudo keys of the range have its consecutive codes. Every other name of every
kind keeps its code or stays without, also names that begin like a pseudo key and go on with a
number that is too large, with a number after a zero or with no number. Flags do not change, and
the map grows by the pseudo keys that had no code before. -/
theorem insertPseudoKeys_all_or_nothing (symbols : SymbolMap) (range : PseudoKeyRange) :
    (symbols.insertPseudoKeys range = .error range ↔ range.TooLarge) ∧
    (range.TooLarge → defineRange range symbols = .error (.refused range) symbols) ∧
    (¬ range.TooLarge → ∃ symbols',
      symbols.insertPseudoKeys range = .ok symbols' ∧
      defineRange range symbols = .ok () symbols' ∧
      (∀ i < range.count.toNat, range.base.toNat + i < UInt32.size ∧
        ∃ code, symbols'.code? .keyCode (pseudoKey i) = some code ∧
          code.toNat = range.base.toNat + i) ∧
      (∀ kind name, (∀ i < range.count.toNat, (kind, name) ≠ (.keyCode, pseudoKey i)) →
        symbols'.code? kind name = symbols.code? kind name) ∧
      (∀ suffix, ForeignSuffix range.count.toNat suffix →
        symbols'.code? .keyCode (pseudoKeyStem ++ suffix) =
          symbols.code? .keyCode (pseudoKeyStem ++ suffix)) ∧
      symbols'.flags = symbols.flags ∧
      symbols'.size = symbols.size + (List.range range.count.toNat).countP fun i =>
        (symbols.code? .keyCode (pseudoKey i)).isNone) := by
  have hPlace := defineRange_eq symbols range
  by_cases hFits : range.fits = true
  · have hSmall : ¬ range.TooLarge := fun hLarge => range.not_fits_iff.mpr hLarge hFits
    obtain ⟨symbols', hOk⟩ : ∃ symbols', symbols.insertPseudoKeys range = .ok symbols' := by
      rw [insertPseudoKeys, if_pos hFits]
      exact ⟨_, rfl⟩
    obtain ⟨_, hFlags, hCodes⟩ := insertPseudoKeys_spec hOk
    have hKept : ∀ kind name, (∀ i < range.count.toNat, (kind, name) ≠ (.keyCode, pseudoKey i)) →
        symbols'.code? kind name = symbols.code? kind name := by
      intro kind name hOther
      rw [hCodes, PseudoKeyRange.code?_eq_none hOther, Option.none_or]
    rw [hOk] at hPlace
    refine ⟨⟨?_, ?_⟩, ?_, ?_⟩
    · intro hError
      cases hOk.symm.trans hError
    · intro hLarge
      exact absurd hLarge hSmall
    · intro hLarge
      exact absurd hLarge hSmall
    · intro _
      refine ⟨symbols', hOk, hPlace, ?_, hKept, ?_, hFlags, ?_⟩
      · intro i hi
        refine ⟨PseudoKeyRange.sum_lt hFits hi, range.base + UInt32.ofNat i, ?_,
          PseudoKeyRange.toNat_code hFits hi⟩
        rw [hCodes, range.code?_pseudoKey, if_pos hi, Option.some_or]
      · intro suffix hForeign
        apply hKept
        intro i hi hEq
        exact pseudoKey_ne_of_foreign hForeign hi (congrArg Prod.snd hEq).symm
      · rw [insertPseudoKeys, if_pos hFits] at hOk
        cases hOk
        exact size_foldl_insertPseudoKey range.base symbols List.nodup_range
  · have hLarge := range.not_fits_iff.mp hFits
    have hError : symbols.insertPseudoKeys range = .error range := by
      rw [insertPseudoKeys, if_neg hFits]
    rw [hError] at hPlace
    exact ⟨iff_of_true hError hLarge, fun _ => hPlace, fun hSmall => absurd hLarge hSmall⟩

end SymbolMap

end KeyRemap
