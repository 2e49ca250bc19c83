import Mathlib.Data.List.TakeWhile
import Std.Data.String.ToNat

/-!
# Written numbers

Slots, flags and the suffixes of pseudo keys are written in generated text and in symbols as decimal
numbers. Such a number consists of digits and begins with a zero only if it is zero, and it ends
where the digits end.

* `isDigit_of_mem_repr`: what the characters of a written number are.
* `eq_of_repr_append`: a written number can be told from what follows it.
* `eq_zero_of_head?_repr`: a written number has no zeros in front.
-/

namespace KeyRemap

theorem isDigit_of_mem_repr {n : Nat} {c : Char} (h : c ∈ n.repr.toList) : c.isDigit = true := by
  rw [Nat.repr_eq_ofList_toDigits, String.toList_ofList] at h
  exact Nat.isDigit_of_mem_toDigits (by decide) (by decide) h

/-- The digits at the beginning of a text that goes on with something else are the number. -/
theorem takeWhile_repr_append (n : Nat) {c : Char} (rest : List Char) (hc : c.isDigit = false) :
    (n.repr.toList ++ c :: rest).takeWhile Char.isDigit = n.repr.toList := by
  rw [List.takeWhile_append_of_pos fun _ => isDigit_of_mem_repr,
    List.takeWhile_cons_of_neg (by simp [hc]), List.append_nil]

/-- A written number ends where its digits end, so it can be read from what it begins. -/
theorem eq_of_repr_append {i j : Nat} {c d : Char} {rest rest' : List Char}
    (hc : c.isDigit = false) (hd : d.isDigit = false)
    (h : i.repr.toList ++ c :: rest = j.repr.toList ++ d :: rest') : i = j := by
  have hRepr := congrArg (List.takeWhile Char.isDigit) h
  rw [takeWhile_repr_append i rest hc, takeWhile_repr_append j rest' hd, String.toList_inj] at hRepr
  exact Nat.repr_injective hRepr

theorem eq_zero_of_head?_toDigits {n : Nat} (h : (Nat.toDigits 10 n).head? = some '0') : n = 0 := by
  induction n using Nat.strongRecOn with
  | ind n ih =>
    rw [Nat.toDigits_eq_if (by decide)] at h
    split at h
    · rename_i hSmall
      have hDigit : Nat.digitChar n = '0' := by simpa using h
      have hValue := congrArg Char.toNat hDigit
      rw [Nat.toNat_digitChar_of_lt_ten hSmall] at hValue
      have hZero : '0'.toNat = 48 := rfl
      omega
    · rename_i hLarge
      have hFront : (Nat.toDigits 10 (n / 10)).head? = some '0' := by
        rwa [List.head?_append, List.head?_eq_some_head Nat.toDigits_ne_nil, Option.some_or,
          ← List.head?_eq_some_head] at h
      have hQuotient := ih (n / 10) (by omega) hFront
      omega

/-- A number other than zero is not written with a zero in front. -/
theorem eq_zero_of_head?_repr {n : Nat} (h : n.repr.toList.head? = some '0') : n = 0 := by
  rw [Nat.repr_eq_ofList_toDigits, String.toList_ofList] at h
  exact eq_zero_of_head?_toDigits h

end KeyRemap
