import Mathlib.Data.List.Basic
import SkegHull.Lib.Bytes

/-!
# Decimal Numerals

The numerals a formatter prints, as bytes. A name built from a base and a few
numerals, each behind a separator, determines all of its parts: a numeral has
no separator in it, so the last separator of the name is the one before the
last numeral.

## Main definitions

* `decimal`: The digits of a number, most significant first.

## Theorems

* `decimal_injective`: Different numbers have different numerals.
* `not_mem_decimal`: A numeral is digits only.
* `append_decimal_inj`: A name ending in a separator and a numeral determines
  both halves.
-/

namespace Lib

/-- The digits of a number, most significant first. -/
def decimal (n : Nat) : Bytes := (Nat.toDigits 10 n).map fun c => UInt8.ofNat c.toNat

theorem toNat_of_isDigit (c : Char) (h : c.isDigit = true) : 48 ≤ c.toNat ∧ c.toNat < 58 := by
  simp only [Char.isDigit, Bool.and_eq_true, decide_eq_true_eq] at h
  have hlow := UInt32.le_iff_toNat_le.mp h.1
  have hhigh := UInt32.le_iff_toNat_le.mp h.2
  exact ⟨hlow, Nat.lt_succ_of_le hhigh⟩

/-- The character a digit byte stands for. -/
theorem chars_decimal (n : Nat) :
    (decimal n).map (fun b => Char.ofNat b.toNat) = Nat.toDigits 10 n := by
  rw [decimal, List.map_map]
  refine (List.map_congr_left ?_).trans (List.map_id _)
  intro c hc
  have hdigit := toNat_of_isDigit c (Nat.isDigit_of_mem_toDigits (by omega) (by omega) hc)
  rw [Function.comp_apply, UInt8.toNat_ofNat', Nat.mod_eq_of_lt (by omega), Char.ofNat_toNat, id]

theorem decimal_injective (m n : Nat) (h : decimal m = decimal n) : m = n := by
  -- The bytes determine the digits, and the digits determine the number.
  have hdigits : Nat.toDigits 10 m = Nat.toDigits 10 n := by
    rw [← chars_decimal, h, chars_decimal]
  rw [← @Nat.ofDigitChars_ten_toDigits m, hdigits, Nat.ofDigitChars_ten_toDigits]

/-- A numeral is digits only. -/
theorem not_mem_decimal (n : Nat) (b : UInt8) (hb : b.toNat < 48) : b ∉ decimal n := by
  intro hmem
  rcases List.mem_map.mp hmem with ⟨c, hc, rfl⟩
  have hdigit := toNat_of_isDigit c (Nat.isDigit_of_mem_toDigits (by omega) (by omega) hc)
  rw [UInt8.toNat_ofNat'] at hb
  omega

/-- What follows the last separator is determined. -/
theorem append_cons_inj {α : Type} (x y d e : List α) (sep : α) (hd : sep ∉ d) (he : sep ∉ e)
    (h : x ++ sep :: d = y ++ sep :: e) : x = y ∧ d = e := by
  -- One base is a prefix of the other. If it were shorter, the separator behind it
  -- would be in the last part of the longer one.
  rcases List.append_eq_append_iff.mp h with ⟨c, hy, hc⟩ | ⟨c, hx, hc⟩
  · cases c with
    | nil =>
        simp only [List.nil_append, List.cons.injEq, true_and] at hc
        exact ⟨by rw [hy, List.append_nil], hc⟩
    | cons a c =>
        simp only [List.cons_append, List.cons.injEq] at hc
        exact absurd (hc.2 ▸ List.mem_append_right _ List.mem_cons_self) hd
  · cases c with
    | nil =>
        simp only [List.nil_append, List.cons.injEq, true_and] at hc
        exact ⟨by rw [hx, List.append_nil], hc.symm⟩
    | cons a c =>
        simp only [List.cons_append, List.cons.injEq] at hc
        exact absurd (hc.2 ▸ List.mem_append_right _ List.mem_cons_self) he

/-- The last separator of a name is the one before its last numeral. -/
theorem append_decimal_inj (x y : Bytes) (sep : UInt8) (m n : Nat) (hsep : sep.toNat < 48)
    (h : x ++ sep :: decimal m = y ++ sep :: decimal n) : x = y ∧ m = n := by
  rcases append_cons_inj x y _ _ sep (not_mem_decimal m sep hsep) (not_mem_decimal n sep hsep) h
    with ⟨hbase, hnum⟩
  exact ⟨hbase, decimal_injective m n hnum⟩

end Lib
