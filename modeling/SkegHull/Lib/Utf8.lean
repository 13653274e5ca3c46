import SkegHull.Lib.Bytes

/-!
# UTF-8

Strings as byte strings and back. Lean's `String` is by definition a valid UTF-8
byte string, so `utf8` only forgets the proof and `fromUtf8` checks for one;
the round trip is short.

A failed check has a text, which names how far the string was valid and whether
the rest is wrong or merely cut off. `utf8ErrorLen` follows the table of well
formed sequences for that.

## Main definitions

* `utf8`: The bytes of a string.
* `fromUtf8`: The string a byte string denotes, if it is valid.
* `utf8ErrorText`: What the failure displays as.

## Theorems

* `fromUtf8_utf8`: The bytes of a string denote it.
* `utf8_of_fromUtf8`: And they are the only ones that do.
-/

namespace Lib

/-- The bytes of a string. -/
def utf8 (s : String) : Bytes := s.toByteArray.data.toList

/-- The byte array with these bytes. -/
def byteArray (b : Bytes) : ByteArray := ⟨b.toArray⟩

/-- The string a byte string denotes, if it is valid UTF-8. -/
def fromUtf8 (b : Bytes) : Option String :=
  if h : (byteArray b).validateUTF8 = true then
    some ⟨byteArray b, ByteArray.validateUTF8_eq_true_iff.mp h⟩
  else none

theorem byteArray_utf8 (s : String) : byteArray (utf8 s) = s.toByteArray := by
  unfold byteArray utf8
  rw [Array.toArray_toList]

theorem fromUtf8_utf8 (s : String) : fromUtf8 (utf8 s) = some s := by
  have hb := byteArray_utf8 s
  have hv : (byteArray (utf8 s)).validateUTF8 = true := by
    rw [hb]
    exact ByteArray.validateUTF8_eq_true_iff.mpr s.isValidUTF8
  -- The check succeeds, and forgetting its proof gives the string back.
  unfold fromUtf8
  rw [dif_pos hv]
  simp only [hb]

/-- A string that was converted has the bytes it was converted from. -/
theorem utf8_of_fromUtf8 (b : Bytes) (s : String) (h : fromUtf8 b = some s) : utf8 s = b := by
  unfold fromUtf8 at h
  by_cases hv : (byteArray b).validateUTF8 = true
  · rw [dif_pos hv, Option.some.injEq] at h
    rw [← h]
    rfl
  · rw [dif_neg hv] at h
    cases h

/-- The second byte allowed after a leading byte of a longer sequence. -/
def utf8SecondOk (first second : UInt8) : Prop :=
  let lo : UInt8 := if first = 0xE0 then 0xA0 else if first = 0xF0 then 0x90 else 0x80
  let hi : UInt8 := if first = 0xED then 0x9F else if first = 0xF4 then 0x8F else 0xBF
  lo ≤ second ∧ second ≤ hi

instance (first second : UInt8) : Decidable (utf8SecondOk first second) :=
  inferInstanceAs (Decidable (_ ∧ _))

/-- How many bytes the invalid sequence at the start takes up, or `none` when it
    is only cut off. -/
def utf8ErrorLen : Bytes → Option Nat
  | [] => none
  | first :: more =>
      if 0xC2 ≤ first ∧ first ≤ 0xDF then
        match more with
        | [] => none
        | _ => some 1
      else if 0xE0 ≤ first ∧ first ≤ 0xEF then
        match more with
        | [] => none
        | [second] => if utf8SecondOk first second then none else some 1
        | second :: _ => if utf8SecondOk first second then some 2 else some 1
      else if 0xF0 ≤ first ∧ first ≤ 0xF4 then
        match more with
        | [] => none
        | [second] => if utf8SecondOk first second then none else some 1
        | [second, third] =>
            if ¬ utf8SecondOk first second then some 1
            else if 0x80 ≤ third ∧ third ≤ 0xBF then none else some 2
        | second :: third :: _ =>
            if ¬ utf8SecondOk first second then some 1
            else if 0x80 ≤ third ∧ third ≤ 0xBF then some 3 else some 2
      else some 1

/-- The longest prefix that is valid. -/
def utf8ValidUpTo (b : Bytes) : Nat :=
  ((List.range (b.length + 1)).filter fun n => (byteArray (b.take n)).validateUTF8).foldl max 0

/-- What a failed conversion displays as. -/
def utf8ErrorText (b : Bytes) : String :=
  let index := utf8ValidUpTo b
  match utf8ErrorLen (b.drop index) with
  | some len => s!"invalid utf-8 sequence of {len} bytes from index {index}"
  | none => s!"incomplete utf-8 byte sequence from index {index}"

end Lib
