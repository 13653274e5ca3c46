import Mathlib.Data.Nat.Digits.Defs
import SkegHull.Lib.Outcome

/-!
# Byte Strings

Byte strings as lists, with the three things a binary format does to them: cut
a range out, write a range, and read a fixed-width little-endian integer.

`cut` is the range `b[lo..hi]` as a plain list, defined for every pair of
bounds. `slice` is what the program does, which is the same list when the
bounds are in order and inside the buffer, and a panic otherwise. Keeping the
two apart lets a proof settle the bounds once (`slice_eq`) and reason about
lists from there.

An encoder produces a concatenation of fields and a decoder takes ranges of it,
so what the round trips need is a way to walk a range down a concatenation.
`cut_append_right` skips a field that ends before the range, and
`cut_append_exact` takes the field the range names. Both have side conditions
about lengths only, so the simplifier discharges them.

`LeWord` packages what an integer type needs to be stored: its width and the
two conversions, with the laws as fields. `fromLe_toLe` and `toLe_fromLe` are
then one proof for every width.

## Main definitions

* `Bytes`, `Octets`: Byte strings, and those of a fixed length.
* `cut`, `slice`, `byteAt`: Ranges and single bytes of a buffer.
* `blit`, `writeAt`: Overwriting a range of a buffer or of a growing file.
* `blank`: Setting marked positions to zero.
* `leNat`, `leBytes`: Little-endian numerals.
* `LeWord`, `toLe`, `fromLe`: Integers stored at a fixed width.
* `readLe`, `readArray`: Reading an integer or an array out of a range.

## Theorems

* `leNat_leBytes`, `leBytes_leNat`: Numerals and byte strings correspond.
* `cut_append_right`, `cut_append_exact`: Walking a range down a concatenation.
* `cut_append_cut`: Adjacent ranges join.
* `slice_eq`: What a slice returns when its bounds are in order.
* `blit_zeros`: Filling a zeroed buffer front to back.
* `writeAt_writeAt`: Two writes in a row are one.
* `blank_from`: Setting a tail to zero.
* `flatMap_injective`: Lists of fixed-width records are stored injectively.
* `fromLe_toLe`, `toLe_fromLe`: Stored integers read back.
-/

namespace Lib

/-- A string of bytes. -/
abbrev Bytes := List UInt8

/-- A byte array of a fixed length. -/
abbrev Octets (n : Nat) := { b : Bytes // b.length = n }

/-- An array of zeros. -/
def Octets.zero (n : Nat) : Octets n := ⟨List.replicate n 0, List.length_replicate⟩

/-- The range `b[lo..hi]` as a list, for any bounds. -/
def cut (b : Bytes) (lo hi : Nat) : Bytes :=
  (b.drop lo).take (hi - lo)

section Cut

variable (a b : Bytes) (lo hi : Nat)

@[simp] theorem length_cut : (cut b lo hi).length = min (hi - lo) (b.length - lo) := by
  simp only [cut, List.length_take, List.length_drop]

theorem length_cut_of_le (h : hi ≤ b.length) : (cut b lo hi).length = hi - lo := by
  rw [length_cut]
  omega

/-- A range past the end of the first part lies in the second. -/
theorem cut_append_right (h : a.length ≤ lo) :
    cut (a ++ b) lo hi = cut b (lo - a.length) (hi - a.length) := by
  unfold cut
  rw [List.drop_append, List.drop_eq_nil_of_le h, List.nil_append,
    show hi - a.length - (lo - a.length) = hi - lo by omega]

/-- A range inside the first part does not see the second. -/
theorem cut_append_left (h : hi ≤ a.length) : cut (a ++ b) lo hi = cut a lo hi := by
  unfold cut
  rw [List.drop_append, List.take_append_of_le_length]
  rw [List.length_drop]
  omega

/-- A range that names the first part exactly. -/
theorem cut_append_exact (h : hi = a.length) : cut (a ++ b) 0 hi = a := by
  rw [cut_append_left _ _ _ _ (by omega), h]
  simp only [cut, List.drop_zero, Nat.sub_zero, List.take_length]

theorem cut_exact (h : hi = a.length) : cut a 0 hi = a := by
  subst h
  simp only [cut, List.drop_zero, Nat.sub_zero, List.take_length]

theorem cut_zero : cut b 0 hi = b.take hi := by
  simp only [cut, List.drop_zero, Nat.sub_zero]

@[simp] theorem cut_self : cut b lo lo = [] := by
  simp only [cut, Nat.sub_self, List.take_zero]

/-- A range of one byte. -/
theorem cut_one (h : lo < b.length) : cut b lo (lo + 1) = [b[lo]] := by
  unfold cut
  rw [Nat.add_sub_cancel_left, List.drop_eq_getElem_cons h, List.take_succ_cons, List.take_zero]

/-- Adjacent ranges join. -/
theorem cut_append_cut (mid : Nat) (h1 : lo ≤ mid) (h2 : mid ≤ hi) :
    cut b lo mid ++ cut b mid hi = cut b lo hi := by
  unfold cut
  rw [show hi - lo = (mid - lo) + (hi - mid) by omega, List.take_add, List.drop_drop,
    show lo + (mid - lo) = mid by omega]

/-- A prefix and a prefix of what follows it make up a longer prefix, also when
    the bytes run out. -/
theorem take_append_take_drop (k n : Nat) (h : k ≤ n) :
    b.take k ++ (b.drop k).take (n - (b.take k).length) = b.take n := by
  rw [List.length_take]
  by_cases hk : k ≤ b.length
  · rw [Nat.min_eq_left hk, ← List.take_add, Nat.add_sub_cancel' h]
  · rw [List.drop_eq_nil_of_le (by omega), List.take_nil, List.append_nil,
      List.take_of_length_le (by omega), List.take_of_length_le (by omega)]

theorem cut_drop (n : Nat) : cut (b.drop n) lo hi = cut b (n + lo) (n + hi) := by
  unfold cut
  rw [List.drop_drop, Nat.add_sub_add_left]

/-- A range of a prefix is a range of the whole. -/
theorem cut_take (n : Nat) (h : hi ≤ n) : cut (b.take n) lo hi = cut b lo hi := by
  unfold cut
  rw [List.drop_take, List.take_take, Nat.min_eq_left (by omega)]

/-- A range of a range. -/
theorem cut_cut (lo' hi' : Nat) (hlo : lo ≤ lo') (hhi : hi' ≤ hi) :
    cut b lo' hi' = cut (cut b lo hi) (lo' - lo) (hi' - lo) := by
  unfold cut
  rw [List.drop_take, List.drop_drop, List.take_take, Nat.add_sub_cancel' hlo]
  congr 1
  omega

end Cut

/-- `b[lo..hi]`, which panics when the bounds are out of order or too large. -/
def slice {ε : Type} (b : Bytes) (lo hi : Nat) : Outcome ε Bytes :=
  if lo ≤ hi ∧ hi ≤ b.length then .ok (cut b lo hi) else .panic .sliceIndex

/-- `b[i]`, which panics when the index is out of range. -/
def byteAt {ε : Type} (b : Bytes) (i : Nat) : Outcome ε UInt8 :=
  match b[i]? with
  | some x => .ok x
  | none => .panic .sliceIndex

section Slice

variable {ε : Type} (b : Bytes) (lo hi : Nat)

theorem slice_eq (h1 : lo ≤ hi) (h2 : hi ≤ b.length) :
    (slice b lo hi : Outcome ε Bytes) = .ok (cut b lo hi) := by
  unfold slice
  rw [if_pos ⟨h1, h2⟩]

theorem errs_slice (P : ε → Prop) : (slice b lo hi : Outcome ε Bytes).Errs P := by
  unfold slice
  by_cases h : lo ≤ hi ∧ hi ≤ b.length
  · rw [if_pos h]
    exact Outcome.errs_ok P _
  · rw [if_neg h]
    exact Outcome.errs_panic P _

theorem byteAt_eq (i : Nat) (h : i < b.length) : (byteAt b i : Outcome ε UInt8) = .ok b[i] := by
  simp only [byteAt, List.getElem?_eq_getElem h]

end Slice

/-- `buf[off..off + bs.len()].copy_from_slice(bs)`, for a range inside the
    buffer. -/
def blit (buf : Bytes) (off : Nat) (bs : Bytes) : Bytes :=
  buf.take off ++ bs ++ buf.drop (off + bs.length)

/-- Filling a zeroed buffer front to back: the written part grows and the
    zeros shrink. -/
theorem blit_zeros (a bs : Bytes) (off n : Nat) (hoff : off = a.length) :
    blit (a ++ List.replicate n 0) off bs
      = (a ++ bs) ++ List.replicate (n - bs.length) 0 := by
  subst hoff
  unfold blit
  -- The write starts where the zeros start, so what it replaces is zeros.
  rw [List.take_left', List.drop_append, List.drop_eq_nil_of_le (by omega), List.nil_append,
    Nat.add_sub_cancel_left, List.drop_replicate]
  rfl

theorem blit_zeros_start (bs : Bytes) (n : Nat) :
    blit (List.replicate n 0) 0 bs = bs ++ List.replicate (n - bs.length) 0 :=
  blit_zeros [] bs 0 n rfl

/-- Write at a position of a growing file: a gap is filled with zeros, bytes
    under the write are replaced, bytes past it stay. -/
def writeAt (b : Bytes) (pos : Nat) (bs : Bytes) : Bytes :=
  b.take pos ++ List.replicate (pos - b.length) 0 ++ bs ++ b.drop (pos + bs.length)

/-- A write at the start leaves what is behind it. -/
theorem writeAt_zero (b bs : Bytes) : writeAt b 0 bs = bs ++ b.drop bs.length := by
  simp only [writeAt, List.take_zero, Nat.zero_sub, List.replicate_zero, List.nil_append,
    Nat.zero_add]

@[simp] theorem writeAt_nil_zero (bs : Bytes) : writeAt [] 0 bs = bs := by
  simp only [writeAt, List.take_nil, List.length_nil, Nat.sub_self, List.replicate_zero,
    List.append_nil, List.nil_append, List.drop_nil]

/-- Two writes in a row are one write of the concatenation. -/
theorem writeAt_writeAt (b x y : Bytes) (pos : Nat) :
    writeAt (writeAt b pos x) (pos + x.length) y = writeAt b pos (x ++ y) := by
  -- What the first write leaves in front of its own end.
  have hhead : (b.take pos ++ List.replicate (pos - b.length) 0 ++ x).length = pos + x.length := by
    simp only [List.length_append, List.length_take, List.length_replicate]
    omega
  have htake : (writeAt b pos x).take (pos + x.length)
      = b.take pos ++ List.replicate (pos - b.length) 0 ++ x := by
    rw [writeAt, List.take_left' hhead]
  -- What both writes leave behind the second one.
  have hdrop : (writeAt b pos x).drop (pos + x.length + y.length)
      = b.drop (pos + (x ++ y).length) := by
    rw [writeAt, List.drop_append, List.drop_eq_nil_of_le (by omega), List.nil_append, hhead,
      Nat.add_sub_cancel_left, List.drop_drop, List.length_append, Nat.add_assoc]
  -- The second write starts inside the file, so there is no gap.
  have hlen : pos + x.length - (writeAt b pos x).length = 0 := by
    rw [writeAt, List.length_append, hhead]
    omega
  rw [writeAt, htake, hdrop, hlen, List.replicate_zero, List.append_nil]
  simp only [writeAt, List.append_assoc]

/-! ### Blanked bytes -/

/-- The bytes with those at the marked positions set to zero. -/
def blank (marked : Nat → Bool) (b : Bytes) : Bytes :=
  b.mapIdx fun i x => if marked i then 0 else x

section Blank

variable (marked : Nat → Bool) (a b : Bytes)

theorem blank_append :
    blank marked (a ++ b) = blank marked a ++ blank (fun i => marked (i + a.length)) b :=
  List.mapIdx_append

/-- Where nothing is marked nothing changes. -/
theorem blank_of_none (h : ∀ i, i < b.length → marked i = false) : blank marked b = b := by
  refine List.ext_getElem List.length_mapIdx fun i hi hi' => ?_
  simp only [blank, List.getElem_mapIdx, h i hi', Bool.false_eq_true, if_false]

/-- Where everything is marked only zeros are left. -/
theorem blank_of_all (h : ∀ i, i < b.length → marked i = true) :
    blank marked b = List.replicate b.length 0 := by
  refine List.ext_getElem (by rw [blank, List.length_mapIdx, List.length_replicate])
    fun i hi hi' => ?_
  rw [List.length_replicate] at hi'
  simp only [blank, List.getElem_mapIdx, h i hi', if_true, List.getElem_replicate]

/-- Where everything from a position on is marked, the bytes in front of it are left. -/
theorem blank_from (n m : Nat) (hlen : b.length = n + m) (hkept : ∀ i, i < n → marked i = false)
    (hlost : ∀ i, n ≤ i → i < n + m → marked i = true) :
    blank marked b = cut b 0 n ++ List.replicate m 0 := by
  have hfront : (cut b 0 n).length = n := length_cut_of_le _ _ _ (by omega)
  have hback : (cut b n (n + m)).length = m := by
    rw [length_cut_of_le _ _ _ (by omega), Nat.add_sub_cancel_left]
  conv_lhs => rw [← cut_exact b (n + m) hlen.symm, ← cut_append_cut b 0 (n + m) n (by omega)
    (by omega)]
  rw [blank_append, blank_of_none _ _ fun i hi => hkept i (by omega),
    blank_of_all _ _ fun i hi => hlost _ (by omega) (by omega), hback]

end Blank

/-! ### Little-endian numerals -/

/-- The number a byte string denotes, least significant byte first. -/
def leNat (b : Bytes) : Nat :=
  Nat.ofDigits 256 (b.map UInt8.toNat)

/-- The `w` low bytes of a number, least significant first. -/
def leBytes : Nat → Nat → Bytes
  | 0, _ => []
  | w + 1, n => UInt8.ofNat n :: leBytes w (n / 256)

@[simp] theorem leNat_nil : leNat [] = 0 := rfl

theorem leNat_cons (x : UInt8) (b : Bytes) : leNat (x :: b) = x.toNat + 256 * leNat b := by
  simp only [leNat, List.map_cons, Nat.ofDigits_cons]

@[simp] theorem length_leBytes (w n : Nat) : (leBytes w n).length = w := by
  induction w generalizing n with
  | zero => rfl
  | succ w ih => rw [leBytes, List.length_cons, ih]

theorem leNat_lt (b : Bytes) : leNat b < 256 ^ b.length := by
  have hdigits : ∀ x ∈ b.map UInt8.toNat, x < 256 := by
    intro x hx
    rcases List.mem_map.mp hx with ⟨y, _, rfl⟩
    exact y.toNat_lt
  -- A numeral of `n` digits in base 256 is below `256 ^ n`.
  have h := Nat.ofDigits_lt_base_pow_length (by decide : 1 < 256) hdigits
  rwa [List.length_map] at h

theorem leNat_leBytes (w n : Nat) : leNat (leBytes w n) = n % 256 ^ w := by
  induction w generalizing n with
  | zero => rw [leBytes, leNat_nil, Nat.pow_zero, Nat.mod_one]
  | succ w ih =>
      -- The low byte is the remainder, the bytes above it are the quotient.
      have hlow : (UInt8.ofNat n).toNat = n % 256 := UInt8.toNat_ofNat'
      rw [leBytes, leNat_cons, ih, hlow, Nat.pow_succ, Nat.mul_comm (256 ^ w), Nat.mod_mul]

theorem leBytes_leNat (b : Bytes) : leBytes b.length (leNat b) = b := by
  induction b with
  | nil => rfl
  | cons x b ih =>
      have hx := x.toNat_lt
      -- Division by 256 takes the first byte off again.
      have hlow : UInt8.ofNat (x.toNat + 256 * leNat b) = x := by
        apply UInt8.toNat_inj.mp
        rw [UInt8.toNat_ofNat']
        omega
      have hhigh : (x.toNat + 256 * leNat b) / 256 = leNat b := by omega
      rw [List.length_cons, leNat_cons, leBytes, hlow, hhigh, ih]

/-- Lists of records that are each stored injectively at one width are stored
    injectively, among lists of one length. -/
theorem flatMap_injective {α : Type} (f : α → Bytes) (w : Nat) (P : α → Prop)
    (hw : ∀ x, P x → (f x).length = w) (hf : ∀ x y, P x → P y → f x = f y → x = y) :
    ∀ (l m : List α), (∀ x ∈ l, P x) → (∀ x ∈ m, P x) → l.length = m.length →
      l.flatMap f = m.flatMap f → l = m := by
  intro l
  induction l with
  | nil =>
      intro m _ _ hlen _
      exact (List.length_eq_zero_iff.mp hlen.symm).symm
  | cons x l ih =>
      intro m hl hm hlen heq
      cases m with
      | nil => cases hlen
      | cons y m =>
          have hx := hl x List.mem_cons_self
          have hy := hm y List.mem_cons_self
          rw [List.flatMap_cons, List.flatMap_cons] at heq
          -- The first records have one width, so the concatenations split alike.
          rcases List.append_inj heq (by rw [hw x hx, hw y hy]) with ⟨hhead, htail⟩
          rw [hf x y hx hy hhead, ih m (fun z hz => hl z (List.mem_cons_of_mem _ hz))
            (fun z hz => hm z (List.mem_cons_of_mem _ hz)) (Nat.succ.inj hlen) htail]

/-- Records of one width take up their number times the width. -/
theorem length_flatMap_const {α : Type} (f : α → Bytes) (w : Nat) (l : List α)
    (hw : ∀ x ∈ l, (f x).length = w) : (l.flatMap f).length = l.length * w := by
  induction l with
  | nil => simp only [List.flatMap_nil, List.length_nil, Nat.zero_mul]
  | cons x l ih =>
      rw [List.flatMap_cons, List.length_append, hw x List.mem_cons_self,
        ih fun y hy => hw y (List.mem_cons_of_mem _ hy), List.length_cons, Nat.succ_mul]
      omega

/-- Record `i` of a list of records of one width is found at `i` times the
    width. -/
theorem cut_flatMap_const {α : Type} (f : α → Bytes) (w : Nat) (l : List α)
    (hw : ∀ x ∈ l, (f x).length = w) (i : Nat) (hi : i < l.length) :
    cut (l.flatMap f) (w * i) (w * i + w) = f l[i] := by
  induction l generalizing i with
  | nil => exact absurd hi (Nat.not_lt_zero i)
  | cons x l ih =>
      have hx := hw x List.mem_cons_self
      rw [List.flatMap_cons]
      cases i with
      | zero => exact cut_append_exact _ _ _ (by omega)
      | succ j =>
          -- The later records are looked up behind the first one.
          rw [cut_append_right _ _ _ _ (by rw [hx, Nat.mul_succ]; omega), hx,
            show w * (j + 1) - w = w * j by rw [Nat.mul_succ]; omega,
            show w * (j + 1) + w - w = w * j + w by rw [Nat.mul_succ]; omega]
          exact ih (fun y hy => hw y (List.mem_cons_of_mem _ hy)) j
            (by rw [List.length_cons] at hi; omega)

/-- Bytes whose number is a multiple of a width are a list of records of that
    width. -/
theorem exists_flatMap_octets (w : Nat) (n : Nat) (b : Bytes) (h : b.length = w * n) :
    ∃ l : List (Octets w), l.length = n ∧ l.flatMap Subtype.val = b := by
  induction n generalizing b with
  | zero => exact ⟨[], rfl, (List.length_eq_zero_iff.mp h).symm⟩
  | succ n ih =>
      rw [Nat.mul_succ] at h
      rcases ih (b.drop w) (by rw [List.length_drop]; omega) with ⟨l, hl, hb⟩
      refine ⟨⟨b.take w, by rw [List.length_take]; omega⟩ :: l, by rw [List.length_cons, hl], ?_⟩
      rw [List.flatMap_cons, hb]
      exact List.take_append_drop w b

/-- An unsigned or two's complement integer type stored at a fixed width. -/
class LeWord (α : Type) where
  width : Nat
  toNat : α → Nat
  ofNat : Nat → α
  toNat_lt : ∀ x, toNat x < 256 ^ width
  ofNat_toNat : ∀ x, ofNat (toNat x) = x
  toNat_ofNat : ∀ n, n < 256 ^ width → toNat (ofNat n) = n

instance : LeWord UInt16 where
  width := 2
  toNat := UInt16.toNat
  ofNat := UInt16.ofNat
  toNat_lt x := x.toNat_lt
  ofNat_toNat _ := UInt16.ofNat_toNat
  toNat_ofNat _ h := UInt16.toNat_ofNat_of_lt h

instance : LeWord UInt32 where
  width := 4
  toNat := UInt32.toNat
  ofNat := UInt32.ofNat
  toNat_lt x := x.toNat_lt
  ofNat_toNat _ := UInt32.ofNat_toNat
  toNat_ofNat _ h := UInt32.toNat_ofNat_of_lt h

instance : LeWord UInt64 where
  width := 8
  toNat := UInt64.toNat
  ofNat := UInt64.ofNat
  toNat_lt x := x.toNat_lt
  ofNat_toNat _ := UInt64.ofNat_toNat
  toNat_ofNat _ h := UInt64.toNat_ofNat_of_lt h

instance : LeWord Int64 where
  width := 8
  toNat x := x.toUInt64.toNat
  ofNat n := (UInt64.ofNat n).toInt64
  toNat_lt x := x.toUInt64.toNat_lt
  ofNat_toNat x := by rw [UInt64.ofNat_toNat, Int64.toInt64_toUInt64]
  toNat_ofNat n h := by
    rw [UInt64.toUInt64_toInt64]
    exact UInt64.toNat_ofNat_of_lt h

section LeWord

variable {α ε : Type} [LeWord α]

/-- `x.to_le_bytes()`. -/
def toLe (x : α) : Bytes := leBytes (LeWord.width α) (LeWord.toNat x)

/-- `from_le_bytes` on the bytes of an array. -/
def fromLe (α : Type) [LeWord α] (b : Bytes) : α := LeWord.ofNat (leNat b)

@[simp] theorem length_toLe (x : α) : (toLe x).length = LeWord.width α := length_leBytes _ _

@[simp] theorem fromLe_toLe (x : α) : fromLe α (toLe x) = x := by
  unfold fromLe toLe
  rw [leNat_leBytes, Nat.mod_eq_of_lt (LeWord.toNat_lt x), LeWord.ofNat_toNat]

theorem toLe_fromLe (b : Bytes) (h : b.length = LeWord.width α) : toLe (fromLe α b) = b := by
  unfold fromLe toLe
  rw [LeWord.toNat_ofNat _ (by rw [← h]; exact leNat_lt b), ← h, leBytes_leNat]

/-- A range as wide as a word is stored back as it was. -/
theorem toLe_cut (b : Bytes) (lo hi : Nat) (h : hi ≤ b.length) (hw : lo + LeWord.width α = hi) :
    toLe (fromLe α (cut b lo hi)) = cut b lo hi :=
  toLe_fromLe _ (by rw [length_cut_of_le _ _ _ h]; omega)

theorem toLe_injective (x y : α) (h : toLe x = toLe y) : x = y := by
  rw [← fromLe_toLe x, h, fromLe_toLe]

/-- `b[lo..hi].try_into().unwrap()` at an array of length `n`. -/
def readArray {ε : Type} (n : Nat) (b : Bytes) (lo hi : Nat) : Outcome ε (Octets n) := do
  let s ← slice b lo hi
  if h : s.length = n then .ok ⟨s, h⟩ else .panic .unwrap

/-- `from_le_bytes(b[lo..hi].try_into().unwrap())`. -/
def readLe {ε : Type} (α : Type) [LeWord α] (b : Bytes) (lo hi : Nat) : Outcome ε α := do
  let a ← readArray (LeWord.width α) b lo hi
  .ok (fromLe α a.val)

theorem errs_readArray (P : ε → Prop) (n : Nat) (b : Bytes) (lo hi : Nat) :
    (readArray n b lo hi : Outcome ε (Octets n)).Errs P := by
  unfold readArray
  refine Outcome.errs_bind P _ _ (errs_slice b lo hi P) fun s _ => ?_
  by_cases h : s.length = n
  · rw [dif_pos h]
    exact Outcome.errs_ok P _
  · rw [dif_neg h]
    exact Outcome.errs_panic P _

theorem errs_readLe (P : ε → Prop) (b : Bytes) (lo hi : Nat) :
    (readLe α b lo hi : Outcome ε α).Errs P := by
  unfold readLe
  exact Outcome.errs_bind P _ _ (errs_readArray P _ b lo hi) fun _ _ => Outcome.errs_ok P _

/-- An integer that was read lies inside the buffer. -/
theorem le_of_readLe (b : Bytes) (lo hi : Nat) (x : α)
    (h : (readLe α b lo hi : Outcome ε α) = .ok x) : hi ≤ b.length := by
  unfold readLe readArray at h
  simp only [Outcome.bind_eq_ok_iff] at h
  rcases h with ⟨_, ⟨s, hslice, _⟩, _⟩
  unfold slice at hslice
  by_cases hin : lo ≤ hi ∧ hi ≤ b.length
  · exact hin.2
  · rw [if_neg hin] at hslice
    cases hslice

theorem readArray_eq (n : Nat) (b : Bytes) (lo hi : Nat) (h : hi ≤ b.length) (hn : lo + n = hi) :
    (readArray n b lo hi : Outcome ε (Octets n))
      = .ok ⟨cut b lo hi, by rw [length_cut_of_le _ _ _ h]; omega⟩ := by
  unfold readArray
  rw [slice_eq _ _ _ (by omega) h, Outcome.ok_bind, dif_pos]

theorem readLe_eq (b : Bytes) (lo hi : Nat) (h : hi ≤ b.length)
    (hw : lo + LeWord.width α = hi) :
    (readLe α b lo hi : Outcome ε α) = .ok (fromLe α (cut b lo hi)) := by
  unfold readLe
  rw [readArray_eq _ _ _ _ h hw, Outcome.ok_bind]

end LeWord

theorem toNat_ofNat64 (n : Nat) (h : n < 2 ^ 64) : (UInt64.ofNat n).toNat = n :=
  UInt64.toNat_ofNat_of_lt h

theorem toNat_ofNat32 (n : Nat) (h : n < 2 ^ 32) : (UInt32.ofNat n).toNat = n :=
  UInt32.toNat_ofNat_of_lt h

theorem toNat_ofNat16 (n : Nat) (h : n < 2 ^ 16) : (UInt16.ofNat n).toNat = n :=
  UInt16.toNat_ofNat_of_lt h

@[simp] theorem width_uint16 : LeWord.width UInt16 = 2 := rfl

@[simp] theorem width_uint32 : LeWord.width UInt32 = 4 := rfl

@[simp] theorem width_uint64 : LeWord.width UInt64 = 8 := rfl

@[simp] theorem width_int64 : LeWord.width Int64 = 8 := rfl

end Lib
