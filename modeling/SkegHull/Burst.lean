import SkegHull.Lib.Crc
import SkegHull.Saga.RoundTrip
import SkegHull.KvCache.File

/-!
# Burst Errors

What the trailing checksum is worth when it is the standard CRC-32C. Damage that
stays inside four consecutive bytes of a file is always found, wherever the four
bytes are: in the header, the table, a payload, the trailer, or across the end of
the body. Both readers then fail at the trailer, before they look at anything
else.

The general theory is `Lib.Crc`, over bit vectors. What is done here is to say
that `castagnoli` is an instance of it (`register_toBitVec`) and that the trailer,
stored little-endian and complemented, is right exactly when the register over
the whole file ends at the residue (`trailerOk_iff_residue`). The little-endian
order matters there: it is the order in which the register takes the bytes in, so
the stored checksum and the register line up bit for bit.

## Main definitions

* `Crc32cCrate.Standard`: The crate computes CRC-32C.
* `Burst`: Two files of one length that differ inside four consecutive bytes.

## Theorems

* `trailerOk_iff_residue`: The trailer is right when the register ends at the
  residue.
* `burst_detected`: A burst is reported by both readers.
-/

namespace SkegHull

open Lib

/-- The crate computes the standard CRC-32C. -/
def Crc32cCrate.Standard (crate : Crc32cCrate) : Prop :=
  ∀ data, crate.crc32c data = castagnoli.crc32c data

/-- The two files have one length, and differ, but only inside four consecutive
    bytes. -/
structure Burst (all all' : Bytes) : Prop where
  length : all'.length = all.length
  differ : all' ≠ all
  window : ∃ start, start + 4 ≤ all.length ∧
    ∀ i, i < start ∨ start + 4 ≤ i → all'[i]? = all[i]?

/-- Both files are the same bytes in front of a window of four, and behind it. -/
theorem Burst.split (all all' : Bytes) (hb : Burst all all') :
    ∃ front back found damaged : Bytes, all = front ++ (found ++ back) ∧
      all' = front ++ (damaged ++ back) ∧ found.length = 4 ∧ damaged.length = 4 ∧
      damaged ≠ found := by
  rcases hb.window with ⟨start, hstart, hsame⟩
  have hlen := hb.length
  have hfront : all'.take start = all.take start := by
    apply List.ext_getElem?
    intro i
    by_cases hi : i < start
    · rw [List.getElem?_take_of_lt hi, List.getElem?_take_of_lt hi, hsame i (Or.inl hi)]
    · rw [List.getElem?_eq_none (by rw [List.length_take]; omega),
        List.getElem?_eq_none (by rw [List.length_take]; omega)]
  have hback : all'.drop (start + 4) = all.drop (start + 4) := by
    apply List.ext_getElem?
    intro i
    rw [List.getElem?_drop, List.getElem?_drop, hsame _ (Or.inr (by omega))]
  have hsplit : ∀ b : Bytes,
      b = b.take start ++ (cut b start (start + 4) ++ b.drop (start + 4)) := by
    intro b
    rw [← List.append_assoc, ← cut_zero, cut_append_cut _ _ _ _ (Nat.zero_le _) (by omega),
      cut_zero, List.take_append_drop]
  have hwindow : ∀ b : Bytes, b.length = all.length → (cut b start (start + 4)).length = 4 := by
    intro b hl
    rw [length_cut_of_le _ _ _ (by omega)]
    omega
  refine ⟨all.take start, all.drop (start + 4), cut all start (start + 4),
    cut all' start (start + 4), hsplit all, ?_, hwindow all rfl, hwindow all' hlen,
    fun heq => hb.differ ?_⟩
  · rw [← hfront, ← hback]
    exact hsplit all'
  -- With one window, too, the files would be the same.
  · rw [hsplit all', hsplit all, hfront, hback, heq]

/-! ### CRC-32C over bit vectors -/

/-- The reflected polynomial. -/
def castagnoliPoly : BitVec 32 := 0x82F63B78#32

theorem castagnoliPoly_msb : castagnoliPoly.msb = true := by decide

/-- The bits of a byte string, byte by byte. -/
def symbols (data : Bytes) : List (BitVec 8) := data.map UInt8.toBitVec

@[simp] theorem length_symbols (data : Bytes) : (symbols data).length = data.length :=
  List.length_map _

@[simp] theorem symbols_append (a b : Bytes) : symbols (a ++ b) = symbols a ++ symbols b :=
  List.map_append

theorem symbols_injective : Function.Injective symbols :=
  List.map_injective_iff.mpr fun _ _ h => UInt8.toBitVec_inj.mp h

/-- The low bit of a word, as the code asks for it. -/
theorem and_one_eq_one_iff (c : UInt32) : c &&& 1 = 1 ↔ c.toBitVec.getLsbD 0 = true := by
  rw [← UInt32.toBitVec_inj, UInt32.toBitVec_and]
  change c.toBitVec &&& 1#32 = 1#32 ↔ _
  rw [BitVec.and_one_eq_setWidth_ofBool_getLsbD]
  cases c.toBitVec.getLsbD 0 <;> decide

theorem castagnoliBit_toBitVec (c : UInt32) :
    (castagnoliBit c).toBitVec = Crc.shift castagnoliPoly c.toBitVec := by
  unfold castagnoliBit Crc.shift
  by_cases h : c &&& 1 = 1
  · rw [if_pos h, if_pos ((and_one_eq_one_iff c).mp h)]
    rfl
  · rw [if_neg h, if_neg fun hc => h ((and_one_eq_one_iff c).mpr hc)]
    rfl

/-- Eight turns of the code's loop are eight shifts. -/
theorem castagnoliByte_toBitVec (c : UInt32) (b : UInt8) :
    (castagnoliByte c b).toBitVec = Crc.feed castagnoliPoly c.toBitVec b.toBitVec := by
  have hloop : ∀ (n : Nat) (c : UInt32),
      ((List.range n).foldl (fun c _ => castagnoliBit c) c).toBitVec
        = (Crc.shift castagnoliPoly)^[n] c.toBitVec := by
    intro n
    induction n with
    | zero =>
        intro c
        rfl
    | succ n ih =>
        intro c
        rw [List.range_succ, List.foldl_append, List.foldl_cons, List.foldl_nil,
          castagnoliBit_toBitVec, ih, Function.iterate_succ_apply']
  unfold castagnoliByte Crc.feed
  rw [hloop, UInt32.toBitVec_xor, UInt8.toBitVec_toUInt32]

/-- The code's register is the library's. -/
theorem register_toBitVec (data : Bytes) (c : UInt32) :
    (data.foldl castagnoliByte c).toBitVec
      = Crc.run castagnoliPoly c.toBitVec (symbols data) := by
  induction data generalizing c with
  | nil => rfl
  | cons b data ih =>
      rw [List.foldl_cons, ih, castagnoliByte_toBitVec]
      rfl

/-- A little-endian numeral is the register its bytes spell. -/
theorem word_symbols (w : Nat) (data : Bytes) (h : 8 * data.length ≤ w) :
    (Crc.word w (symbols data)).toNat = leNat data := by
  induction data with
  | nil => simp [symbols, Crc.word]
  | cons x data ih =>
      rw [List.length_cons] at h
      have hx := x.toNat_lt
      have hrest := leNat_lt data
      have hpow : leNat data * 2 ^ 8 < 2 ^ w := by
        calc leNat data * 2 ^ 8 < 256 ^ data.length * 2 ^ 8 :=
              Nat.mul_lt_mul_of_pos_right hrest (by decide)
          _ = 2 ^ (8 * data.length + 8) := by rw [Nat.pow_add, Nat.pow_mul]
          _ ≤ 2 ^ w := Nat.pow_le_pow_right (by decide) (by omega)
      have hlow : x.toNat < 2 ^ w := lt_of_lt_of_le hx (Nat.pow_le_pow_right (by decide) (by omega))
      -- The first byte and the others occupy different bits, so adding is `xor`.
      have hdisjoint : x.toNat ^^^ leNat data * 2 ^ 8 = 2 ^ 8 * leNat data + x.toNat := by
        rw [Nat.mul_comm (leNat data)]
        apply Nat.eq_of_testBit_eq
        intro i
        rw [Nat.testBit_xor, Nat.testBit_two_pow_mul_add _ hx, Nat.testBit_two_pow_mul]
        by_cases hi : i < 8
        · simp [hi, show ¬ 8 ≤ i by omega]
        · have hzero : x.toNat.testBit i = false := by
            apply Nat.testBit_lt_two_pow
            exact lt_of_lt_of_le hx (Nat.pow_le_pow_right (by decide) (by omega))
          simp [hi, hzero, show 8 ≤ i by omega]
      have htail := ih (by omega)
      simp only [symbols] at htail
      simp only [symbols, List.map_cons, Crc.word, BitVec.toNat_xor, BitVec.toNat_setWidth,
        BitVec.toNat_shiftLeft, Nat.shiftLeft_eq, htail]
      rw [Nat.mod_eq_of_lt hpow, UInt8.toNat_toBitVec, Nat.mod_eq_of_lt hlow, hdisjoint, leNat_cons]
      omega

/-- Four stored bytes, as the integer the reader makes of them. -/
theorem fromLe_toBitVec (data : Bytes) (h : data.length = 4) :
    (fromLe UInt32 data).toBitVec = Crc.word 32 (symbols data) := by
  apply BitVec.eq_of_toNat_eq
  have hlt := leNat_lt data
  rw [h] at hlt
  rw [word_symbols 32 data (by omega), UInt32.toNat_toBitVec]
  exact UInt32.toNat_ofNat_of_lt hlt

/-! ### The trailer -/

section

variable (crate : Crc32cCrate) (hs : crate.Standard)

include hs

/-- The trailer is right exactly when the register over the whole file ends at
    the residue. -/
theorem trailerOk_iff_residue (all : Bytes) (h4 : 4 ≤ all.length) :
    TrailerOk crate all ↔
      Crc.run castagnoliPoly (~~~ (0 : UInt32)).toBitVec (symbols all)
        = Crc.residue castagnoliPoly := by
  have hstored : (cut all (all.length - 4) all.length).length = 4 := by
    rw [length_cut_of_le _ _ _ (le_refl _)]
    omega
  have hsplit : symbols all
      = symbols (bodyOf all) ++ symbols (cut all (all.length - 4) all.length) := by
    rw [← symbols_append, bodyOf, ← cut_zero, cut_append_cut _ _ _ _ (Nat.zero_le _) (by omega),
      cut_exact _ _ rfl]
  rw [hsplit, Crc.run_append_eq_residue_iff castagnoliPoly castagnoliPoly_msb _ _ _
    (by rw [length_symbols, hstored]), ← fromLe_toBitVec _ hstored, ← register_toBitVec,
    ← UInt32.toBitVec_not, UInt32.toBitVec_inj, TrailerOk, hs]
  rfl

/-- A burst breaks the trailer. -/
theorem not_trailerOk_of_burst (all all' : Bytes) (h4 : 4 ≤ all.length) (ht : TrailerOk crate all)
    (hb : Burst all all') : ¬ TrailerOk crate all' := by
  intro ht'
  have hlen := hb.length
  rw [trailerOk_iff_residue crate hs _ h4] at ht
  rw [trailerOk_iff_residue crate hs _ (by omega), ← ht] at ht'
  rcases hb.split with ⟨front, back, found, damaged, rfl, rfl, hfound, hdamaged, hne⟩
  simp only [symbols_append] at ht'
  -- The window is as wide as the register, so equal registers mean equal windows.
  have heq := Crc.run_burst castagnoliPoly castagnoliPoly_msb _ _ _ _ _
    (by rw [length_symbols, length_symbols, hdamaged, hfound])
    (by rw [length_symbols, hdamaged]) ht'
  exact hne (symbols_injective heq)

/-- When the checksum is CRC-32C, damage inside four consecutive bytes of a file
    whose trailer was right makes both readers report a bad file checksum. -/
theorem burst_detected (build : Build) (all all' : Bytes) (h68 : 68 ≤ all.length)
    (ht : TrailerOk crate all) (hburst : Burst all all') (r : Stream) (hb : r.Benign)
    (hr : r.bytes = all') :
    readSaga crate build r = .err .fileChecksumFailed ∧
    readKvCache crate build r = .err .fileChecksumFailed := by
  have hbad := not_trailerOk_of_burst crate hs all all' (by omega) ht hburst
  have hlen := hburst.length
  rw [← hr] at hbad hlen
  exact ⟨readSaga_not_trailerOk crate build r hb (by omega) hbad,
    readKvCache_not_trailerOk crate build r hb (by omega) hbad⟩

end

/-- One byte of the creation time of a written saga is damaged. -/
theorem burst_detected_sample :
    let damaged := Stream.ofBytes
      ((sampleSaga.container.image castagnoli sagaSectionIds).set 20 0xff)
    readSaga castagnoli .release damaged = .err .fileChecksumFailed ∧
    readKvCache castagnoli .release damaged = .err .fileChecksumFailed := by
  have hlen : (sampleSaga.container.image castagnoli sagaSectionIds).length = 152 + _ :=
    Container.length_image castagnoli sagaSectionIds sampleSaga.container
  refine burst_detected castagnoli (fun _ => rfl) .release
    (sampleSaga.container.image castagnoli sagaSectionIds) _ (by omega)
    (Container.trailerOk_image castagnoli sagaSectionIds sampleSaga.container)
    ⟨List.length_set, fun heq => ?_, 20, by omega, fun i hi => ?_⟩ _ (Stream.benign_ofBytes _) rfl
  · have hbyte := congrArg (fun b : Bytes => b[20]?) heq
    rw [List.getElem?_set_self (by omega)] at hbyte
    revert hbyte
    decide
  · exact List.getElem?_set_ne (by omega)

end SkegHull
