import SkegHull.Scrub.Section
import SkegHull.Burst
import SkegHull.Lib.CrcDistance
import Mathlib.NumberTheory.LucasLehmer

/-!
# Scattered Errors

What the trailing checksum is worth against damage that is not in one place. Any one,
two or three flipped bits of a file below 256 MiB are found, wherever they are, and so
is any odd number of flipped bits in a file of any size. Both readers then fail at the
trailer.

`Lib.Crc` has the theory. What is particular to CRC-32C is its polynomial: it has an
even number of terms, one of which the register leaves out, so steps keep the parity,
and the register of a single bit comes back to itself after `2 ^ 31 - 1` steps, a prime,
and not before (`castagnoli_period`). The bound on the size of the file is this period,
in bytes. It cannot be dropped: two bits that far apart, or any multiple of it, are taken
for no damage at all, and these are the only pairs (`pair_detected_iff`).

## Main definitions

* `bitDistance`: The number of bits in which two byte strings differ.
* `flipBit`, `flipBits`: A byte string with one bit, or several, the other way.

## Theorems

* `castagnoli_period`: How far a single bit goes before it comes back.
* `run_distance`: Byte strings with one checksum differ in four bits.
* `flips_detected`: Few flipped bits, or an odd number, are reported by both readers.
* `pair_detected_iff`: Which pairs of flipped bits are.
-/

namespace SkegHull

open Lib

/-- In how many bits two byte strings of one length differ. -/
def bitDistance (a b : Bytes) : Nat := Crc.distance (Crc.bits (symbols a)) (Crc.bits (symbols b))

/-- A byte string with one bit the other way. Bits are counted from the lowest of the
    first byte. -/
def flipBit (data : Bytes) (i : Nat) : Bytes :=
  data.modify (i / 8) (· ^^^ (1 <<< UInt8.ofNat (i % 8)))

theorem parity_castagnoliPoly : Crc.parity (Crc.bitsOf castagnoliPoly) = true := by decide

/-- The period of the register, which a prime number of steps brings back. -/
theorem castagnoli_period :
    Function.minimalPeriod (Crc.shift castagnoliPoly) 1#32 = 2 ^ 31 - 1 := by
  have hprime : Fact (2 ^ 31 - 1).Prime :=
    ⟨lucas_lehmer_sufficiency 31 (by norm_num) (by norm_num)⟩
  -- The highest bit comes back, and the lowest is where it goes on its way.
  have htop : Function.IsPeriodicPt (Crc.shift castagnoliPoly) (2 ^ 31 - 1)
      (BitVec.twoPow 32 (32 - 1)) := by
    have hsquare : (fun s => Crc.shift castagnoliPoly (Crc.square castagnoliPoly s))^[31]
        (BitVec.twoPow 32 (32 - 1)) = BitVec.twoPow 32 (32 - 1) := by decide +kernel
    rw [Crc.square_iterate] at hsquare
    exact hsquare
  have hlow : (Crc.shift castagnoliPoly)^[31] (BitVec.twoPow 32 (32 - 1)) = 1#32 := by
    decide +kernel
  have hperiod := htop.apply_iterate 31
  rw [hlow] at hperiod
  exact Function.minimalPeriod_eq_prime hperiod (by decide)

/-- The register every checksum starts from. -/
def startRegister : BitVec 32 := (~~~ (0 : UInt32)).toBitVec

theorem run_symbols (s : BitVec 32) (data : Bytes) :
    Crc.run castagnoliPoly s (symbols data)
      = Crc.stream castagnoliPoly s (Crc.bits (symbols data)) :=
  Crc.run_eq_stream castagnoliPoly (by decide) s (symbols data)

theorem length_bits_symbols (data : Bytes) :
    (Crc.bits (symbols data)).length = 8 * data.length := by
  rw [Crc.length_bits, length_symbols]

/-- Two byte strings that leave one register differ in an even number of bits, and in
    four of them at least, if they differ and are not longer than the period. -/
theorem run_distance (a b : Bytes) (hlen : a.length = b.length)
    (h : Crc.run castagnoliPoly startRegister (symbols a)
      = Crc.run castagnoliPoly startRegister (symbols b)) :
    Even (bitDistance a b) ∧ (a ≠ b → a.length < 2 ^ 28 → 4 ≤ bitDistance a b) := by
  have hbits : (Crc.bits (symbols a)).length = (Crc.bits (symbols b)).length := by
    rw [length_bits_symbols, length_bits_symbols, hlen]
  rw [run_symbols, run_symbols] at h
  refine ⟨Crc.even_distance castagnoliPoly parity_castagnoliPoly (by decide) _ _ _ hbits h,
    fun hne hshort => ?_⟩
  refine Crc.four_le_distance castagnoliPoly castagnoliPoly_msb parity_castagnoliPoly _ _ _ hbits
    ?_ h fun heq => ?_
  · rw [castagnoli_period, length_bits_symbols]
    omega
  · exact hne (symbols_injective
      (Crc.bits_injective _ _ (by rw [length_symbols, length_symbols, hlen]) heq))

@[simp] theorem length_flipBit (data : Bytes) (i : Nat) : (flipBit data i).length = data.length :=
  List.length_modify ..

theorem bits_flipBit (data : Bytes) (i : Nat) :
    Crc.bits (symbols (flipBit data i)) = (Crc.bits (symbols data)).modify i not := by
  have hsymbols : symbols (flipBit data i) = Crc.flip (symbols data) i := by
    unfold symbols flipBit Crc.flip
    apply List.ext_getElem?
    intro p
    have hbit : (1 <<< UInt8.ofNat (i % 8) : UInt8).toBitVec = BitVec.twoPow 8 (i % 8) := by
      have hi := Nat.mod_lt i (by decide : 0 < 8)
      generalize i % 8 = place at hi ⊢
      revert place
      decide
    rw [List.getElem?_map, List.getElem?_modify, List.getElem?_modify, List.getElem?_map]
    by_cases hp : i / 8 = p
    · simp only [if_pos hp]
      cases data[p]? with
      | none => rfl
      | some b =>
          simp only [Option.map_some, Option.map_eq_map, UInt8.toBitVec_xor, hbit]
    · simp only [if_neg hp]
      cases data[p]? <;> rfl
  rw [hsymbols, Crc.bits_flip _ _ (by decide)]

/-- A byte string with some bits the other way. -/
def flipBits (data : Bytes) (places : List Nat) : Bytes :=
  places.foldr (fun i data => flipBit data i) data

@[simp] theorem length_flipBits (data : Bytes) (places : List Nat) :
    (flipBits data places).length = data.length := by
  induction places with
  | nil => rfl
  | cons i places ih => rw [flipBits, List.foldr_cons, length_flipBit, ← flipBits, ih]

theorem bits_flipBits (data : Bytes) (places : List Nat) :
    Crc.bits (symbols (flipBits data places)) = Crc.flips (Crc.bits (symbols data)) places := by
  induction places with
  | nil => rfl
  | cons i places ih =>
      rw [flipBits, List.foldr_cons, bits_flipBit, ← flipBits, ih]
      rfl

/-- Flipping different bits makes that many of them differ. -/
theorem bitDistance_flipBits (data : Bytes) (places : List Nat) (hnodup : places.Nodup)
    (hlt : ∀ i ∈ places, i < 8 * data.length) :
    bitDistance data (flipBits data places) = places.length := by
  rw [bitDistance, bits_flipBits]
  exact Crc.distance_flips _ places hnodup fun i hi => by
    rw [length_bits_symbols]
    exact hlt i hi

section

variable (crate : Crc32cCrate) (hs : crate.Standard)

include hs

/-- Two byte strings with one checksum leave one register. -/
theorem run_of_crc32c_eq (a b : Bytes) (h : crate.crc32c a = crate.crc32c b) :
    Crc.run castagnoliPoly startRegister (symbols a)
      = Crc.run castagnoliPoly startRegister (symbols b) := by
  rw [hs, hs] at h
  rw [startRegister, ← register_toBitVec, ← register_toBitVec]
  exact congrArg UInt32.toBitVec (UInt32.not_inj.mp h)

/-- So do two files whose trailers are right. -/
theorem run_of_trailerOk (a b : Bytes) (ha : 4 ≤ a.length) (hb : 4 ≤ b.length)
    (hta : TrailerOk crate a) (htb : TrailerOk crate b) :
    Crc.run castagnoliPoly startRegister (symbols a)
      = Crc.run castagnoliPoly startRegister (symbols b) := by
  rw [trailerOk_iff_residue crate hs _ ha] at hta
  rw [trailerOk_iff_residue crate hs _ hb] at htb
  exact hta.trans htb.symm

end

/-- When the checksum is CRC-32C, an odd number of flipped bits of a file whose trailer
    was right makes both readers report a bad file checksum, and so do up to three
    flipped bits of a file below 256 MiB. -/
theorem flips_detected (crate : Crc32cCrate) (hs : crate.Standard) (build : Build)
    (all all' : Bytes) (h68 : 68 ≤ all.length)
    (ht : TrailerOk crate all) (hlen : all'.length = all.length)
    (hflips : Odd (bitDistance all all') ∨
      0 < bitDistance all all' ∧ bitDistance all all' < 4 ∧ all.length < 2 ^ 28)
    (r : Stream) (hb : r.Benign) (hr : r.bytes = all') :
    readSaga crate build r = .err .fileChecksumFailed ∧
    readKvCache crate build r = .err .fileChecksumFailed := by
  have hbad : ¬ TrailerOk crate all' := by
    intro ht'
    rcases run_distance all all' hlen.symm
      (run_of_trailerOk crate hs all all' (by omega) (by omega) ht ht') with ⟨heven, hfour⟩
    rcases hflips with hodd | ⟨hpos, hfew, hsmall⟩
    · exact Nat.not_even_iff_odd.mpr hodd heven
    · have hne : all ≠ all' := by
        rintro rfl
        rw [bitDistance, (Crc.distance_eq_zero_iff _ _ rfl).mpr rfl] at hpos
        exact absurd hpos (by decide)
      have hfour' := hfour hne hsmall
      omega
  rw [← hr] at hbad hlen
  exact ⟨readSaga_not_trailerOk crate build r hb (by omega) hbad,
    readKvCache_not_trailerOk crate build r hb (by omega) hbad⟩

/-- Three bits of a written saga are flipped, far from each other. -/
theorem flips_detected_sample :
    let damaged := Stream.ofBytes (flipBits sampleSagaFile [161, 700, 1211])
    readSaga castagnoli .release damaged = .err .fileChecksumFailed ∧
    readKvCache castagnoli .release damaged = .err .fileChecksumFailed := by
  have hlen : sampleSagaFile.length = 152 + _ :=
    Container.length_image castagnoli sagaSectionIds sampleSaga.container
  have hthree : bitDistance sampleSagaFile (flipBits sampleSagaFile [161, 700, 1211]) = 3 :=
    bitDistance_flipBits _ _ (by decide) fun i hi => by
      simp only [List.mem_cons, List.not_mem_nil, or_false] at hi
      omega
  exact flips_detected castagnoli (fun _ => rfl) .release sampleSagaFile _ (by omega)
    (Container.trailerOk_image castagnoli sagaSectionIds sampleSaga.container)
    (length_flipBits _ _) (Or.inl (by rw [hthree]; decide)) _ (Stream.benign_ofBytes _) rfl

/-- Two flipped bits of a file whose trailer was right leave it right exactly when the
    period divides the distance of the two. For any other two, both readers report a
    bad file checksum. -/
theorem pair_detected_iff (crate : Crc32cCrate) (hs : crate.Standard) (build : Build)
    (all : Bytes) (h68 : 68 ≤ all.length) (ht : TrailerOk crate all)
    (i j : Nat) (hij : i < j) (hj : j < 8 * all.length)
    (r : Stream) (hb : r.Benign) (hr : r.bytes = flipBit (flipBit all i) j) :
    (TrailerOk crate r.bytes ↔ 2 ^ 31 - 1 ∣ j - i) ∧
    (¬ 2 ^ 31 - 1 ∣ j - i →
      readSaga crate build r = .err .fileChecksumFailed ∧
      readKvCache crate build r = .err .fileChecksumFailed) := by
  have hlen : r.bytes.length = all.length := by rw [hr, length_flipBit, length_flipBit]
  have hiff : TrailerOk crate r.bytes ↔ 2 ^ 31 - 1 ∣ j - i := by
    rw [trailerOk_iff_residue crate hs _ (by omega),
      ← (trailerOk_iff_residue crate hs _ (by omega)).mp ht, run_symbols, run_symbols, hr,
      bits_flipBit, bits_flipBit, ← castagnoli_period]
    exact Crc.stream_flips_iff castagnoliPoly castagnoliPoly_msb _ _ i j hij
      (by rw [length_bits_symbols]; exact hj)
  refine ⟨hiff, fun hgap => ?_⟩
  have hbad := mt hiff.mp hgap
  exact ⟨readSaga_not_trailerOk crate build r hb (by omega) hbad,
    readKvCache_not_trailerOk crate build r hb (by omega) hbad⟩

/-- Two bits of a written saga are flipped, one in the header and one in the table. -/
theorem pair_detected_iff_sample :
    let damaged := Stream.ofBytes (flipBit (flipBit sampleSagaFile 161) 1000)
    readSaga castagnoli .release damaged = .err .fileChecksumFailed ∧
    readKvCache castagnoli .release damaged = .err .fileChecksumFailed := by
  have hlen : sampleSagaFile.length = 152 + _ :=
    Container.length_image castagnoli sagaSectionIds sampleSaga.container
  exact (pair_detected_iff castagnoli (fun _ => rfl) .release sampleSagaFile (by omega)
    (Container.trailerOk_image castagnoli sagaSectionIds sampleSaga.container) 161 1000 (by decide)
    (by omega) _ (Stream.benign_ofBytes _) rfl).2 (by decide)

end SkegHull
