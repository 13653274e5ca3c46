import SkegHull.KvCache.File

/-!
# When the KV Cache Reader Panics, and What It Accepts

The header, the identity section and the shape section decode safely on any
bytes. Two places do not. The blob decoder adds 64-bit lengths from the file,
which is `Blob.Fits`, and the size check multiplies the dimensions of the shape
and divides by its group size, which is `KvCacheShape.SizeFits`. The reader is
safe in every build exactly when both hold where they are reached:
`readKvCache_safe_iff`.

A release build does not stop at an overflowing size. It compares the length of
the blob with the residue, so a file is accepted whose shape calls for `2 ^ 64`
bytes more than the blob holds. `readKvCache_size_iff` says that for an accepted
unquantized file the check means what it says exactly when the declared size
is below `2 ^ 64`.

`zeroGroupCache` and `wrappingCache` are two files with valid checksums that show
the two failures.

## Main definitions

* `KvArithmeticFits`: The unguarded arithmetic fits where it is reached.
* `DeclaredSizeFits`: The size the shape section declares is a 64-bit number.

## Theorems

* `readKvCache_safe_iff`: The reader is safe in every build exactly when the
  arithmetic fits.
* `readKvCache_size_iff`: The blob of an accepted file has the declared size
  exactly when that size is a 64-bit number.
-/

namespace SkegHull

open Lib

/-- If the file passes every check in front of the blob decoder, the lengths in
    its blob section fit, and if moreover that section is well formed, so does the
    size its shape section declares. -/
def KvArithmeticFits (crate : Crc32cCrate) (all : Bytes) : Prop :=
  ∀ header i s b, Opened crate kvCacheV1 kvSectionIds all header i s b →
    i.Intact crate all → s.Intact crate all → b.Intact crate all →
    ∀ identity shape, Identity.decode .release (i.payload all) = .ok identity →
      KvCacheShape.decode (s.payload all) = .ok shape →
      Blob.Fits (b.payload all) ∧
        ∀ kv logits, Blob.encode kv logits = b.payload all → shape.SizeFits

section

variable (crate : Crc32cCrate) (r : Stream)

/-- The reader is safe when the unguarded arithmetic fits where it is
    reached. -/
theorem readKvCache_safe (build : Build) (hb : r.Benign) (hlen : r.bytes.length < 2 ^ 63)
    (hf : KvArithmeticFits crate r.bytes) : (readKvCache crate build r).Safe := by
  unfold readKvCache kvCacheOfSections
  rw [slurp_benign r hb, Outcome.ok_bind]
  refine Outcome.safe_bind _ _ (openBody_safe crate build _ _) fun header hopen => ?_
  have h68 := ((openBody_eq_ok_iff crate build _ _ _).mp hopen).1
  have hread := fun entry payload => (readChecked_eq_ok_iff crate build r.bytes entry payload
    (by omega) (by omega)).mp
  have hsafe : ∀ entry, (readChecked crate build r.bytes entry).Safe :=
    fun entry => readChecked_safe crate build r.bytes entry (by omega) (by omega)
  refine Outcome.safe_bind _ _ (requireSections_safe _ _) ?_
  -- From here on the sections are the ones the condition speaks about.
  rintro ⟨i, s, b⟩ hsections
  have ho := (opened_iff crate build kvCacheV1 _ _ header i s b).mpr ⟨hopen, hsections⟩
  refine Outcome.safe_bind _ _ (hsafe i) fun ib hib => ?_
  refine Outcome.safe_bind _ _ (Identity.decode_safe build ib) fun identity hid => ?_
  refine Outcome.safe_bind _ _ (hsafe s) fun sb hsb => ?_
  refine Outcome.safe_bind _ _ (KvCacheShape.decode_safe sb) fun shape hshape => ?_
  refine Outcome.safe_bind _ _ (hsafe b) fun bb hbb => ?_
  -- A section that was read is intact, and what was read is its payload.
  rcases hread i ib hib with ⟨hi, rfl⟩
  rcases hread s sb hsb with ⟨hs, rfl⟩
  rcases hread b bb hbb with ⟨hbl, rfl⟩
  rw [Identity.decode_build build _ .release] at hid
  rcases hf header i s b ho hi hs hbl identity shape hid hshape with ⟨hblob, hsize⟩
  have hpayload : (b.payload r.bytes).length < 2 ^ 63 :=
    lt_of_le_of_lt (length_payload_le b r.bytes) hlen
  refine Outcome.safe_bind _ _ ((Blob.decode_safe_iff _ hpayload).mpr hblob build) ?_
  rintro ⟨kv, logits⟩ hdecoded
  have hfits := hsize kv logits ((Blob.decode_eq_ok_iff build _ hpayload kv logits).mp hdecoded)
  refine Outcome.safe_bind _ _ ?_ fun expected _ => ?_
  · exact (KvCacheShape.expectedBlobBytes_safe_iff shape).mpr hfits build
  · exact Outcome.safe_bind _ _ (safe_failIf _ _) fun _ _ => Outcome.safe_ok _

/-- Reading a KV cache is safe in every build exactly when the arithmetic on the
    lengths of the blob and on the dimensions of the shape fits, as far as it is
    reached. Allocations are taken to succeed, that for the announced table included. -/
theorem readKvCache_safe_iff (hb : r.Benign) (hlen : r.bytes.length < 2 ^ 63) :
    (∀ build, (readKvCache crate build r).Safe) ↔ KvArithmeticFits crate r.bytes := by
  refine ⟨fun hsafe => ?_, fun hf build => readKvCache_safe crate r build hb hlen hf⟩
  intro header i s b ho hi hs hbl identity shape hid hshape
  have hpayload : (b.payload r.bytes).length < 2 ^ 63 :=
    lt_of_le_of_lt (length_payload_le b r.bytes) hlen
  -- The condition speaks about a file that gets as far as the section decoders.
  have hsections : ∀ build, (decodeKvSections build (i.payload r.bytes) (s.payload r.bytes)
      (b.payload r.bytes)).Safe := by
    intro build
    rw [← readKvCache_opened crate build r hb (by omega) header i s b ⟨ho, hi, hs, hbl⟩]
    exact hsafe build
  have hid' : ∀ build, Identity.decode build (i.payload r.bytes) = .ok identity := by
    intro build
    rw [Identity.decode_build build _ .release, hid]
  constructor
  -- A panic of a decoder is a panic of the reader.
  · refine (Blob.decode_safe_iff _ hpayload).mp fun build => ?_
    have h := hsections build
    unfold decodeKvSections at h
    rw [hid' build, Outcome.ok_bind, hshape, Outcome.ok_bind, Outcome.safe_bind_iff] at h
    exact h.1
  · intro kv logits hencode
    refine (KvCacheShape.expectedBlobBytes_safe_iff (ε := Error) shape).mp fun build => ?_
    have hdecoded := (Blob.decode_eq_ok_iff build _ hpayload kv logits).mpr hencode
    have h := hsections build
    rw [decodeKvSections_eq build _ _ _ identity shape kv logits (hid' build) hshape hdecoded,
      Outcome.safe_bind_iff] at h
    exact h.1

end

/-! ### A group size of zero -/

/-- A well formed cache with group size zero. -/
def zeroGroupCache : KvCache where
  modelFp := Octets.zero 32
  adapterId := none
  prefixHash := Octets.zero 32
  shape := {
    numLayers := 1
    nKvHeads := 1
    headDim := 8
    numTokens := 1
    dtype := .bf16
    layout := .contiguous
    quant := some ⟨0, 4⟩ }
  kvMeta := ⟨0, 1, "m"⟩
  kvBlob := []
  nextLogits := none

/-- The file it is written to. -/
def zeroGroupFile : Bytes := zeroGroupCache.container.image castagnoli kvSectionIds

theorem zeroGroupCache_fits : zeroGroupCache.container.Fits := by
  rw [Container.Fits, KvCache.payloadLen_container]
  decide

theorem readKvCache_safe_iff_zeroGroup :
    (∀ build, (readKvCache castagnoli build (Stream.ofBytes zeroGroupFile)).Safe)
      ↔ KvArithmeticFits castagnoli zeroGroupFile :=
  readKvCache_safe_iff castagnoli (Stream.ofBytes zeroGroupFile) (Stream.benign_ofBytes _)
    (Container.length_image_lt castagnoli kvSectionIds _ zeroGroupCache_fits)

/-- The reader divides by zero, in both builds. -/
theorem readKvCache_panics_zeroGroup :
    ¬ (readKvCache castagnoli .debug (Stream.ofBytes zeroGroupFile)).Safe ∧
    ¬ (readKvCache castagnoli .release (Stream.ofBytes zeroGroupFile)).Safe := by
  have hpanic : ∀ build, ¬ (readKvCache castagnoli build (Stream.ofBytes zeroGroupFile)).Safe := by
    intro build
    -- The product is not zero, so the division is reached and fails in either build.
    have hsize : (zeroGroupCache.shape.expectedBlobBytes build : Outcome Error Nat)
        = .panic .divideByZero := by
      cases build <;> rfl
    rw [readKvCache_container castagnoli build zeroGroupCache (by decide) zeroGroupCache_fits
      (Stream.ofBytes zeroGroupFile) (Stream.benign_ofBytes _) rfl, hsize, Outcome.panic_bind]
    exact Outcome.not_safe_panic _
  exact ⟨hpanic .debug, hpanic .release⟩

/-! ### A size that wraps -/

/-- The size the shape section of an unquantized file declares is a 64-bit
    number. -/
def DeclaredSizeFits (crate : Crc32cCrate) (all : Bytes) : Prop :=
  ∀ header i s b, Opened crate kvCacheV1 kvSectionIds all header i s b →
    ∀ shape, KvCacheShape.decode (s.payload all) = .ok shape → shape.plainBytes < 2 ^ 64

/-- For a file that a release build accepts as unquantized, the blob has the size
    the dimensions call for exactly when the declared size is a 64-bit
    number. -/
theorem readKvCache_size_iff (crate : Crc32cCrate) (r : Stream) (hb : r.Benign)
    (hlen : r.bytes.length < 2 ^ 63) (c : KvCache)
    (hread : readKvCache crate .release r = .ok c) (hquant : c.shape.quant = none) :
    c.kvBlob.length = c.shape.numLayers.toNat * c.shape.nKvHeads.toNat * c.shape.headDim.toNat
        * c.shape.numTokens.toNat * c.shape.dtype.elementBytes * 2 ↔
      DeclaredSizeFits crate r.bytes := by
  change c.kvBlob.length = c.shape.plainBytes ↔ DeclaredSizeFits crate r.bytes
  rcases readKvCache_inv crate .release r hb (by omega) c hread with ⟨header, i, s, b, hacc⟩
  have hsize := hacc.size
  rw [KvCacheShape.expectedBlobBytes_release c.shape hquant, Outcome.ok.injEq] at hsize
  -- The blob is part of the file, so its length is its own residue.
  have hkv : c.kvBlob.length < 2 ^ 63 := by
    have hencode := (Blob.decode_eq_ok_iff .release _
      (lt_of_le_of_lt (length_payload_le b r.bytes) hlen) _ _).mp hacc.blob
    have hle := length_payload_le b r.bytes
    have hlength := Blob.length_encode c.kvBlob c.nextLogits
    rw [hencode] at hlength
    omega
  constructor
  · intro heq header' i' s' b' ho shape hshape
    -- A file opens in one way only, so this is the shape that was accepted.
    have hopen := (opened_iff crate .release _ _ _ _ _ _ _).mp hacc.verified.opened
    have hopen' := (opened_iff crate .release _ _ _ _ _ _ _).mp ho
    have hheader : header' = header := Outcome.ok.inj (hopen'.1.symm.trans hopen.1)
    rw [hheader] at hopen'
    have hsections := Outcome.ok.inj (hopen'.2.symm.trans hopen.2)
    simp only [Prod.mk.injEq] at hsections
    rw [hsections.2.1] at hshape
    have hsame : shape = c.shape := Outcome.ok.inj (hshape.symm.trans hacc.shape)
    rw [hsame]
    omega
  · intro hf
    have hlt := hf header i s b hacc.verified.opened c.shape hacc.shape
    omega

/-- A cache whose size is `2 ^ 64` bytes, with an empty blob. -/
def wrappingCache : KvCache where
  modelFp := Octets.zero 32
  adapterId := none
  prefixHash := Octets.zero 32
  shape := {
    numLayers := 0x80000000
    nKvHeads := 0x80000000
    headDim := 1
    numTokens := 1
    dtype := .bf16
    layout := .contiguous
    quant := none }
  kvMeta := ⟨0, 1, "m"⟩
  kvBlob := []
  nextLogits := none

/-- The file it is written to. -/
def wrappingFile : Bytes := wrappingCache.container.image castagnoli kvSectionIds

theorem wrappingCache_fits : wrappingCache.container.Fits := by
  rw [Container.Fits, KvCache.payloadLen_container]
  decide

/-- A release build accepts it. -/
theorem readKvCache_wrapping :
    readKvCache castagnoli .release (Stream.ofBytes wrappingFile) = .ok wrappingCache := by
  -- The residue of `2 ^ 64` is the length of the empty blob.
  have hsize : (wrappingCache.shape.expectedBlobBytes .release : Outcome Error Nat) = .ok 0 := by
    rw [KvCacheShape.expectedBlobBytes_release _ rfl]
    rfl
  rw [readKvCache_container castagnoli .release wrappingCache (by decide) wrappingCache_fits
    (Stream.ofBytes wrappingFile) (Stream.benign_ofBytes _) rfl, hsize, Outcome.ok_bind,
    failIf_of_not _ _ (by decide), Outcome.ok_bind]

theorem readKvCache_size_iff_wrapping :
    wrappingCache.kvBlob.length = 0x80000000 * 0x80000000 * 1 * 1 * 2 * 2 ↔
      DeclaredSizeFits castagnoli wrappingFile :=
  readKvCache_size_iff castagnoli (Stream.ofBytes wrappingFile) (Stream.benign_ofBytes _)
    (Container.length_image_lt castagnoli kvSectionIds _ wrappingCache_fits) wrappingCache
    readKvCache_wrapping rfl

/-- The accepted blob is not of the declared size. -/
theorem readKvCache_size_wrong :
    readKvCache castagnoli .release (Stream.ofBytes wrappingFile) = .ok wrappingCache ∧
    wrappingCache.shape.quant = none ∧
    wrappingCache.kvBlob.length < wrappingCache.shape.plainBytes :=
  ⟨readKvCache_wrapping, rfl, by decide⟩

end SkegHull
