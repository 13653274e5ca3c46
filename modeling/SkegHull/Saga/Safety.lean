import SkegHull.Saga.File

/-!
# When the Saga Reader Panics

Every step of the reader is guarded but one. The header parser, the section
bounds and the tag loop are safe on any bytes. The centroid decoder multiplies
two numbers of the meta block before it compares the product with the length of
the section, and the multiplication is unchecked.

So the reader is safe exactly on the files whose meta block does not make that
product overflow, among the files that get as far as the product. A debug build
stops at the multiplication. A release build goes on with the residue, and when
the residue happens to be the length of the section the loops index past its
end. `forgedSaga` is a file on which both happen.

## Main definitions

* `SagaProductFits`: The product the file asks for is below `2 ^ 64`.
* `forgedSaga`: A file with valid checksums whose product wraps to zero.

## Theorems

* `readSaga_safe_iff`: The reader is safe in every build exactly when the
  product fits.
* `readSaga_panics_forged`: Both builds panic on the forged file.
-/

namespace SkegHull

open Lib

/-- If the file passes every check in front of the centroid decoder, the meta
    block it declares asks for less than `2 ^ 64` bytes of centroids. -/
def SagaProductFits (crate : Crc32cCrate) (all : Bytes) : Prop :=
  ∀ header m c t, Opened crate sagaV1 sagaSectionIds all header m c t →
    m.Intact crate all → c.Intact crate all →
    ∀ sagaMeta, SagaMeta.decode (m.payload all) = .ok sagaMeta →
      Centroid.sectionSize sagaMeta.centroidCount sagaMeta.embeddingDim < 2 ^ 64

section

variable (crate : Crc32cCrate) (build : Build) (r : Stream)

/-- The reader is safe when the one unguarded step is, wherever it is
    reached. -/
theorem readSaga_safe (hb : r.Benign) (hlen : r.bytes.length < 2 ^ 63)
    (hf : SagaProductFits crate r.bytes) : (readSaga crate build r).Safe := by
  unfold readSaga sagaOfSections
  rw [slurp_benign r hb, Outcome.ok_bind]
  refine Outcome.safe_bind _ _ (openBody_safe crate build _ _) fun header hopen => ?_
  have h68 := ((openBody_eq_ok_iff crate build _ _ _).mp hopen).1
  have hread := readChecked_eq_ok_iff crate build r.bytes
  have hsafe : ∀ entry, (readChecked crate build r.bytes entry).Safe :=
    fun entry => readChecked_safe crate build r.bytes entry (by omega) (by omega)
  refine Outcome.safe_bind _ _ (requireSections_safe _ _) ?_
  -- From here on the sections are the ones the condition speaks about.
  rintro ⟨m, c, t⟩ hsections
  have ho := (opened_iff crate build sagaV1 _ _ header m c t).mpr ⟨hopen, hsections⟩
  refine Outcome.safe_bind _ _ (hsafe m) fun mb hmb => ?_
  refine Outcome.safe_bind _ _ (SagaMeta.decode_safe mb) fun sagaMeta hmeta => ?_
  refine Outcome.safe_bind _ _ (hsafe c) fun cb hcb => ?_
  -- A section that was read is intact, and what was read is its payload.
  rcases (hread m mb (by omega) (by omega)).mp hmb with ⟨hm, rfl⟩
  rcases (hread c cb (by omega) (by omega)).mp hcb with ⟨hc, rfl⟩
  have hcut := length_payload_le c r.bytes
  refine Outcome.safe_bind _ _ ?_ fun centroids _ => ?_
  -- The one step that needs the condition.
  · exact (Centroid.decode_safe_iff _ _ _ (by omega)).mpr (hf header m c t ho hm hc sagaMeta hmeta)
      build
  refine Outcome.safe_bind _ _ (hsafe t) fun tb htb => ?_
  rcases (hread t tb (by omega) (by omega)).mp htb with ⟨_, rfl⟩
  have hcut' := length_payload_le t r.bytes
  exact Outcome.safe_bind _ _ (Tags.decode_safe build _ (by omega)) fun _ _ => Outcome.safe_ok _

/-- When the step is reached and the product does not fit, a debug build
    panics. -/
theorem readSaga_panics (hb : r.Benign) (hlen : r.bytes.length < 2 ^ 63)
    (header : Header) (m c t : SectionEntry)
    (ho : Opened crate sagaV1 sagaSectionIds r.bytes header m c t)
    (hm : m.Intact crate r.bytes) (hc : c.Intact crate r.bytes) (sagaMeta : SagaMeta)
    (hmeta : SagaMeta.decode (m.payload r.bytes) = .ok sagaMeta)
    (hfit : 2 ^ 64 ≤ Centroid.sectionSize sagaMeta.centroidCount sagaMeta.embeddingDim) :
    readSaga crate .debug r = .panic .overflow := by
  have h68 := ho.long
  have hopen := (opened_iff crate .debug _ _ _ _ _ _ _).mp ho
  have hread := readChecked_eq_ok_iff crate .debug r.bytes
  unfold readSaga sagaOfSections
  rw [slurp_benign r hb, Outcome.ok_bind, hopen.1, Outcome.ok_bind, hopen.2, Outcome.ok_bind]
  simp only
  rw [(hread m _ (by omega) (by omega)).mpr ⟨hm, rfl⟩, Outcome.ok_bind, hmeta, Outcome.ok_bind,
    (hread c _ (by omega) (by omega)).mpr ⟨hc, rfl⟩, Outcome.ok_bind,
    Centroid.decode_overflow _ _ _ hfit, Outcome.panic_bind]

end

/-- Reading a saga is safe in every build exactly when the product of the meta
    block fits, if it is reached at all. Allocations are taken to succeed: those for the
    announced table and for the announced number of centroids or tags may be larger than
    the machine allows. -/
theorem readSaga_safe_iff (crate : Crc32cCrate) (r : Stream) (hb : r.Benign)
    (hlen : r.bytes.length < 2 ^ 63) :
    (∀ build, (readSaga crate build r).Safe) ↔ SagaProductFits crate r.bytes := by
  refine ⟨fun hs => ?_, fun hf build => readSaga_safe crate build r hb hlen hf⟩
  intro header m c t ho hm hc sagaMeta hmeta
  by_contra hfit
  have hpanic := readSaga_panics crate r hb hlen header m c t ho hm hc sagaMeta hmeta (by omega)
  exact hs .debug .overflow hpanic

/-- A meta block that declares `2 ^ 31` centroids of dimension `2 ^ 31 - 1`, in
    front of an empty centroid section. Every checksum is right. -/
def forgedSaga : Container where
  version := sagaV1
  createdAt := 0
  first := SagaMeta.encode ⟨Octets.zero 16, 0, 0, 0x7fffffff, 0x80000000⟩
  second := []
  third := toLe (0 : UInt32)

/-- The file it is written to. -/
def forgedSagaFile : Bytes := forgedSaga.image castagnoli sagaSectionIds

theorem forgedSaga_fits : forgedSaga.Fits := by
  unfold Container.Fits
  decide

theorem readSaga_safe_iff_forged :
    (∀ build, (readSaga castagnoli build (Stream.ofBytes forgedSagaFile)).Safe)
      ↔ SagaProductFits castagnoli forgedSagaFile :=
  readSaga_safe_iff castagnoli (Stream.ofBytes forgedSagaFile) (Stream.benign_ofBytes _)
    (Container.length_image_lt castagnoli sagaSectionIds _ forgedSaga_fits)

/-- The forged product is `2 ^ 64`. A debug build panics computing it, a release
    build takes it for zero and panics reading the first centroid. -/
theorem decode_forged (build : Build) :
    ∃ p, Centroid.decode build [] 0x80000000 0x7fffffff = .panic p := by
  cases build with
  | debug => exact ⟨.overflow, Centroid.decode_overflow _ _ _ (by decide)⟩
  | release =>
      have hmul : (Build.release.mul (0x80000000 : UInt32).toNat
          (4 + (0x7fffffff : UInt32).toNat * 4) : Outcome Error Nat) = .ok 0 := rfl
      -- The empty section has the wrapped size, so the loop starts and indexes past its end.
      refine ⟨.sliceIndex, ?_⟩
      unfold Centroid.decode
      rw [Centroid.entrySize_eq, Outcome.ok_bind, hmul, Outcome.ok_bind,
        failIf_of_not _ _ (by decide), Outcome.ok_bind,
        show (0x80000000 : UInt32).toNat = 0x7fffffff + 1 from rfl]
      rfl

theorem readSaga_panics_forged :
    ¬ (readSaga castagnoli .debug (Stream.ofBytes forgedSagaFile)).Safe ∧
    ¬ (readSaga castagnoli .release (Stream.ofBytes forgedSagaFile)).Safe := by
  have hpanic : ∀ build, ¬ (readSaga castagnoli build (Stream.ofBytes forgedSagaFile)).Safe := by
    intro build
    rcases decode_forged build with ⟨p, hp⟩
    rw [readSaga_image castagnoli build forgedSaga rfl forgedSaga_fits
      (Stream.ofBytes forgedSagaFile) (Stream.benign_ofBytes _) rfl]
    unfold decodeSagaSections forgedSaga
    simp only
    rw [SagaMeta.decode_encode, Outcome.ok_bind]
    simp only
    rw [hp, Outcome.panic_bind]
    exact Outcome.not_safe_panic p
  exact ⟨hpanic .debug, hpanic .release⟩

end SkegHull
