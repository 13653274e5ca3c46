import SkegHull.Saga.RoundTrip

/-!
# The Counts of a Saga File

Two counts are stored in 32 bits: that of the centroids in the meta section, and
that of the tags at the start of the tag section. Both are narrowing casts of a
list's length, in two functions, while the loops that write the entries run over
the whole lists. The writer checks the length of every vector and of every tag
and neither count, so it accepts a list that is too long and stores its length
modulo `2 ^ 32`: `writeSaga_counts`.

`StoresCounts` finds the counts the way a reader would, through the header and the
table.

## Main definitions

* `StoresCounts`: The counts that a file stores.
* `manyTags`: A saga with a number of empty tags.

## Theorems

* `writeSaga_counts`: What the writer stores.
* `oversized_written`: Lists that are too long are written all the same.
-/

namespace SkegHull

open Lib

/-- The file stores these counts: the one in the meta section that its table points at,
    and the one in front of the tags. -/
def StoresCounts (file : Bytes) (centroidCount tagCount : Nat) : Prop :=
  ∃ header m c t sagaMeta, Header.parse file = .ok header ∧
    requireSections sagaSectionIds header.sections = .ok (m, c, t) ∧
    SagaMeta.decode (m.payload file) = .ok sagaMeta ∧
    sagaMeta.centroidCount.toNat = centroidCount ∧
    (fromLe UInt32 (cut (t.payload file) 0 4)).toNat = tagCount

section

variable (crate : Crc32cCrate) (build : Build) (s : Saga)

/-- A file that starts with the image of a saga stores its counts modulo `2 ^ 32`. -/
theorem storesCounts_image (hf : s.container.Fits) (tail : Bytes) :
    StoresCounts (s.container.image crate sagaSectionIds ++ tail)
      (s.centroids.length % 2 ^ 32) (s.tags.length % 2 ^ 32) := by
  have hfirst := Container.holds_first crate sagaSectionIds s.container hf
  have hthird := Container.holds_third crate sagaSectionIds s.container hf
  have himage : s.container.image crate sagaSectionIds ++ tail
      = s.container.body crate sagaSectionIds
        ++ (toLe (crate.crc32c (s.container.body crate sagaSectionIds)) ++ tail) := by
    rw [Container.image, List.append_assoc]
  have hmeta : SagaMeta.decode s.container.first = .ok s.metaBlock :=
    SagaMeta.decode_encode s.metaBlock
  refine ⟨s.container.header crate sagaSectionIds, _, _, _, s.metaBlock, ?_,
    Container.requireSections_image crate sagaSectionIds s.container, ?_,
    UInt32.toNat_ofNat', ?_⟩
  · rw [himage]
    exact Container.parse_body crate sagaSectionIds s.container _
  · rw [himage, hfirst.found, hmeta]
  · rw [himage, hthird.found, Saga.container]
    dsimp only
    rw [cut_append_exact _ _ _ (by rw [length_toLe, width_uint32]), fromLe_toLe]
    exact UInt32.toNat_ofNat'

/-- Writing an encodable saga is never an error. When its image fits it succeeds, over any
    stream, and stores the counts modulo `2 ^ 32`. -/
theorem writeSaga_counts (he : s.Encodable) (writer : Stream) :
    ¬ (writeSaga crate build s writer).1.IsErr ∧
    (s.container.Fits → (writeSaga crate build s writer).1 = .ok () ∧
      StoresCounts (writeSaga crate build s writer).2.bytes
        (s.centroids.length % 2 ^ 32) (s.tags.length % 2 ^ 32)) := by
  constructor
  · rintro ⟨e, herr⟩
    -- Only encoding a list can fail, and both lists can be encoded.
    have herrs : (sagaImage crate build s).Errs fun _ => False := by
      unfold sagaImage
      dsimp only
      rw [(Centroid.encode_eq s.centroids s.embeddingDim).1 he.dims, Outcome.ok_bind,
        (Tags.encode_eq s.tags).1 he.tags, Outcome.ok_bind]
      exact Container.assemble_errs crate build _ _ _ _ _ _ _
    unfold writeSaga at herr
    cases himage : sagaImage crate build s with
    | ok image =>
        rw [himage, Container.writeImage_over] at herr
        cases herr
    | err e' => exact herrs e' himage
    | panic p =>
        rw [himage] at herr
        cases herr
  · intro hf
    rw [writeSaga, sagaImage_eq crate build s he hf, Container.writeImage_over]
    exact ⟨rfl, storesCounts_image crate s hf _⟩

/-- A saga with too many centroids or too many tags is written all the same, and at least
    one of the counts in the file is not the true one. -/
theorem oversized_written (he : s.Encodable)
    (hcount : 2 ^ 32 ≤ s.centroids.length ∨ 2 ^ 32 ≤ s.tags.length) (writer : Stream) :
    ¬ (writeSaga crate build s writer).1.IsErr ∧
    (s.container.Fits → (writeSaga crate build s writer).1 = .ok () ∧
      StoresCounts (writeSaga crate build s writer).2.bytes
        (s.centroids.length % 2 ^ 32) (s.tags.length % 2 ^ 32) ∧
      (s.centroids.length % 2 ^ 32 ≠ s.centroids.length ∨
        s.tags.length % 2 ^ 32 ≠ s.tags.length)) := by
  rcases writeSaga_counts crate build s he writer with ⟨herr, hfits⟩
  refine ⟨herr, fun hf => ⟨(hfits hf).1, (hfits hf).2, ?_⟩⟩
  omega

end

/-- A saga with `n` empty tags and nothing else. -/
def manyTags (n : Nat) : Saga := ⟨Octets.zero 16, 0, 0, 0, [], List.replicate n ⟨0, ""⟩⟩

theorem manyTags_encodable (n : Nat) : (manyTags n).Encodable := by
  refine ⟨fun c hc => absurd hc List.not_mem_nil, fun e he => ?_⟩
  rw [List.eq_of_mem_replicate he]
  decide

theorem length_manyTags (n : Nat) : (manyTags n).tags.length = n := List.length_replicate

theorem manyTags_fits (n : Nat) (hn : n ≤ 2 ^ 32) : (manyTags n).container.Fits := by
  have hsize : ∀ e ∈ (manyTags n).tags, e.bytes.length = 6 := by
    intro e he
    rw [List.eq_of_mem_replicate he]
    decide
  have hfirst : (manyTags n).container.first.length = 64 := SagaMeta.length_encode _
  have hsecond : (manyTags n).container.second.length = 0 := rfl
  have hthird : (manyTags n).container.third.length = 4 + n * 6 := by
    rw [Saga.container]
    dsimp only
    rw [List.length_append, length_toLe, width_uint32, length_flatMap_const _ _ _ hsize,
      length_manyTags]
  unfold Container.Fits Container.payloadLen
  omega

theorem oversized_written_sample :
    (writeSaga castagnoli .release (manyTags (2 ^ 32)) (Stream.ofBytes [])).1 = .ok () := by
  refine ((oversized_written castagnoli .release (manyTags (2 ^ 32)) (manyTags_encodable _)
    (Or.inr ?_) (Stream.ofBytes [])).2 (manyTags_fits _ (le_refl _))).1
  rw [length_manyTags]

/-- With `2 ^ 32` tags the writer succeeds, and the file says that there are none. -/
theorem tag_count_wraps :
    (writeSaga castagnoli .release (manyTags (2 ^ 32)) (Stream.ofBytes [])).1 = .ok () ∧
    (manyTags (2 ^ 32)).tags.length = 2 ^ 32 ∧
    StoresCounts
      (writeSaga castagnoli .release (manyTags (2 ^ 32)) (Stream.ofBytes [])).2.bytes 0 0 := by
  have hwrite := (writeSaga_counts castagnoli .release (manyTags (2 ^ 32)) (manyTags_encodable _)
    (Stream.ofBytes [])).2 (manyTags_fits _ (le_refl _))
  have hlength := length_manyTags (2 ^ 32)
  refine ⟨hwrite.1, hlength, ?_⟩
  have hcounts := hwrite.2
  rw [hlength] at hcounts
  exact hcounts

end SkegHull
