import SkegHull.Saga.File

/-!
# Saga Round Trip

A saga that is written can be read back, and the writer refuses exactly the
sagas the format cannot hold. The three section codecs each have their own round
trip. `decodeSagaSections_container` chains them: the counts and the dimension
the meta block carries are the ones the other two sections were encoded with, so
the decoders take the sections apart along the lines the encoders drew. The
container layer does the rest.

The writer builds the whole image before it touches its stream, which is why a
refused saga leaves the stream as it was.

## Theorems

* `decodeSagaSections_container`: The section decoders undo the encoders.
* `saga_round_trip`: Written exactly when encodable, and then read back.
-/

namespace SkegHull

open Lib

/-- The section decoders undo the section encoders. -/
theorem decodeSagaSections_container (build : Build) (s : Saga)
    (hcentroids : s.centroids.length < 2 ^ 32) (htags : s.tags.length < 2 ^ 32)
    (he : s.Encodable) (hf : s.container.Fits) :
    decodeSagaSections build s.container.first s.container.second s.container.third = .ok s := by
  have hsize : 152 + (s.container.first.length + s.container.second.length
      + s.container.third.length) < 2 ^ 63 := hf
  -- The meta block hands the count and the dimension to the centroid decoder.
  have hsecond : Centroid.decode build s.container.second (UInt32.ofNat s.centroids.length)
      s.embeddingDim = .ok s.centroids :=
    Centroid.decode_of_bytes build s.embeddingDim s.centroids hcentroids he.dims
      (lt_of_le_of_lt (by omega : s.container.second.length ≤ _) (lt_trans hsize (by decide)))
  have hthird : Tags.decode build s.container.third = .ok s.tags :=
    Tags.decode_of_bytes build s.tags he.tags htags
      (lt_of_le_of_lt (by omega : s.container.third.length ≤ _) hsize)
  have hfirst : SagaMeta.decode s.container.first = .ok s.metaBlock :=
    SagaMeta.decode_encode s.metaBlock
  unfold decodeSagaSections
  rw [hfirst, Outcome.ok_bind]
  simp only [Saga.metaBlock]
  rw [hsecond, Outcome.ok_bind, hthird, Outcome.ok_bind]

/-- Writing into an empty stream succeeds exactly for an encodable saga. What is
    then in the stream reads back as that saga, in any build and however the
    reads are split, and a refused saga leaves the stream untouched. -/
theorem saga_round_trip (crate : Crc32cCrate) (build : Build) (s : Saga) (writer : Stream)
    (hcentroids : s.centroids.length < 2 ^ 32) (htags : s.tags.length < 2 ^ 32)
    (hf : s.Encodable → s.container.Fits) (hw : writer.bytes = []) :
    ((writeSaga crate build s writer).1 = .ok () ↔ s.Encodable) ∧
    ((writeSaga crate build s writer).1 = .ok () →
      ∀ (build' : Build) (reader : Stream), reader.Benign →
        reader.bytes = (writeSaga crate build s writer).2.bytes →
        readSaga crate build' reader = .ok s) ∧
    (¬ s.Encodable → (writeSaga crate build s writer).1.IsErr) ∧
    ((writeSaga crate build s writer).1.IsErr → (writeSaga crate build s writer).2 = writer) := by
  by_cases he : s.Encodable
  · rw [writeSaga_eq crate build s writer he (hf he) hw]
    refine ⟨⟨fun _ => he, fun _ => rfl⟩, fun _ build' reader hb hr => ?_, fun hn => absurd he hn,
      fun herr => absurd herr (Outcome.not_isErr_ok _)⟩
    rw [readSaga_image crate build' s.container rfl (hf he) reader hb hr]
    exact decodeSagaSections_container build' s hcentroids htags he (hf he)
  · rcases writeSaga_isErr crate build s writer he with ⟨e, hwrite⟩
    rw [hwrite]
    refine ⟨⟨fun h => ?_, fun h => absurd h he⟩, fun h => ?_, fun _ => Outcome.isErr_err e,
      fun _ => rfl⟩
    · exact absurd h (by simp only [reduceCtorEq, not_false_eq_true])
    · exact absurd h (by simp only [reduceCtorEq, not_false_eq_true])

/-- A saga with one centroid and one tag. -/
def sampleSaga : Saga where
  tenantId := Octets.zero 16
  builtAt := 7
  recordCount := 3
  embeddingDim := 2
  centroids := [⟨1, [0x3f800000, 0x7fc00000]⟩]
  tags := [⟨5, "notes"⟩]

theorem sampleSaga_encodable : sampleSaga.Encodable where
  dims := by decide
  tags := by decide

theorem sampleSaga_fits : sampleSaga.container.Fits := by
  unfold Container.Fits
  decide

theorem readSaga_sample (build : Build) :
    readSaga castagnoli build
        (Stream.ofBytes (sampleSaga.container.image castagnoli sagaSectionIds))
      = .ok sampleSaga := by
  rw [readSaga_image castagnoli build sampleSaga.container rfl sampleSaga_fits
    (Stream.ofBytes (sampleSaga.container.image castagnoli sagaSectionIds))
    (Stream.benign_ofBytes _) rfl]
  exact decodeSagaSections_container build sampleSaga (by decide) (by decide)
    sampleSaga_encodable sampleSaga_fits

theorem saga_round_trip_sample :
    (writeSaga castagnoli .release sampleSaga (Stream.ofBytes [])).1 = .ok () ∧
    readSaga castagnoli .debug (Stream.ofBytes
      (writeSaga castagnoli .release sampleSaga (Stream.ofBytes [])).2.bytes) = .ok sampleSaga := by
  have h := saga_round_trip castagnoli .release sampleSaga (Stream.ofBytes []) (by decide)
    (by decide) (fun _ => sampleSaga_fits) rfl
  have hok := h.1.mpr sampleSaga_encodable
  exact ⟨hok, h.2.1 hok .debug (Stream.ofBytes _) (Stream.benign_ofBytes _) rfl⟩

end SkegHull
