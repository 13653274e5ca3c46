import SkegHull.KvCache.File

/-!
# KV Cache Round Trip

The writer refuses a cache for one reason, a model name that does not fit its
length field, and the reader refuses a written cache for one reason, a blob of
the wrong size. So the two sides disagree about what a cache is. Among the caches
the writer takes, the reader returns exactly the ones whose blob has the size
their shape calls for, unchanged, and an error for the rest.

## Theorems

* `kvCache_round_trip`: Written exactly when the name is short, and read back
  exactly when the size is right.
-/

namespace SkegHull

open Lib

/-- Writing into an empty stream succeeds exactly when the model name is short
    enough. What is then in the stream reads back as the same cache when the blob
    has the size the code expects of the shape, and as an error otherwise. -/
theorem kvCache_round_trip (crate : Crc32cCrate) (build : Build) (c : KvCache) (writer : Stream)
    (hf : c.kvMeta.ShortName → c.container.Fits) (hsize : c.shape.SizeFits)
    (hw : writer.bytes = []) :
    ((writeKvCache crate build c writer).1 = .ok () ↔ c.kvMeta.ShortName) ∧
    (¬ c.kvMeta.ShortName → (writeKvCache crate build c writer).1.IsErr) ∧
    ((writeKvCache crate build c writer).1 = .ok () →
      ∀ (build' : Build) (reader : Stream), reader.Benign →
        reader.bytes = (writeKvCache crate build c writer).2.bytes →
        ∃ size, c.shape.expectedBlobBytes build' = (.ok size : Outcome Error Nat) ∧
          (c.kvBlob.length = size → readKvCache crate build' reader = .ok c) ∧
          (c.kvBlob.length ≠ size → (readKvCache crate build' reader).IsErr)) := by
  by_cases hs : c.kvMeta.ShortName
  · rw [writeKvCache_eq crate build c writer hs (hf hs) hw]
    refine ⟨⟨fun _ => hs, fun _ => rfl⟩, fun hn => absurd hs hn, fun _ build' reader hb hr => ?_⟩
    refine ⟨c.shape.blobBytes, KvCacheShape.expectedBlobBytes_eq build' c.shape hsize, ?_⟩
    -- Everything but the size check undoes the writer.
    rw [readKvCache_container crate build' c hs (hf hs) reader hb hr,
      KvCacheShape.expectedBlobBytes_eq build' c.shape hsize, Outcome.ok_bind]
    refine ⟨fun heq => ?_, fun hne => ?_⟩
    · rw [failIf_of_not _ _ (not_not.mpr heq), Outcome.ok_bind]
    · rw [failIf_of _ _ hne, Outcome.err_bind]
      exact Outcome.isErr_err _
  · rcases writeKvCache_isErr crate build c writer hs with ⟨e, hwrite⟩
    rw [hwrite]
    refine ⟨⟨fun h => ?_, fun h => absurd h hs⟩, fun _ => Outcome.isErr_err e, fun h => ?_⟩
    · exact absurd h (by simp only [reduceCtorEq, not_false_eq_true])
    · exact absurd h (by simp only [reduceCtorEq, not_false_eq_true])

/-- A quantized cache of one token, with an adapter and logits. -/
def sampleKvCache : KvCache where
  modelFp := Octets.zero 32
  adapterId := some (Octets.zero 32)
  prefixHash := Octets.zero 32
  shape := {
    numLayers := 1
    nKvHeads := 1
    headDim := 2
    numTokens := 1
    dtype := .bf16
    layout := .contiguous
    quant := some ⟨2, 8⟩ }
  kvMeta := ⟨11, 3, "llama"⟩
  kvBlob := [1, 2, 3, 4, 5, 6, 7, 8, 9, 10, 11, 12]
  nextLogits := some [0, 1]

theorem sampleKvCache_fits : sampleKvCache.container.Fits := by
  rw [Container.Fits, KvCache.payloadLen_container]
  decide

theorem readKvCache_sample (build : Build) :
    readKvCache castagnoli build
      (Stream.ofBytes (sampleKvCache.container.image castagnoli kvSectionIds))
      = .ok sampleKvCache := by
  rw [readKvCache_container castagnoli build sampleKvCache (by decide) sampleKvCache_fits
    (Stream.ofBytes (sampleKvCache.container.image castagnoli kvSectionIds))
    (Stream.benign_ofBytes _) rfl, KvCacheShape.expectedBlobBytes_eq build _ (by decide)]
  rfl

theorem kvCache_round_trip_sample :
    (writeKvCache castagnoli .release sampleKvCache (Stream.ofBytes [])).1 = .ok () ∧
    readKvCache castagnoli .debug (Stream.ofBytes
      (writeKvCache castagnoli .release sampleKvCache (Stream.ofBytes [])).2.bytes)
      = .ok sampleKvCache := by
  have h := kvCache_round_trip castagnoli .release sampleKvCache (Stream.ofBytes [])
    (fun _ => sampleKvCache_fits) (by decide) rfl
  have hok := h.1.mpr (by decide)
  rcases h.2.2 hok .debug (Stream.ofBytes
    (writeKvCache castagnoli .release sampleKvCache (Stream.ofBytes [])).2.bytes)
    (Stream.benign_ofBytes _) rfl with ⟨size, hsize, hread, _⟩
  have hblob : sampleKvCache.kvBlob.length = size := Outcome.ok.inj hsize
  exact ⟨hok, hread hblob⟩

end SkegHull
