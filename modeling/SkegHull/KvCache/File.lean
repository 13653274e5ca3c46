import SkegHull.Container
import SkegHull.KvCache.Blob
import SkegHull.KvCache.Identity
import SkegHull.KvCache.Shape

/-!
# KV Cache Files

A KV cache, and the functions that write one to a stream and read one back. The
container layer is the one sagas use. What is different is the last step of the
reader: after the three sections have been decoded it compares the length of
the blob with the size the shape calls for. Nothing on the writer's side makes
that comparison, so a cache can be written that cannot be read.

`readKvCache_opened` says that on a file with an intact container layer the
reader is `decodeKvSections` on the payloads, and `decodeKvSections_eq` says what
that is once the sections decode: the size check.

## Main definitions

* `KvCache`: The data.
* `writeKvCache`, `readKvCache`: The source functions.
* `KvCache.container`: The abstract file.
* `decodeKvSections`: The three section decoders and the size check.

## Theorems

* `kvCacheImage_eq`, `kvCacheImage_isErr`: The writer emits the image of the
  abstract file, or returns an error.
* `readKvCache_opened`: The reader on a file whose container layer is intact.
* `readKvCache_image`: The reader on the image of three payloads.
* `readKvCache_container`: The reader on the image of a cache.
* `readKvCache_inv`: What an accepted file looks like.
* `readKvCache_append`: The reader on an accepted file with bytes behind it.
-/

namespace SkegHull

open Lib

/-- A KV cache in memory. -/
structure KvCache where
  modelFp : Octets 32
  adapterId : Option (Octets 32)
  prefixHash : Octets 32
  shape : KvCacheShape
  kvMeta : KvCacheMeta
  kvBlob : Bytes
  nextLogits : Option Bytes
  deriving DecidableEq

/-- The type ids `IDENTITY`, `SHAPE` and `BLOB`. -/
def kvSectionIds : SectionIds := ⟨1, 2, 3, distinctIds⟩

/-- Build the file image of a cache. -/
def kvCacheImage (crate : Crc32cCrate) (build : Build) (cache : KvCache) : Outcome Error Bytes := do
  let identityBytes ←
    Identity.encode cache.modelFp cache.adapterId cache.prefixHash cache.kvMeta
  let shapeBytes := cache.shape.encode
  let blobBytes := Blob.encode cache.kvBlob cache.nextLogits
  assemble crate build kvCacheV1 kvSectionIds cache.kvMeta.createdAt identityBytes shapeBytes
    blobBytes

/-- Serialise a cache into the writer at position 0. -/
def writeKvCache (crate : Crc32cCrate) (build : Build) (cache : KvCache) (writer : Stream) :
    Outcome Error Unit × Stream :=
  writeImage (kvCacheImage crate build cache) writer

/-- Check and decode the located sections, one after the other, and compare the size of the
    blob with the shape. -/
def kvCacheOfSections (crate : Crc32cCrate) (build : Build) (all : Bytes)
    (idEntry shapeEntry blobEntry : SectionEntry) : Outcome Error KvCache := do
  let idBytes ← readChecked crate build all idEntry
  let identity ← Identity.decode build idBytes
  let shapeBytes ← readChecked crate build all shapeEntry
  let shape ← KvCacheShape.decode shapeBytes
  let blobBytes ← readChecked crate build all blobEntry
  let (kvBlob, nextLogits) ← Blob.decode build blobBytes
  let expected ← shape.expectedBlobBytes build
  let got := kvBlob.length
  failIf (got ≠ expected) (.malformed
    s!"kv_blob size mismatch: shape declares {expected} bytes, blob has {got}")
  .ok {
    modelFp := identity.modelFp
    adapterId := identity.adapterId
    prefixHash := identity.prefixHash
    shape := shape
    kvMeta := identity.kvMeta
    kvBlob := kvBlob
    nextLogits := nextLogits }

/-- Read and validate a KV cache file. -/
def readKvCache (crate : Crc32cCrate) (build : Build) (reader : Stream) :
    Outcome Error KvCache := do
  let all ← slurp reader
  let header ← openBody crate build kvCacheV1 all
  let (idEntry, shapeEntry, blobEntry) ← requireSections kvSectionIds header.sections
  kvCacheOfSections crate build all idEntry shapeEntry blobEntry

namespace KvCache

/-- The identity of a cache. -/
def identity (c : KvCache) : Identity where
  modelFp := c.modelFp
  adapterId := c.adapterId
  prefixHash := c.prefixHash
  kvMeta := c.kvMeta

/-- The abstract file a cache stands for. -/
def container (c : KvCache) : Container where
  version := kvCacheV1
  createdAt := c.kvMeta.createdAt
  first := c.identity.bytes
  second := c.shape.encode
  third := Blob.encode c.kvBlob c.nextLogits

theorem payloadLen_container (c : KvCache) :
    c.container.payloadLen = 138 + (utf8 c.kvMeta.modelName).length
      + (KvCacheShape.quantTrailer c.shape.quant).length + c.kvBlob.length
      + (Blob.logitsBytes c.nextLogits).length := by
  simp only [Container.payloadLen, container, Identity.length_bytes, identity,
    KvCacheShape.length_encode, Blob.length_encode]
  omega

end KvCache

section Writing

variable (crate : Crc32cCrate) (build : Build) (c : KvCache)

/-- The writer emits the image of the abstract file. -/
theorem kvCacheImage_eq (hs : c.kvMeta.ShortName) (hf : c.container.Fits) :
    kvCacheImage crate build c = .ok (c.container.image crate kvSectionIds) := by
  have hid := (Identity.encode_eq c.identity).1 hs
  simp only [KvCache.identity] at hid
  unfold kvCacheImage
  rw [hid, Outcome.ok_bind]
  exact Container.assemble_eq crate build kvSectionIds c.container hf

/-- A cache whose model name is too long is refused. -/
theorem kvCacheImage_isErr (hs : ¬ c.kvMeta.ShortName) : (kvCacheImage crate build c).IsErr := by
  rcases (Identity.encode_eq c.identity).2 hs with ⟨e, he⟩
  simp only [KvCache.identity] at he
  unfold kvCacheImage
  rw [he, Outcome.err_bind]
  exact Outcome.isErr_err e

/-- The writer on a cache with a short name and an empty stream. -/
theorem writeKvCache_eq (writer : Stream) (hs : c.kvMeta.ShortName) (hf : c.container.Fits)
    (hw : writer.bytes = []) :
    writeKvCache crate build c writer = (.ok (), { writer with
      bytes := c.container.image crate kvSectionIds
      pos := (c.container.image crate kvSectionIds).length }) := by
  rw [writeKvCache, kvCacheImage_eq crate build c hs hf, Container.writeImage_ok _ _ hw]

/-- The image is built before the stream is touched, so a cache with a name that
    is too long leaves it alone. -/
theorem writeKvCache_isErr (writer : Stream) (hs : ¬ c.kvMeta.ShortName) :
    ∃ e, writeKvCache crate build c writer = (.err e, writer) := by
  rcases kvCacheImage_isErr crate build c hs with ⟨e, herr⟩
  exact ⟨e, by rw [writeKvCache, herr]; rfl⟩

theorem shortName_of_writeKvCache (writer : Stream)
    (h : (writeKvCache crate build c writer).1 = .ok ()) : c.kvMeta.ShortName := by
  by_contra hn
  rcases writeKvCache_isErr crate build c writer hn with ⟨e, herr⟩
  rw [herr] at h
  cases h

end Writing

section Reading

variable (crate : Crc32cCrate) (build : Build)

/-- The three section decoders in a row, and the size check. -/
def decodeKvSections (first second third : Bytes) : Outcome Error KvCache := do
  let identity ← Identity.decode build first
  let shape ← KvCacheShape.decode second
  let (kvBlob, nextLogits) ← Blob.decode build third
  let expected ← shape.expectedBlobBytes build
  failIf (kvBlob.length ≠ expected) (.malformed
    s!"kv_blob size mismatch: shape declares {expected} bytes, blob has {kvBlob.length}")
  .ok ⟨identity.modelFp, identity.adapterId, identity.prefixHash, shape, identity.kvMeta, kvBlob,
    nextLogits⟩

/-- Once a file is opened and its sections are intact, the decoders decide. -/
theorem readKvCache_opened (r : Stream) (hb : r.Benign) (hlen : r.bytes.length < 2 ^ 64)
    (header : Header) (i s b : SectionEntry)
    (hv : Verified crate kvCacheV1 kvSectionIds r.bytes header i s b) :
    readKvCache crate build r
      = decodeKvSections build (i.payload r.bytes) (s.payload r.bytes) (b.payload r.bytes) := by
  have h4 : 4 ≤ r.bytes.length := by
    have hlong := hv.opened.long
    omega
  have hopen := (opened_iff crate build _ _ _ _ _ _ _).mp hv.opened
  -- Every read of a section returns its payload.
  have hread : ∀ entry : SectionEntry, entry.Intact crate r.bytes →
      readChecked crate build r.bytes entry = .ok (entry.payload r.bytes) :=
    fun entry hi => (readChecked_eq_ok_iff crate build _ _ _ h4 hlen).mpr ⟨hi, rfl⟩
  unfold readKvCache kvCacheOfSections decodeKvSections
  rw [slurp_benign r hb, Outcome.ok_bind, hopen.1, Outcome.ok_bind, hopen.2, Outcome.ok_bind]
  simp only [hread i hv.first, hread s hv.second, hread b hv.third, Outcome.ok_bind]

/-- The reader makes of an image what the decoders make of its payloads. -/
theorem readKvCache_image (file : Container) (hv : file.version = kvCacheV1) (hf : file.Fits)
    (r : Stream) (hb : r.Benign) (hr : r.bytes = file.image crate kvSectionIds) :
    readKvCache crate build r = decodeKvSections build file.first file.second file.third := by
  have hverified := Container.verified_image crate kvSectionIds file (by rw [hv]; rfl) hf
  have hlen : (file.image crate kvSectionIds).length < 2 ^ 64 :=
    lt_trans (Container.length_image_lt crate kvSectionIds file hf) (by decide)
  rcases Container.payload_image crate kvSectionIds file hf with ⟨hfirst, hsecond, hthird⟩
  rw [hv] at hverified
  rw [← hr] at hverified hlen hfirst hsecond hthird
  rw [readKvCache_opened crate build r hb hlen _ _ _ _ hverified, hfirst, hsecond, hthird]

/-- When the sections decode, what is left is the size check. -/
theorem decodeKvSections_eq (first second third : Bytes) (identity : Identity)
    (shape : KvCacheShape) (kv : Bytes) (logits : Option Bytes)
    (hid : Identity.decode build first = .ok identity)
    (hshape : KvCacheShape.decode second = .ok shape)
    (hblob : Blob.decode build third = .ok (kv, logits)) :
    decodeKvSections build first second third = (do
      let expected ← shape.expectedBlobBytes build
      failIf (kv.length ≠ expected) (.malformed
        s!"kv_blob size mismatch: shape declares {expected} bytes, blob has {kv.length}")
      .ok ⟨identity.modelFp, identity.adapterId, identity.prefixHash, shape, identity.kvMeta, kv,
        logits⟩) := by
  unfold decodeKvSections
  rw [hid, Outcome.ok_bind, hshape, Outcome.ok_bind, hblob, Outcome.ok_bind]

/-- On the image of a cache the reader returns the cache, if the size check
    lets it. -/
theorem readKvCache_container (c : KvCache) (hs : c.kvMeta.ShortName) (hf : c.container.Fits)
    (r : Stream) (hb : r.Benign) (hr : r.bytes = c.container.image crate kvSectionIds) :
    readKvCache crate build r = (do
      let expected ← c.shape.expectedBlobBytes build
      failIf (c.kvBlob.length ≠ expected) (.malformed
        s!"kv_blob size mismatch: shape declares {expected} bytes, blob has {c.kvBlob.length}")
      .ok c) := by
  have hsize : 152 + (c.container.first.length + c.container.second.length
      + c.container.third.length) < 2 ^ 63 := hf
  have hid : Identity.decode build c.container.first = .ok c.identity :=
    Identity.decode_bytes build c.identity hs
  have hshape : KvCacheShape.decode c.container.second = .ok c.shape :=
    KvCacheShape.decode_encode c.shape
  have hblob : Blob.decode build c.container.third = .ok (c.kvBlob, c.nextLogits) :=
    Blob.decode_encode build c.kvBlob c.nextLogits
      (lt_of_le_of_lt (by omega : c.container.third.length ≤ _) hsize)
  -- The three sections are read back, so only the size check is left.
  rw [readKvCache_image crate build c.container rfl hf r hb hr,
    decodeKvSections_eq build _ _ _ c.identity c.shape c.kvBlob c.nextLogits hid hshape hblob]
  rfl

/-- An accepted file: it passes the container's checks, and each part of the
    cache is what its section decodes to. -/
structure KvAccepted (all : Bytes) (c : KvCache) (header : Header) (i s b : SectionEntry) :
    Prop where
  verified : Verified crate kvCacheV1 kvSectionIds all header i s b
  identity : Identity.decode build (i.payload all) = .ok c.identity
  shape : KvCacheShape.decode (s.payload all) = .ok c.shape
  blob : Blob.decode build (b.payload all) = .ok (c.kvBlob, c.nextLogits)
  size : c.shape.expectedBlobBytes build = (.ok c.kvBlob.length : Outcome Error Nat)

/-- What the reader accepts. -/
theorem readKvCache_inv (r : Stream) (hb : r.Benign) (hlen : r.bytes.length < 2 ^ 64)
    (c : KvCache) (h : readKvCache crate build r = .ok c) :
    ∃ header i s b, KvAccepted crate build r.bytes c header i s b := by
  unfold readKvCache kvCacheOfSections at h
  rw [slurp_benign r hb, Outcome.ok_bind] at h
  simp only [Outcome.bind_eq_ok_iff, failIf_eq_ok_iff, not_not, ne_eq, exists_const,
    Outcome.ok.injEq] at h
  -- Every step of the reader returned a value, the size check included.
  rcases h with ⟨header, hopen, ⟨i, s, b⟩, hsections, ib, hib, identity, hid, sb, hsb, shape,
    hshape, bb, hbb, ⟨kv, logits⟩, hblob, expected, hexpected, hsize, rfl⟩
  have h68 := ((openBody_eq_ok_iff crate build _ _ _).mp hopen).1
  have hread := fun entry payload => (readChecked_eq_ok_iff crate build r.bytes entry payload
    (by omega) hlen).mp
  rcases hread i ib hib with ⟨hi, rfl⟩
  rcases hread s sb hsb with ⟨hs, rfl⟩
  rcases hread b bb hbb with ⟨hbl, rfl⟩
  have ho := (opened_iff crate build _ _ _ _ _ _ _).mpr ⟨hopen, hsections⟩
  exact ⟨header, i, s, b, ⟨ho, hi, hs, hbl⟩, hid, hshape, hblob, by rw [hexpected, hsize]⟩

/-- A file with a wrong trailer is refused for it, if it is long enough to have one. -/
theorem readKvCache_not_trailerOk (r : Stream) (hb : r.Benign) (h68 : 68 ≤ r.bytes.length)
    (ht : ¬ TrailerOk crate r.bytes) : readKvCache crate build r = .err .fileChecksumFailed := by
  unfold readKvCache
  rw [slurp_benign r hb, Outcome.ok_bind, openBody_not_trailerOk crate build _ _ h68 ht,
    Outcome.err_bind]

/-- Bytes behind an accepted file are told by the trailer alone. When it is right, the reader
    returns the same cache. -/
theorem readKvCache_append (r r' : Stream) (hb : r.Benign) (hb' : r'.Benign) (tail : Bytes)
    (hr : r'.bytes = r.bytes ++ tail) (hlen : r'.bytes.length < 2 ^ 64) (c : KvCache)
    (h : readKvCache crate build r = .ok c) :
    readKvCache crate build r' =
      if TrailerOk crate r'.bytes then .ok c else .err .fileChecksumFailed := by
  have hle : r.bytes.length ≤ r'.bytes.length := by
    rw [hr, List.length_append]
    omega
  rcases readKvCache_inv crate build r hb (by omega) c h with ⟨header, i, s, b, hacc⟩
  have hv := hacc.verified
  by_cases ht : TrailerOk crate r'.bytes
  · have hv' : Verified crate kvCacheV1 kvSectionIds r'.bytes header i s b := by
      rw [hr] at ht ⊢
      exact hv.append crate tail ht
    rw [if_pos ht, readKvCache_opened crate build r' hb' hlen header i s b hv', hr,
      (hv.first.append crate tail).2, (hv.second.append crate tail).2,
      (hv.third.append crate tail).2,
      ← readKvCache_opened crate build r hb (by omega) header i s b hv, h]
  · have hlong := hv.opened.long
    rw [if_neg ht, readKvCache_not_trailerOk crate build r' hb' (by omega) ht]

end Reading

end SkegHull
