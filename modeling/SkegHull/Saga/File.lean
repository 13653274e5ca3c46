import SkegHull.Container
import SkegHull.Saga.Centroid
import SkegHull.Saga.Meta
import SkegHull.Saga.Tags

/-!
# Saga Files

A saga, and the functions that write one to a stream and read one back. Both
follow the source: the writer encodes three sections and assembles them, the
reader opens the file and then checks and decodes one section after the other.

`Saga.container` is the abstract file a saga stands for. It is total, and it is
what the writer emits when the saga is `Encodable`, which is `sagaImage_eq`. On
the other side, `readSaga_image` says the reader makes of any image with three
payloads what the section decoders make of the payloads, `decodeSagaSections`. The
payloads there are arbitrary. Forged files are images too.

## Main definitions

* `Saga`: The data.
* `writeSaga`, `readSaga`: The source functions.
* `sagaOfSections`: The half of the reader behind the section lookup.
* `Saga.Encodable`: What the writer checks.
* `Saga.container`: The abstract file.
* `decodeSagaSections`: The three section decoders in a row.

## Theorems

* `sagaImage_eq`, `sagaImage_isErr`: The writer emits the image of the abstract
  file, or returns an error.
* `readSaga_opened`: The reader on a file whose container layer is intact.
* `readSaga_inv`: What an accepted file looks like.
* `readSaga_image`: The reader on the image of three payloads.
* `readSaga_append`: The reader on an accepted file with bytes behind it.
-/

namespace SkegHull

open Lib

/-- A saga in memory. -/
structure Saga where
  tenantId : Octets 16
  builtAt : Int64
  recordCount : UInt64
  embeddingDim : UInt32
  centroids : List Centroid
  tags : List TagEntry
  deriving DecidableEq

/-- The type ids `META`, `CENTROIDS` and `TAG_AGGREGATE`. -/
def sagaSectionIds : SectionIds := ⟨1, 2, 3, distinctIds⟩

/-- Build the file image of a saga. -/
def sagaImage (crate : Crc32cCrate) (build : Build) (saga : Saga) : Outcome Error Bytes := do
  let sagaMeta : SagaMeta := {
    tenantId := saga.tenantId
    builtAt := saga.builtAt
    recordCount := saga.recordCount
    embeddingDim := saga.embeddingDim
    centroidCount := UInt32.ofNat saga.centroids.length }
  let metaBytes := sagaMeta.encode
  let centroidBytes ← Centroid.encode saga.centroids saga.embeddingDim
  let tagBytes ← Tags.encode saga.tags
  assemble crate build sagaV1 sagaSectionIds saga.builtAt metaBytes centroidBytes tagBytes

/-- Serialise a saga into the writer at position 0. -/
def writeSaga (crate : Crc32cCrate) (build : Build) (saga : Saga) (writer : Stream) :
    Outcome Error Unit × Stream :=
  writeImage (sagaImage crate build saga) writer

/-- Check and decode the located sections, one after the other. -/
def sagaOfSections (crate : Crc32cCrate) (build : Build) (all : Bytes)
    (metaEntry centroidEntry tagEntry : SectionEntry) : Outcome Error Saga := do
  let metaBytes ← readChecked crate build all metaEntry
  let sagaMeta ← SagaMeta.decode metaBytes
  let centroidBytes ← readChecked crate build all centroidEntry
  let centroids ← Centroid.decode build centroidBytes sagaMeta.centroidCount sagaMeta.embeddingDim
  let tagBytes ← readChecked crate build all tagEntry
  let tags ← Tags.decode build tagBytes
  .ok {
    tenantId := sagaMeta.tenantId
    builtAt := sagaMeta.builtAt
    recordCount := sagaMeta.recordCount
    embeddingDim := sagaMeta.embeddingDim
    centroids := centroids
    tags := tags }

/-- Read and validate a saga file. -/
def readSaga (crate : Crc32cCrate) (build : Build) (reader : Stream) : Outcome Error Saga := do
  let all ← slurp reader
  let header ← openBody crate build sagaV1 all
  let (metaEntry, centroidEntry, tagEntry) ← requireSections sagaSectionIds header.sections
  sagaOfSections crate build all metaEntry centroidEntry tagEntry

namespace Saga

/-- What the writer checks: every centroid vector has the declared dimension and
    every tag is short enough. -/
structure Encodable (s : Saga) : Prop where
  dims : ∀ c ∈ s.centroids, c.vector.length = s.embeddingDim.toNat
  tags : ∀ e ∈ s.tags, e.Short

/-- The meta block of a saga. -/
def metaBlock (s : Saga) : SagaMeta where
  tenantId := s.tenantId
  builtAt := s.builtAt
  recordCount := s.recordCount
  embeddingDim := s.embeddingDim
  centroidCount := UInt32.ofNat s.centroids.length

/-- The abstract file a saga stands for. -/
def container (s : Saga) : Container where
  version := sagaV1
  createdAt := s.builtAt
  first := s.metaBlock.encode
  second := s.centroids.flatMap Centroid.bytes
  third := toLe (UInt32.ofNat s.tags.length) ++ s.tags.flatMap TagEntry.bytes

end Saga

section Writing

variable (crate : Crc32cCrate) (build : Build) (s : Saga)

/-- The writer emits the image of the abstract file. -/
theorem sagaImage_eq (he : s.Encodable) (hf : s.container.Fits) :
    sagaImage crate build s = .ok (s.container.image crate sagaSectionIds) := by
  unfold sagaImage
  simp only
  rw [(Centroid.encode_eq s.centroids s.embeddingDim).1 he.dims, Outcome.ok_bind,
    (Tags.encode_eq s.tags).1 he.tags, Outcome.ok_bind]
  exact Container.assemble_eq crate build sagaSectionIds s.container hf

/-- A saga that is not encodable is refused. -/
theorem sagaImage_isErr (he : ¬ s.Encodable) : (sagaImage crate build s).IsErr := by
  unfold sagaImage
  simp only
  -- The centroids are encoded first, so their error comes first.
  by_cases hdims : ∀ c ∈ s.centroids, c.vector.length = s.embeddingDim.toNat
  · have htags : ∃ e ∈ s.tags, ¬ e.Short := by
      by_contra hc
      refine he ⟨hdims, fun e hmem => ?_⟩
      by_contra hshort
      exact hc ⟨e, hmem, hshort⟩
    rcases (Tags.encode_eq s.tags).2 htags with ⟨e, herr⟩
    rw [(Centroid.encode_eq s.centroids s.embeddingDim).1 hdims, Outcome.ok_bind, herr,
      Outcome.err_bind]
    exact Outcome.isErr_err e
  · have hbad : ∃ c ∈ s.centroids, c.vector.length ≠ s.embeddingDim.toNat := by
      by_contra hc
      refine hdims fun c hmem => ?_
      by_contra hne
      exact hc ⟨c, hmem, hne⟩
    rcases (Centroid.encode_eq s.centroids s.embeddingDim).2 hbad with ⟨e, herr⟩
    rw [herr, Outcome.err_bind]
    exact Outcome.isErr_err e

/-- The writer on an encodable saga and an empty stream. -/
theorem writeSaga_eq (writer : Stream) (he : s.Encodable) (hf : s.container.Fits)
    (hw : writer.bytes = []) :
    writeSaga crate build s writer = (.ok (), { writer with
      bytes := s.container.image crate sagaSectionIds
      pos := (s.container.image crate sagaSectionIds).length }) := by
  rw [writeSaga, sagaImage_eq crate build s he hf, Container.writeImage_ok _ _ hw]

/-- The image is built before the stream is touched, so a saga that is not
    encodable leaves it alone. -/
theorem writeSaga_isErr (writer : Stream) (he : ¬ s.Encodable) :
    ∃ e, writeSaga crate build s writer = (.err e, writer) := by
  rcases sagaImage_isErr crate build s he with ⟨e, herr⟩
  exact ⟨e, by rw [writeSaga, herr]; rfl⟩

theorem encodable_of_writeSaga (writer : Stream)
    (h : (writeSaga crate build s writer).1 = .ok ()) : s.Encodable := by
  by_contra hn
  rcases writeSaga_isErr crate build s writer hn with ⟨e, herr⟩
  rw [herr] at h
  cases h

end Writing

section Reading

variable (crate : Crc32cCrate) (build : Build)

/-- The three section decoders in a row. -/
def decodeSagaSections (first second third : Bytes) : Outcome Error Saga := do
  let sagaMeta ← SagaMeta.decode first
  let centroids ← Centroid.decode build second sagaMeta.centroidCount sagaMeta.embeddingDim
  let tags ← Tags.decode build third
  .ok ⟨sagaMeta.tenantId, sagaMeta.builtAt, sagaMeta.recordCount, sagaMeta.embeddingDim, centroids,
    tags⟩

/-- Once a file is opened and its sections are intact, the decoders decide. -/
theorem readSaga_opened (r : Stream) (hb : r.Benign) (hlen : r.bytes.length < 2 ^ 64)
    (header : Header) (m c t : SectionEntry)
    (hv : Verified crate sagaV1 sagaSectionIds r.bytes header m c t) :
    readSaga crate build r
      = decodeSagaSections build (m.payload r.bytes) (c.payload r.bytes) (t.payload r.bytes) := by
  have h4 : 4 ≤ r.bytes.length := by
    have hlong := hv.opened.long
    omega
  have hopen := (opened_iff crate build _ _ _ _ _ _ _).mp hv.opened
  -- Every read of a section returns its payload.
  have hread : ∀ entry : SectionEntry, entry.Intact crate r.bytes →
      readChecked crate build r.bytes entry = .ok (entry.payload r.bytes) :=
    fun entry hi => (readChecked_eq_ok_iff crate build _ _ _ h4 hlen).mpr ⟨hi, rfl⟩
  unfold readSaga sagaOfSections decodeSagaSections
  rw [slurp_benign r hb, Outcome.ok_bind, hopen.1, Outcome.ok_bind, hopen.2, Outcome.ok_bind]
  simp only [hread m hv.first, hread c hv.second, hread t hv.third, Outcome.ok_bind]

/-- The reader makes of an image what the decoders make of its payloads. -/
theorem readSaga_image (file : Container) (hv : file.version = sagaV1) (hf : file.Fits)
    (r : Stream) (hb : r.Benign) (hr : r.bytes = file.image crate sagaSectionIds) :
    readSaga crate build r = decodeSagaSections build file.first file.second file.third := by
  have hverified := Container.verified_image crate sagaSectionIds file (by rw [hv]; rfl) hf
  have hlen : (file.image crate sagaSectionIds).length < 2 ^ 64 :=
    lt_trans (Container.length_image_lt crate sagaSectionIds file hf) (by decide)
  rcases Container.payload_image crate sagaSectionIds file hf with ⟨hfirst, hsecond, hthird⟩
  rw [hv] at hverified
  rw [← hr] at hverified hlen hfirst hsecond hthird
  rw [readSaga_opened crate build r hb hlen _ _ _ _ hverified, hfirst, hsecond, hthird]

/-- An accepted file passes the container's checks, and each part of the saga is
    what its section decodes to. -/
structure SagaAccepted (all : Bytes) (saga : Saga) (header : Header) (m c t : SectionEntry) :
    Prop where
  verified : Verified crate sagaV1 sagaSectionIds all header m c t
  sections : decodeSagaSections build (m.payload all) (c.payload all) (t.payload all) = .ok saga

/-- What the reader accepts. -/
theorem readSaga_inv (r : Stream) (hb : r.Benign) (hlen : r.bytes.length < 2 ^ 64)
    (saga : Saga) (h : readSaga crate build r = .ok saga) :
    ∃ header m c t, SagaAccepted crate build r.bytes saga header m c t := by
  have h' := h
  unfold readSaga sagaOfSections at h'
  rw [slurp_benign r hb, Outcome.ok_bind] at h'
  simp only [Outcome.bind_eq_ok_iff] at h'
  -- Everything the reader did before the last decoder returned a value.
  rcases h' with ⟨header, hopen, ⟨m, c, t⟩, hsections, mb, hmb, _, _, cb, hcb, _, _, tb, htb, _⟩
  have h68 := ((openBody_eq_ok_iff crate build _ _ _).mp hopen).1
  have hread := fun entry payload => (readChecked_eq_ok_iff crate build r.bytes entry payload
    (by omega) hlen).mp
  have ho := (opened_iff crate build _ _ _ _ _ _ _).mpr ⟨hopen, hsections⟩
  have hm := (hread m mb hmb).1
  have hc := (hread c cb hcb).1
  have ht := (hread t tb htb).1
  refine ⟨header, m, c, t, ⟨ho, hm, hc, ht⟩, ?_⟩
  rw [← readSaga_opened crate build r hb hlen header m c t ⟨ho, hm, hc, ht⟩, h]

/-- A file with a wrong trailer is refused for it, if it is long enough to have one. -/
theorem readSaga_not_trailerOk (r : Stream) (hb : r.Benign) (h68 : 68 ≤ r.bytes.length)
    (ht : ¬ TrailerOk crate r.bytes) : readSaga crate build r = .err .fileChecksumFailed := by
  unfold readSaga
  rw [slurp_benign r hb, Outcome.ok_bind, openBody_not_trailerOk crate build _ _ h68 ht,
    Outcome.err_bind]

/-- Bytes behind an accepted file are told by the trailer alone. When it is right, the reader
    returns the same saga. -/
theorem readSaga_append (r r' : Stream) (hb : r.Benign) (hb' : r'.Benign) (tail : Bytes)
    (hr : r'.bytes = r.bytes ++ tail) (hlen : r'.bytes.length < 2 ^ 64) (saga : Saga)
    (h : readSaga crate build r = .ok saga) :
    readSaga crate build r' =
      if TrailerOk crate r'.bytes then .ok saga else .err .fileChecksumFailed := by
  have hle : r.bytes.length ≤ r'.bytes.length := by
    rw [hr, List.length_append]
    omega
  rcases readSaga_inv crate build r hb (by omega) saga h with ⟨header, m, c, t, hacc⟩
  have hv := hacc.verified
  by_cases ht : TrailerOk crate r'.bytes
  · have hv' : Verified crate sagaV1 sagaSectionIds r'.bytes header m c t := by
      rw [hr] at ht ⊢
      exact hv.append crate tail ht
    rw [if_pos ht, readSaga_opened crate build r' hb' hlen header m c t hv', hr,
      (hv.first.append crate tail).2, (hv.second.append crate tail).2,
      (hv.third.append crate tail).2, hacc.sections]
  · have hlong := hv.opened.long
    rw [if_neg ht, readSaga_not_trailerOk crate build r' hb' (by omega) ht]

end Reading

end SkegHull
