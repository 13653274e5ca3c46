import SkegHull.Burst
import SkegHull.KvCache.RoundTrip
import SkegHull.Lib.Sink
import SkegHull.Saga.RoundTrip

/-!
# Writing Over a Stream

The two `write_to` functions take anything that is `Write + Seek`. They seek to the
start, put the image there and leave what is behind it, since such a stream cannot be
cut. The two `read_from` functions read to the end of the stream and take its last four
bytes for the trailer, wherever the image ends.

So the lengths decide. An image that is at least as long as what the stream held covers
all of it, and reads back as through an empty stream. Behind a shorter image the old
content shows. The header and the sections of the new value are still all in place
(`Verified.append`), and only the trailer can tell. A value that is written over a longer
one is lost unless the last bytes of the old content are the checksum of everything in
front of them, and the reader says that the file checksum failed.

A stream may refuse a seek, a write or a flush, or take a part of what it is given and
then no more. Then `write_to` is an error and some prefix of the image is in the stream
(`writeToSink_cases`). The stream has become no longer than the image by it, so what is said
about the lengths holds of runs in which calls failed.

With CRC-32C more can be said when the old content was a file. The register ends at the
residue behind the new image as it does behind any file, and the rest of the old content
takes it to the residue from one state only. So the trailer is right exactly when the old
content, cut where the image ends, already was a file with a right trailer.

## Main definitions

* `HullValue`: A value of either format, with its `writeTo` and `readFrom`.
* `HullValue.writeToSink`: The same `write_to` on a stream that may refuse writes.
* `HullValue.written`: What it writes into an empty stream.
* `HullValue.RoundTrips`: It reads back from there.
* `writes`: Values written one after the other.
* `WritesOk`: All of these calls return `Ok`.

## Theorems

* `writeToSink_cases`, `writeToSink_plain`: What `write_to` leaves.
* `readFrom_over`: What is read when an image is over the start of something.
* `length_writes_le`, `length_writes_le_iff`: How long the stream is after a run of writes.
* `last_write_read`: What is read back after a run of writes.
* `readFrom_over_file`: The same for one write over a file, with CRC-32C.
-/

namespace SkegHull

open Lib

/-- A value of either format. -/
inductive HullValue where
  | saga (s : Saga)
  | kvCache (c : KvCache)
  deriving DecidableEq

/-- The last step of both writers, on a stream that may refuse it: seek to the start, put the
    image there, and flush. -/
def overwrite (image : Bytes) (writer : Sink) : Except IoError Unit × Sink :=
  match writer.rewind with
  | (.error e, writer) => (.error e, writer)
  | (.ok (), writer) =>
      match writer.writeAll image with
      | (.error e, writer) => (.error e, writer)
      | (.ok (), writer) => writer.flush

/-- What has been put at the start of a stream is a prefix of the image, and all of it when
    every call succeeded. -/
theorem overwrite_cases (image : Bytes) (writer : Sink) :
    ∃ n ≤ image.length,
      (overwrite image writer).2.stream.bytes = image.take n ++ writer.stream.bytes.drop n ∧
      (overwrite image writer).2.stream.events = writer.stream.events ∧
      ((overwrite image writer).1 = .ok () → n = image.length) := by
  unfold overwrite
  cases hseek : writer.rewind with
  | mk sought atStart =>
  cases sought with
  | error e =>
      rw [← Sink.rewind_error _ _ e hseek]
      exact ⟨0, Nat.zero_le _, rfl, rfl, fun h => by cases h⟩
  | ok _ =>
  have hstart := Sink.rewind_ok _ _ hseek
  rcases atStart.writeAll_cases image (by rw [hstart]; exact Nat.zero_le _) with
    ⟨n, hn, hstream, hall⟩
  -- A write at the start keeps what is behind it.
  have hbytes : (atStart.writeAll image).2.stream.bytes
      = image.take n ++ writer.stream.bytes.drop n := by
    rw [hstream, hstart]
    simp only [Stream.writeAll, writeAt_zero, List.length_take_of_le hn]
  have hevents : (atStart.writeAll image).2.stream.events = writer.stream.events := by
    rw [hstream, hstart]
    rfl
  cases hput : atStart.writeAll image with
  | mk put written =>
  rw [hput] at hbytes hevents hall
  simp only [hput]
  cases put with
  | error e => exact ⟨n, hn, hbytes, hevents, fun h => by cases h⟩
  | ok _ =>
      simp only [written.flush_stream]
      exact ⟨n, hn, hbytes, hevents, fun _ => hall rfl⟩

/-- A stream that takes everything. -/
theorem overwrite_plain (image : Bytes) (writer : Stream) :
    overwrite image (Sink.plain writer) = (.ok (), Sink.plain { writer with
      bytes := image ++ writer.bytes.drop image.length
      pos := image.length }) := by
  have hrewind : (Sink.plain writer).rewind = (.ok (), Sink.plain { writer with pos := 0 }) := rfl
  unfold overwrite
  rw [hrewind]
  simp only
  rw [Sink.writeAll_plain _ _ (Nat.zero_le _)]
  simp only [Stream.writeAll, writeAt_zero, Nat.zero_add]
  rfl

namespace HullValue

/-- `write_to` of the value's type, on a stream that takes everything. -/
def writeTo (crate : Crc32cCrate) (build : Build) (v : HullValue) (writer : Stream) :
    Outcome Error Unit × Stream :=
  match v with
  | saga s => writeSaga crate build s writer
  | kvCache c => writeKvCache crate build c writer

/-- `read_from` of the value's type. -/
def readFrom (crate : Crc32cCrate) (build : Build) (v : HullValue) (reader : Stream) :
    Outcome Error HullValue :=
  match v with
  | saga _ => do
      let s ← readSaga crate build reader
      .ok (saga s)
  | kvCache _ => do
      let c ← readKvCache crate build reader
      .ok (kvCache c)

/-- What the value writes into an empty stream, nothing when it is refused. -/
def written (crate : Crc32cCrate) (build : Build) (v : HullValue) : Bytes :=
  (v.writeTo crate build (Stream.ofBytes [])).2.bytes

/-- The value can be written into an empty stream and read back from it. -/
structure RoundTrips (crate : Crc32cCrate) (build : Build) (v : HullValue) : Prop where
  written : (v.writeTo crate build (Stream.ofBytes [])).1 = .ok ()
  read : v.readFrom crate build (v.writeTo crate build (Stream.ofBytes [])).2 = .ok v

/-- The image of the value, which is built before its stream is touched. -/
def image (crate : Crc32cCrate) (build : Build) (v : HullValue) : Outcome Error Bytes :=
  match v with
  | saga s => sagaImage crate build s
  | kvCache c => kvCacheImage crate build c

/-- `write_to` of the value's type, on a stream that may refuse writes. A value that has no
    image is refused before the stream is touched. -/
def writeToSink (crate : Crc32cCrate) (build : Build) (v : HullValue) (writer : Sink) :
    Outcome Error Unit × Sink :=
  match v.image crate build with
  | .ok image =>
      match overwrite image writer with
      | (.ok (), writer) => (.ok (), writer)
      | (.error e, writer) => (.err (.io e), writer)
  | .err e => (.err e, writer)
  | .panic p => (.panic p, writer)

section

variable (crate : Crc32cCrate) (build : Build) (v : HullValue)

theorem writeTo_eq (writer : Stream) :
    v.writeTo crate build writer = writeImage (v.image crate build) writer := by
  cases v <;> rfl

/-- Whether a value is refused does not depend on the stream. -/
theorem writeTo_fst (writer writer' : Stream) :
    (v.writeTo crate build writer).1 = (v.writeTo crate build writer').1 := by
  rw [writeTo_eq, writeTo_eq]
  cases v.image crate build with
  | ok image => rw [Container.writeImage_over, Container.writeImage_over]
  | err e => rfl
  | panic p => rfl

/-- A value writes over the start of any stream what it writes into an empty one. -/
theorem writeTo_bytes (writer : Stream) :
    (v.writeTo crate build writer).2.bytes
      = v.written crate build ++ writer.bytes.drop (v.written crate build).length := by
  have hempty : (Stream.ofBytes []).bytes = [] := rfl
  rw [written, writeTo_eq, writeTo_eq]
  cases v.image crate build with
  | ok image =>
      rw [Container.writeImage_over, Container.writeImage_ok _ _ hempty]
  | err e => rfl
  | panic p => rfl

/-- Writing does not touch the script for the reads. -/
theorem writeTo_benign (writer : Stream) (hb : writer.Benign) :
    (v.writeTo crate build writer).2.Benign := by
  rw [writeTo_eq]
  cases v.image crate build with
  | ok image =>
      rw [Container.writeImage_over]
      exact hb
  | err e => exact hb
  | panic p => exact hb

theorem written_of_image (image : Bytes) (h : v.image crate build = .ok image) :
    v.written crate build = image := by
  rw [written, writeTo_eq, h, Container.writeImage_ok _ _ rfl]

/-- Whatever the stream refuses, a prefix of what the value writes is over the start of it,
    and all of that when `write_to` returns `Ok`. -/
theorem writeToSink_cases (writer : Sink) :
    ∃ n ≤ (v.written crate build).length,
      (v.writeToSink crate build writer).2.stream.bytes
        = (v.written crate build).take n ++ writer.stream.bytes.drop n ∧
      (v.writeToSink crate build writer).2.stream.events = writer.stream.events ∧
      ((v.writeToSink crate build writer).1 = .ok () → n = (v.written crate build).length) := by
  cases himage : v.image crate build with
  | ok image =>
      rw [written_of_image crate build v image himage, writeToSink, himage]
      simp only
      rcases overwrite_cases image writer with ⟨n, hn, hbytes, hevents, hall⟩
      cases hput : overwrite image writer with
      | mk put after =>
          rw [hput] at hbytes hevents hall
          cases put with
          | ok _ => exact ⟨n, hn, hbytes, hevents, fun _ => hall rfl⟩
          | error e => exact ⟨n, hn, hbytes, hevents, fun h => by cases h⟩
  | err e =>
      rw [writeToSink, himage]
      exact ⟨0, Nat.zero_le _, rfl, rfl, fun h => by cases h⟩
  | panic p =>
      rw [writeToSink, himage]
      exact ⟨0, Nat.zero_le _, rfl, rfl, fun h => by cases h⟩

theorem writeToSink_snd (image : Bytes) (writer : Sink) (h : v.image crate build = .ok image) :
    (v.writeToSink crate build writer).2 = (overwrite image writer).2 := by
  rw [writeToSink, h]
  simp only
  split
  all_goals
    rename_i hput
    rw [hput]

theorem writeToSink_bytes (writer : Sink)
    (hok : (v.writeToSink crate build writer).1 = .ok ()) :
    (v.writeToSink crate build writer).2.stream.bytes = v.written crate build
      ++ writer.stream.bytes.drop (v.written crate build).length := by
  rcases v.writeToSink_cases crate build writer with ⟨n, _, hbytes, _, hall⟩
  rw [hbytes, hall hok, List.take_length]

theorem writeToSink_benign (writer : Sink) (hb : writer.stream.Benign) :
    (v.writeToSink crate build writer).2.stream.Benign := by
  rcases v.writeToSink_cases crate build writer with ⟨_, _, _, hevents, _⟩
  unfold Stream.Benign
  rw [hevents]
  exact hb

/-- On a stream that takes everything it is `writeTo`. -/
theorem writeToSink_plain (writer : Stream) :
    v.writeToSink crate build (Sink.plain writer)
      = ((v.writeTo crate build writer).1, Sink.plain (v.writeTo crate build writer).2) := by
  rw [writeTo_eq, writeToSink]
  cases v.image crate build with
  | ok image =>
      simp only
      rw [overwrite_plain, Container.writeImage_over]
  | err e => rfl
  | panic p => rfl

theorem readFrom_saga_iff (s : Saga) (reader : Stream) :
    (saga s).readFrom crate build reader = .ok (saga s) ↔
      readSaga crate build reader = .ok s := by
  simp only [readFrom, Outcome.bind_eq_ok_iff, Outcome.ok.injEq, saga.injEq, exists_eq_right]

theorem readFrom_kvCache_iff (c : KvCache) (reader : Stream) :
    (kvCache c).readFrom crate build reader = .ok (kvCache c) ↔
      readKvCache crate build reader = .ok c := by
  simp only [readFrom, Outcome.bind_eq_ok_iff, Outcome.ok.injEq, kvCache.injEq, exists_eq_right]

/-- Bytes behind a file that reads back are told by the trailer alone. -/
theorem readFrom_append (r r' : Stream) (hb : r.Benign) (hb' : r'.Benign) (tail : Bytes)
    (hr : r'.bytes = r.bytes ++ tail) (hlen : r'.bytes.length < 2 ^ 64)
    (h : v.readFrom crate build r = .ok v) :
    v.readFrom crate build r' =
      if TrailerOk crate r'.bytes then .ok v else .err .fileChecksumFailed := by
  cases v with
  | saga s =>
      rw [readFrom_saga_iff] at h
      rw [readFrom, readSaga_append crate build r r' hb hb' tail hr hlen s h]
      split <;> rfl
  | kvCache c =>
      rw [readFrom_kvCache_iff] at h
      rw [readFrom, readKvCache_append crate build r r' hb hb' tail hr hlen c h]
      split <;> rfl

/-- A file that reads back is no shorter than the shortest file. -/
theorem long_of_readFrom (r : Stream) (hb : r.Benign) (hlen : r.bytes.length < 2 ^ 64)
    (h : v.readFrom crate build r = .ok v) : 68 ≤ r.bytes.length := by
  cases v with
  | saga s =>
      rw [readFrom_saga_iff] at h
      rcases readSaga_inv crate build r hb hlen s h with ⟨header, m, c, t, hacc⟩
      exact hacc.verified.opened.long
  | kvCache c =>
      rw [readFrom_kvCache_iff] at h
      rcases readKvCache_inv crate build r hb hlen c h with ⟨header, i, s, b, hacc⟩
      exact hacc.verified.opened.long

theorem written_saga (s : Saga) (he : s.Encodable) (hf : s.container.Fits) :
    (saga s).written crate build = s.container.image crate sagaSectionIds := by
  rw [written, writeTo, writeSaga_eq crate build s _ he hf rfl]

theorem written_kvCache (c : KvCache) (hs : c.kvMeta.ShortName) (hf : c.container.Fits) :
    (kvCache c).written crate build = c.container.image crate kvSectionIds := by
  rw [written, writeTo, writeKvCache_eq crate build c _ hs hf rfl]

/-- Sagas that the format can hold round trip. -/
theorem roundTrips_saga (s : Saga) (hcentroids : s.centroids.length < 2 ^ 32)
    (htags : s.tags.length < 2 ^ 32) (he : s.Encodable) (hf : s.container.Fits) :
    (saga s).RoundTrips crate build := by
  have hbenign := (saga s).writeTo_benign crate build _ (Stream.benign_ofBytes [])
  have hwrite := writeSaga_eq crate build s (Stream.ofBytes []) he hf rfl
  refine ⟨by rw [writeTo, hwrite], (readFrom_saga_iff crate build s _).mpr ?_⟩
  rw [readSaga_image crate build s.container rfl hf _ hbenign (written_saga crate build s he hf)]
  exact decodeSagaSections_container build s hcentroids htags he hf

/-- Caches whose blob has the size of the shape round trip. -/
theorem roundTrips_kvCache (c : KvCache) (hs : c.kvMeta.ShortName) (hf : c.container.Fits)
    (hsize : c.shape.SizeFits) (hblob : c.kvBlob.length = c.shape.blobBytes) :
    (kvCache c).RoundTrips crate build := by
  have hbenign := (kvCache c).writeTo_benign crate build _ (Stream.benign_ofBytes [])
  have hwrite := writeKvCache_eq crate build c (Stream.ofBytes []) hs hf rfl
  refine ⟨by rw [writeTo, hwrite], (readFrom_kvCache_iff crate build c _).mpr ?_⟩
  rw [readKvCache_container crate build c hs hf _ hbenign (written_kvCache crate build c hs hf),
    KvCacheShape.expectedBlobBytes_eq build c.shape hsize, Outcome.ok_bind,
    failIf_of_not _ _ (not_not.mpr hblob), Outcome.ok_bind]

end

end HullValue

open HullValue

section

variable (crate : Crc32cCrate) (build : Build) (v : HullValue)

/-- When the image is over the start of something, the trailer decides whether the value reads
    back, and it is right when the image covers all of it. -/
theorem readFrom_over (hv : v.RoundTrips crate build) (content : Bytes) (reader : Stream)
    (hb : reader.Benign) (hlen : reader.bytes.length < 2 ^ 64)
    (hbytes : reader.bytes
      = v.written crate build ++ content.drop (v.written crate build).length) :
    v.readFrom crate build reader =
      (if TrailerOk crate reader.bytes then .ok v else .err .fileChecksumFailed) ∧
    (content.length ≤ (v.written crate build).length → TrailerOk crate reader.bytes) := by
  have hempty := v.writeTo_benign crate build (Stream.ofBytes []) (Stream.benign_ofBytes [])
  refine ⟨v.readFrom_append crate build _ _ hempty hb _ hbytes hlen hv.read, fun hcovers => ?_⟩
  -- The stream holds the image alone, and an image that reads back has a right trailer.
  rw [List.drop_eq_nil_of_le hcovers, List.append_nil] at hbytes
  have hsame := v.readFrom_append crate build _ _ hempty hempty [] (List.append_nil _).symm
    (by rw [← HullValue.written, ← hbytes]; exact hlen) hv.read
  rw [hv.read, ← HullValue.written, ← hbytes] at hsame
  by_contra hbad
  rw [if_neg hbad] at hsame
  cases hsame

/-- The stream after these values have been written to it one after the other, whatever the
    calls returned. -/
def writes (values : List HullValue) (writer : Sink) : Sink :=
  values.foldl (fun writer value => (value.writeToSink crate build writer).2) writer

/-- All of these calls return `Ok`. -/
def WritesOk : List HullValue → Sink → Prop
  | [], _ => True
  | value :: values, writer =>
      (value.writeToSink crate build writer).1 = .ok () ∧
        WritesOk values (value.writeToSink crate build writer).2

theorem writes_concat (values : List HullValue) (writer : Sink) :
    writes crate build (values ++ [v]) writer
      = (v.writeToSink crate build (writes crate build values writer)).2 := by
  rw [writes, writes, List.foldl_append, List.foldl_cons, List.foldl_nil]

theorem writes_benign (values : List HullValue) (writer : Sink) (hb : writer.stream.Benign) :
    (writes crate build values writer).stream.Benign := by
  induction values generalizing writer with
  | nil => exact hb
  | cons value values ih =>
      exact ih _ (value.writeToSink_benign crate build writer hb)

/-- A call makes the stream no longer than its image, if it was no longer before. -/
theorem length_writeToSink_le (writer : Sink) (n : Nat) (hw : writer.stream.bytes.length ≤ n)
    (hv : (v.written crate build).length ≤ n) :
    (v.writeToSink crate build writer).2.stream.bytes.length ≤ n := by
  rcases v.writeToSink_cases crate build writer with ⟨k, _, hbytes, _⟩
  rw [hbytes, List.length_append, List.length_drop, List.length_take]
  omega

/-- A call that returns `Ok` makes the stream as long as its image, if it was shorter. -/
theorem length_writeToSink (writer : Sink)
    (hok : (v.writeToSink crate build writer).1 = .ok ()) :
    (v.writeToSink crate build writer).2.stream.bytes.length
      = max (v.written crate build).length writer.stream.bytes.length := by
  rw [v.writeToSink_bytes crate build writer hok, List.length_append, List.length_drop]
  omega

/-- After a run of writes the stream is no longer than it was and than the longest image in
    the run, whatever the calls returned. -/
theorem length_writes_le (values : List HullValue) (writer : Sink) (n : Nat)
    (hw : writer.stream.bytes.length ≤ n)
    (hvalues : ∀ value ∈ values, (value.written crate build).length ≤ n) :
    (writes crate build values writer).stream.bytes.length ≤ n := by
  induction values generalizing writer with
  | nil => exact hw
  | cons value values ih =>
      rw [List.forall_mem_cons] at hvalues
      exact ih _ (length_writeToSink_le crate build value writer n hw hvalues.1) hvalues.2

/-- After a run of writes that all returned `Ok` the stream is as long as it was or as the
    longest image in the run, whichever is more. -/
theorem length_writes_le_iff (values : List HullValue) (writer : Sink)
    (hok : WritesOk crate build values writer) (n : Nat) :
    (writes crate build values writer).stream.bytes.length ≤ n ↔
      writer.stream.bytes.length ≤ n ∧
        ∀ value ∈ values, (value.written crate build).length ≤ n := by
  induction values generalizing writer with
  | nil =>
      simp only [writes, List.foldl_nil, List.not_mem_nil, false_implies, implies_true, and_true]
  | cons value values ih =>
      have hstep : writes crate build (value :: values) writer
          = writes crate build values (value.writeToSink crate build writer).2 := rfl
      rw [hstep, ih _ hok.2, length_writeToSink crate build value writer hok.1,
        List.forall_mem_cons, Nat.max_le]
      constructor
      · rintro ⟨⟨hvalue, hwriter⟩, hrest⟩
        exact ⟨hwriter, hvalue, hrest⟩
      · rintro ⟨hwriter, hvalue, hrest⟩
        exact ⟨⟨hvalue, hwriter⟩, hrest⟩

/-- When the last of a run of writes returns `Ok`, its value reads back if its image is as
    long as what the stream held before it, or if the old content that is left behind it
    happens to end in the right checksum. Otherwise reading it is an error. What the stream
    held is no longer than what it held at first and than the longest of the other images, and
    is that long when their calls returned `Ok`, too. -/
theorem last_write_read (hv : v.RoundTrips crate build) (earlier : List HullValue)
    (start : Sink) (hb : start.stream.Benign)
    (hok : (v.writeToSink crate build (writes crate build earlier start)).1 = .ok ())
    (hlen : (writes crate build (earlier ++ [v]) start).stream.bytes.length < 2 ^ 64) :
    v.readFrom crate build (writes crate build (earlier ++ [v]) start).stream =
      (if (writes crate build earlier start).stream.bytes.length
            ≤ (v.written crate build).length ∨
          TrailerOk crate (writes crate build (earlier ++ [v]) start).stream.bytes
        then .ok v else .err .fileChecksumFailed) ∧
    (∀ n, start.stream.bytes.length ≤ n →
      (∀ value ∈ earlier, (value.written crate build).length ≤ n) →
      (writes crate build earlier start).stream.bytes.length ≤ n) ∧
    (WritesOk crate build earlier start → ∀ n,
      (writes crate build earlier start).stream.bytes.length ≤ n ↔
        start.stream.bytes.length ≤ n ∧
          ∀ value ∈ earlier, (value.written crate build).length ≤ n) := by
  refine ⟨?_, length_writes_le crate build earlier start,
    length_writes_le_iff crate build earlier start⟩
  rw [writes_concat] at hlen ⊢
  rcases readFrom_over crate build v hv _ _
    (v.writeToSink_benign crate build _ (writes_benign crate build earlier start hb)) hlen
    (v.writeToSink_bytes crate build _ hok) with ⟨hread, hcovers⟩
  rw [hread]
  by_cases ht : TrailerOk crate
      (v.writeToSink crate build (writes crate build earlier start)).2.stream.bytes
  · rw [if_pos ht, if_pos (Or.inr ht)]
  · rw [if_neg ht, if_neg]
    rintro (hlong | ht')
    · exact ht (hcovers hlong)
    · exact ht ht'

end

/-- The sample saga is shorter than the sample cache. -/
theorem length_written_samples :
    ((saga sampleSaga).written castagnoli .release).length = 243 ∧
    ((kvCache sampleKvCache).written castagnoli .release).length = 322 := by
  rw [written_saga castagnoli .release _ sampleSaga_encodable sampleSaga_fits,
    written_kvCache castagnoli .release _ (by decide) sampleKvCache_fits, Container.length_image,
    Container.length_image]
  decide

theorem roundTrips_sampleSaga : (saga sampleSaga).RoundTrips castagnoli .release :=
  roundTrips_saga castagnoli .release sampleSaga (by decide) (by decide) sampleSaga_encodable
    sampleSaga_fits

theorem roundTrips_sampleKvCache : (kvCache sampleKvCache).RoundTrips castagnoli .release :=
  roundTrips_kvCache castagnoli .release sampleKvCache (by decide) sampleKvCache_fits (by decide)
    (by decide)

/-- A stream whose first write fails after five bytes of it, and which takes everything
    afterwards. -/
def fullOnce : Sink := ⟨Stream.ofBytes [], [.pass 0, .pass 5, .fail ⟨.other, "disk full"⟩]⟩

/-- A write that is cut short leaves no script behind. -/
theorem overwrite_fullOnce (image : Bytes) (h : 5 < image.length) :
    (overwrite image fullOnce).2.calls = [] := by
  have hfront : image ≠ [] := List.ne_nil_of_length_pos (by omega)
  have hback : image.drop 5 ≠ [] := by
    rw [ne_eq, List.drop_eq_nil_iff]
    omega
  have hwrite : (⟨Stream.ofBytes [], [.pass 5, .fail ⟨.other, "disk full"⟩]⟩ : Sink).write image
      = (.ok (4 + 1), ⟨(Stream.ofBytes []).writeAll (image.take 5),
        [.fail ⟨.other, "disk full"⟩]⟩) := by
    rw [Sink.write]
    simp only [Nat.min_eq_left (Nat.le_of_lt h)]
  have hseek : fullOnce.rewind
      = (.ok (), ⟨Stream.ofBytes [], [.pass 5, .fail ⟨.other, "disk full"⟩]⟩) := rfl
  rw [overwrite, hseek]
  simp only
  rw [Sink.writeAll_of_ok _ _ _ 4 hfront hwrite,
    Sink.writeAll_of_error _ _ _ _ hback rfl (by decide)]

/-- A cache is read back after a saga could not be written before it. -/
theorem last_write_read_sample :
    (kvCache sampleKvCache).readFrom castagnoli .release
        (writes castagnoli .release [saga sampleSaga, kvCache sampleKvCache] fullOnce).stream
      = .ok (kvCache sampleKvCache) := by
  rcases length_written_samples with ⟨hsaga, hcache⟩
  have himage : (saga sampleSaga).image castagnoli .release
      = .ok (sampleSaga.container.image castagnoli sagaSectionIds) :=
    sagaImage_eq castagnoli .release sampleSaga sampleSaga_encodable sampleSaga_fits
  have hcalls : (writes castagnoli .release [saga sampleSaga] fullOnce).calls = [] := by
    rw [writes, List.foldl_cons, List.foldl_nil, writeToSink_snd _ _ _ _ _ himage]
    refine overwrite_fullOnce _ ?_
    rw [← written_of_image _ _ _ _ himage, hsaga]
    decide
  have hplain : writes castagnoli .release [saga sampleSaga] fullOnce
      = Sink.plain (writes castagnoli .release [saga sampleSaga] fullOnce).stream := by
    rw [Sink.plain, ← hcalls]
  have hok : ((kvCache sampleKvCache).writeToSink castagnoli .release
      (writes castagnoli .release [saga sampleSaga] fullOnce)).1 = .ok () := by
    rw [hplain, writeToSink_plain, writeTo_fst _ _ _ _ (Stream.ofBytes [])]
    exact roundTrips_sampleKvCache.written
  have hshort : ∀ value ∈ [saga sampleSaga],
      (value.written castagnoli .release).length ≤ 322 := by
    rw [List.forall_mem_singleton]
    omega
  have hlen := length_writes_le castagnoli .release ([saga sampleSaga] ++ [kvCache sampleKvCache])
    fullOnce 322 (Nat.zero_le _) (by
      rw [List.forall_mem_append, List.forall_mem_singleton, List.forall_mem_singleton]
      omega)
  have hlast := last_write_read castagnoli .release (kvCache sampleKvCache)
    roundTrips_sampleKvCache [saga sampleSaga] fullOnce (Stream.benign_ofBytes []) hok
    (lt_of_le_of_lt hlen (by decide))
  refine hlast.1.trans (if_pos (Or.inl ?_))
  rw [hcache]
  exact hlast.2.1 322 (Nat.zero_le _) hshort

/-- A saga whose image is one byte longer than that of the other. -/
def longSaga : Saga := { sampleSaga with tags := [⟨5, "notes!"⟩] }

theorem longSaga_encodable : longSaga.Encodable where
  dims := by decide
  tags := by decide

theorem longSaga_fits : longSaga.container.Fits := by
  unfold Container.Fits
  decide

theorem roundTrips_longSaga : (saga longSaga).RoundTrips castagnoli .release :=
  roundTrips_saga castagnoli .release longSaga (by decide) (by decide) longSaga_encodable
    longSaga_fits

theorem length_written_longSaga :
    ((saga longSaga).written castagnoli .release).length = 244 := by
  rw [written_saga castagnoli .release _ longSaga_encodable longSaga_fits, Container.length_image]
  decide

/-- A stream in memory, which is empty and takes everything. -/
def emptyBuffer : Sink := Sink.plain (Stream.ofBytes [])

/-- The two sagas in it, one after the other. -/
theorem writes_longSaga :
    writes castagnoli .release [saga longSaga, saga sampleSaga] emptyBuffer =
      Sink.plain ((saga sampleSaga).writeTo castagnoli .release
        ((saga longSaga).writeTo castagnoli .release (Stream.ofBytes [])).2).2 := by
  rw [writes, List.foldl_cons, List.foldl_cons, List.foldl_nil, emptyBuffer, writeToSink_plain,
    writeToSink_plain]

/-- What the longer saga leaves behind the shorter one is no checksum of it. -/
theorem not_trailerOk_longSaga :
    ¬ TrailerOk castagnoli ((saga sampleSaga).writeTo castagnoli .release
      ((saga longSaga).writeTo castagnoli .release (Stream.ofBytes [])).2).2.bytes := by
  set_option maxRecDepth 4000 in
  decide +kernel

/-- Two sagas that both round trip are written to one stream, the longer one first. Both
    writes succeed, and the second saga cannot be read. -/
theorem shorter_write_lost :
    (saga longSaga).RoundTrips castagnoli .release ∧
    (saga sampleSaga).RoundTrips castagnoli .release ∧
    WritesOk castagnoli .release [saga longSaga, saga sampleSaga] emptyBuffer ∧
    (saga sampleSaga).readFrom castagnoli .release
        (writes castagnoli .release [saga longSaga, saga sampleSaga] emptyBuffer).stream
      = .err .fileChecksumFailed := by
  have hlong := roundTrips_longSaga.written
  refine ⟨roundTrips_longSaga, roundTrips_sampleSaga, ?_, ?_⟩
  · rw [WritesOk, WritesOk, WritesOk, emptyBuffer, writeToSink_plain, writeToSink_plain]
    refine ⟨hlong, ?_, trivial⟩
    rw [writeTo_fst _ _ _ _ (Stream.ofBytes [])]
    exact roundTrips_sampleSaga.written
  · have hlen := length_writes_le castagnoli .release [saga longSaga, saga sampleSaga]
      emptyBuffer 244 (Nat.zero_le _) (by
        rw [List.forall_mem_cons, List.forall_mem_singleton]
        have hsaga := length_written_samples.1
        have hother := length_written_longSaga
        omega)
    rw [writes_longSaga] at hlen ⊢
    have hread := readFrom_over castagnoli .release (saga sampleSaga) roundTrips_sampleSaga _ _
      (writeTo_benign _ _ _ _ (writeTo_benign _ _ _ _ (Stream.benign_ofBytes [])))
      (lt_of_le_of_lt hlen (by decide)) (writeTo_bytes _ _ _ _)
    exact hread.1.trans (if_neg not_trailerOk_longSaga)

section

variable (crate : Crc32cCrate) (build : Build) (v : HullValue)

/-! ### Over a file, with CRC-32C -/

/-- An image over a longer file leaves a right trailer exactly when the file had one where
    the image ends. -/
theorem trailerOk_over_iff (hs : crate.Standard) (image content : Bytes) (h4 : 4 ≤ image.length)
    (hle : image.length ≤ content.length) (himage : TrailerOk crate image)
    (hcontent : TrailerOk crate content) :
    TrailerOk crate (image ++ content.drop image.length) ↔
      TrailerOk crate (content.take image.length) := by
  have htake : (content.take image.length).length = image.length := by
    rw [List.length_take, Nat.min_eq_left hle]
  rw [← List.take_append_drop image.length content,
    trailerOk_iff_residue crate hs _ (by rw [List.length_append]; omega), symbols_append,
    Crc.run_append] at hcontent
  rw [trailerOk_iff_residue crate hs image h4] at himage
  rw [trailerOk_iff_residue crate hs _ (by rw [List.length_append]; omega), symbols_append,
    Crc.run_append, himage, trailerOk_iff_residue crate hs _ (by omega)]
  constructor
  · intro h
    -- Both registers reach the residue over the same bytes.
    apply Crc.run_injective castagnoliPoly castagnoliPoly_msb
      (symbols (content.drop image.length))
    exact hcontent.trans h.symm
  · intro h
    rw [h] at hcontent
    exact hcontent

/-- A value that is written over a longer file reads back exactly when the file had a right
    trailer where the image ends. -/
theorem readFrom_over_file (hs : crate.Standard) (hv : v.RoundTrips crate build)
    (writer : Stream) (hb : writer.Benign) (hlen : writer.bytes.length < 2 ^ 64)
    (hle : (v.written crate build).length ≤ writer.bytes.length)
    (hfile : TrailerOk crate writer.bytes) :
    v.readFrom crate build (v.writeTo crate build writer).2 =
      if TrailerOk crate (writer.bytes.take (v.written crate build).length) then .ok v
      else .err .fileChecksumFailed := by
  have hover := v.writeTo_bytes crate build writer
  have hlength := congrArg List.length hover
  rw [List.length_append, List.length_drop] at hlength
  have hempty := readFrom_over crate build v hv [] (v.writeTo crate build (Stream.ofBytes [])).2
    (v.writeTo_benign crate build _ (Stream.benign_ofBytes []))
    (by rw [← HullValue.written]; omega)
    (by rw [← HullValue.written, List.drop_nil, List.append_nil])
  have himage : TrailerOk crate (v.written crate build) := hempty.2 (Nat.zero_le _)
  have hlong : 68 ≤ (v.written crate build).length :=
    v.long_of_readFrom crate build _ (v.writeTo_benign crate build _ (Stream.benign_ofBytes []))
      (by rw [← HullValue.written]; omega) hv.read
  rw [(readFrom_over crate build v hv writer.bytes _ (v.writeTo_benign crate build _ hb) (by omega)
    hover).1, hover]
  simp only [trailerOk_over_iff crate hs _ _ (by omega) hle himage hfile]

end

end SkegHull
