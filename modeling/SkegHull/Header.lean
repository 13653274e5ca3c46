import SkegHull.Format

/-!
# Header and Section Table

Every hull file starts with a 64-byte header and a table of 28-byte entries, one
per section. This module models the reader and the writer of both.

`Header.read` works on a stream, and does three different things: it moves the
stream, it parses 64 bytes, and it parses the table. The two parsers are
definitions of their own, `Preamble.decode` and `decodeTable`, and `Header.parse`
is what they compute together as a function of the file's bytes alone.
`read_benign` says that on a stream without real I/O failures `Header.read` is
`Header.parse`, whatever the schedule of short reads. From there on the
streams are out of the picture.

The writer fills zeroed buffers by copying fields into ranges, and
`write_eq` says what comes out is the concatenation `Header.bytes`.
`parse_bytes` is the round trip: the parser finds the header again in front of
any bytes at all.

## Main definitions

* `SectionEntry`, `Header`: The table entry and the header.
* `SectionEntry.readFrom`, `SectionEntry.writeTo`: One entry's codec.
* `Header.read`, `Header.write`: The source functions.
* `Header.parse`, `Header.bytes`: What they do to bytes.

## Theorems

* `read_benign`: Reading a header depends on the bytes only.
* `parse_safe`: Parsing a header never panics.
* `write_eq`: Writing a header emits `Header.bytes`.
* `parse_bytes`: A written header is read back.
* `parse_inv`: What a parsed header was parsed from.
* `parse_take`, `parse_append`: Parsing looks at the header and the table only.
-/

namespace SkegHull

open Lib

/-- A section table entry: where a section's payload lies and its checksum. -/
structure SectionEntry where
  typeId : UInt16
  flags : UInt16
  offset : UInt64
  length : UInt64
  checksum : UInt32
  deriving DecidableEq, Repr

/-- File header and section table. -/
structure Header where
  format : FormatId
  version : UInt16
  flags : UInt32
  createdAt : Int64
  bodyLen : UInt64
  sections : List SectionEntry
  deriving DecidableEq

/-- An I/O error that a caller passes on as it is. -/
def fromIo {α : Type} : Outcome IoError α → Outcome Error α
  | .ok a => .ok a
  | .err e => .err (.io e)
  | .panic p => .panic p

/-- Fill a buffer of `n` bytes from the stream. Running into the end is reported
    as a truncated file, any other failure as an I/O error. -/
def fill (reader : Stream) (n : Nat) : Outcome Error (Bytes × Stream) :=
  match reader.readExact n with
  | (.ok buf, reader) => .ok (buf, reader)
  | (.error e, _) => if e.kind = .unexpectedEof then .err .truncated else .err (.io e)

/-- `opt.ok_or(e)`. -/
def okOr {α : Type} (opt : Option α) (e : Error) : Outcome Error α :=
  match opt with
  | some a => .ok a
  | none => .err e

@[simp] theorem okOr_some {α : Type} (a : α) (e : Error) : okOr (some a) e = .ok a := rfl

@[simp] theorem okOr_none {α : Type} (e : Error) : (okOr none e : Outcome Error α) = .err e := rfl

theorem okOr_eq_ok_iff {α : Type} (opt : Option α) (e : Error) (a : α) :
    okOr opt e = .ok a ↔ opt = some a := by
  cases opt with
  | none => simp only [okOr_none, reduceCtorEq]
  | some b => simp only [okOr_some, Outcome.ok.injEq, Option.some.injEq]

@[simp] theorem safe_okOr {α : Type} (opt : Option α) (e : Error) : (okOr opt e).Safe := by
  cases opt with
  | none => exact Outcome.safe_err e
  | some a => exact Outcome.safe_ok a

theorem errs_okOr {α : Type} (P : Error → Prop) (opt : Option α) (e : Error) (h : P e) :
    (okOr opt e).Errs P := by
  cases opt with
  | none => exact (Outcome.errs_err P e).mpr h
  | some a => exact Outcome.errs_ok P a

namespace SectionEntry

/-- Parse one entry. -/
def readFrom (buf : Bytes) : Outcome Error SectionEntry := do
  failIf (buf.length < sectionEntryLen) .truncated
  let typeId ← readLe UInt16 buf 0 2
  let flags ← readLe UInt16 buf 2 4
  let offset ← readLe UInt64 buf 4 12
  let length ← readLe UInt64 buf 12 20
  let checksum ← readLe UInt32 buf 20 24
  .ok ⟨typeId, flags, offset, length, checksum⟩

/-- Write one entry into a 28-byte range of the table. -/
def writeTo (e : SectionEntry) (out : Bytes) : Bytes :=
  let out := blit out 0 (toLe e.typeId)
  let out := blit out 2 (toLe e.flags)
  let out := blit out 4 (toLe e.offset)
  let out := blit out 12 (toLe e.length)
  let out := blit out 20 (toLe e.checksum)
  blit out 24 (List.replicate 4 0)

/-- The 28 bytes of an entry. -/
def bytes (e : SectionEntry) : Bytes :=
  toLe e.typeId ++ (toLe e.flags ++ (toLe e.offset ++ (toLe e.length ++
    (toLe e.checksum ++ List.replicate 4 0))))

@[simp] theorem length_bytes (e : SectionEntry) : e.bytes.length = 28 := by
  simp only [bytes, List.length_append, length_toLe, width_uint16, width_uint64, width_uint32,
    List.length_replicate]

theorem writeTo_zeros (e : SectionEntry) : e.writeTo (List.replicate 28 0) = e.bytes := by
  unfold writeTo
  -- Each write fills the front of the zeros that are left.
  simp only [blit_zeros_start, blit_zeros, List.length_append, length_toLe, width_uint16,
    width_uint64, width_uint32, List.length_replicate, Nat.reduceAdd, Nat.reduceSub]
  simp only [bytes, List.append_assoc, List.replicate_zero, List.append_nil]

/-- The entry a 28-byte range holds. -/
def ofBytes (buf : Bytes) : SectionEntry where
  typeId := fromLe UInt16 (cut buf 0 2)
  flags := fromLe UInt16 (cut buf 2 4)
  offset := fromLe UInt64 (cut buf 4 12)
  length := fromLe UInt64 (cut buf 12 20)
  checksum := fromLe UInt32 (cut buf 20 24)

theorem readFrom_eq (buf : Bytes) (h : buf.length = 28) : readFrom buf = .ok (ofBytes buf) := by
  unfold readFrom sectionEntryLen
  rw [failIf_of_not _ _ (by omega), readLe_eq buf 0 2 (by omega) rfl,
    readLe_eq buf 2 4 (by omega) rfl, readLe_eq buf 4 12 (by omega) rfl,
    readLe_eq buf 12 20 (by omega) rfl, readLe_eq buf 20 24 (by omega) rfl]
  rfl

theorem ofBytes_bytes (e : SectionEntry) : ofBytes e.bytes = e := by
  simp only [ofBytes, bytes, cut_append_exact, cut_append_right, length_toLe, width_uint16,
    width_uint64, width_uint32, Nat.reduceLeDiff, Nat.reduceSub, fromLe_toLe, le_refl, Nat.sub_self]

end SectionEntry

namespace Header

/-- Section table offset: immediately after the header. -/
def sectionTableOffset : UInt32 := 64

/-- Total on-disk size of the section table. -/
def sectionTableLen (h : Header) : Nat := h.sections.length * sectionEntryLen

/-- Offset of the first byte after header and section table. -/
def firstPayloadOffset (h : Header) : Nat := headerLen + h.sectionTableLen

/-- The fields of the 64-byte header, with the count of the table that
    follows. -/
structure Preamble where
  format : FormatId
  version : UInt16
  flags : UInt32
  createdAt : Int64
  bodyLen : UInt64
  sectionCount : UInt32
  tableOffset : UInt32
  deriving DecidableEq

/-- Parse the 64-byte header. Bytes 40 to 63 are reserved and ignored. -/
def Preamble.decode (buf : Bytes) : Outcome Error Preamble := do
  let found ← readArray 8 buf 0 8
  failIf (found ≠ magic) (.magicMismatch found)
  let formatIdRaw ← readLe UInt16 buf 8 10
  let format ← okOr (FormatId.fromU16 formatIdRaw) (.unknownFormat formatIdRaw)
  let version ← readLe UInt16 buf 10 12
  let flags ← readLe UInt32 buf 12 16
  let createdAt ← readLe Int64 buf 16 24
  let bodyLen ← readLe UInt64 buf 24 32
  let sectionCount ← readLe UInt32 buf 32 36
  let tableOffset ← readLe UInt32 buf 36 40
  failIf (tableOffset ≠ sectionTableOffset) (.malformed
    s!"unexpected section table offset {tableOffset}; v0.1 requires {sectionTableOffset}")
  .ok ⟨format, version, flags, createdAt, bodyLen, sectionCount, tableOffset⟩

/-- Parse the section table entry by entry. -/
def decodeTable (build : Build) (count : Nat) (tableBuf : Bytes) :
    Outcome Error (List SectionEntry) :=
  (List.range count).mapM fun i => do
    let off ← build.mul i sectionEntryLen
    let stop ← build.add off sectionEntryLen
    let range ← slice tableBuf off stop
    SectionEntry.readFrom range

/-- Read a header and its section table, leaving the stream after the table. The buffer for
    the table is allocated before it is read, with 28 bytes for every entry that the header
    announces. That allocation is taken to succeed, like all others. -/
def read (build : Build) (reader : Stream) : Outcome Error (Header × Stream) := do
  let reader ← fromIo (reader.seek 0)
  let (buf, reader) ← fill reader headerLen
  let pre ← Preamble.decode buf
  let reader ← fromIo (reader.seek pre.tableOffset.toNat)
  let tableLen ← build.mul pre.sectionCount.toNat sectionEntryLen
  let (tableBuf, reader) ← fill reader tableLen
  let sections ← decodeTable build pre.sectionCount.toNat tableBuf
  .ok (⟨pre.format, pre.version, pre.flags, pre.createdAt, pre.bodyLen, sections⟩, reader)

/-- Write the header and the section table at position 0. -/
def write (h : Header) (writer : Stream) : Outcome Error Stream := do
  let writer ← fromIo (writer.seek 0)
  let buf := List.replicate headerLen 0
  let buf := blit buf 0 magic.val
  let buf := blit buf 8 (toLe h.format.asU16)
  let buf := blit buf 10 (toLe h.version)
  let buf := blit buf 12 (toLe h.flags)
  let buf := blit buf 16 (toLe h.createdAt)
  let buf := blit buf 24 (toLe h.bodyLen)
  let buf := blit buf 32 (toLe (UInt32.ofNat h.sections.length))
  let buf := blit buf 36 (toLe sectionTableOffset)
  let writer := writer.writeAll buf
  let table := List.replicate (h.sections.length * sectionEntryLen) 0
  let table := h.sections.zipIdx.foldl (fun table (sec, i) =>
    let off := i * sectionEntryLen
    blit table off (sec.writeTo (cut table off (off + sectionEntryLen)))) table
  .ok (writer.writeAll table)

/-! ### What is written -/

/-- The 64 bytes of the header. -/
def fixedBytes (h : Header) : Bytes :=
  magic.val ++ (toLe h.format.asU16 ++ (toLe h.version ++ (toLe h.flags ++ (toLe h.createdAt ++
    (toLe h.bodyLen ++ (toLe (UInt32.ofNat h.sections.length) ++ (toLe sectionTableOffset ++
      List.replicate 24 0)))))))

/-- The bytes of the section table. -/
def tableBytes (sections : List SectionEntry) : Bytes := sections.flatMap SectionEntry.bytes

/-- Everything `write` emits. -/
def bytes (h : Header) : Bytes := h.fixedBytes ++ tableBytes h.sections

@[simp] theorem length_magic : magic.val.length = 8 := magic.property

@[simp] theorem length_fixedBytes (h : Header) : h.fixedBytes.length = 64 := by
  simp only [fixedBytes, List.length_append, length_magic, length_toLe, width_uint16, width_uint32,
    width_uint64, width_int64, List.length_replicate]

@[simp] theorem length_tableBytes (sections : List SectionEntry) :
    (tableBytes sections).length = 28 * sections.length := by
  rw [tableBytes, length_flatMap_const _ 28 _ fun e _ => e.length_bytes, Nat.mul_comm]

theorem length_bytes (h : Header) : h.bytes.length = h.firstPayloadOffset := by
  simp only [bytes, List.length_append, length_fixedBytes, length_tableBytes, firstPayloadOffset,
    sectionTableLen, headerLen, sectionEntryLen]
  omega

/-- The table loop, started after `k` entries: it fills the zeros that are left
    and keeps what is there. -/
theorem table_fold (sections : List SectionEntry) (done : Bytes) (k : Nat)
    (hdone : done.length = 28 * k) :
    (sections.zipIdx k).foldl (fun table (sec, i) =>
        let off := i * sectionEntryLen
        blit table off (sec.writeTo (cut table off (off + sectionEntryLen))))
      (done ++ List.replicate (sections.length * sectionEntryLen) 0)
      = done ++ tableBytes sections := by
  induction sections generalizing done k with
  | nil => simp only [List.zipIdx_nil, List.foldl_nil, List.length_nil, Nat.zero_mul,
      List.replicate_zero, tableBytes, List.flatMap_nil]
  | cons e es ih =>
      unfold sectionEntryLen at ih ⊢
      have hoff : k * 28 = done.length := by omega
      -- The range that the entry is written into is still zeros.
      have hcut : cut (done ++ List.replicate ((e :: es).length * 28) 0) (k * 28) (k * 28 + 28)
          = List.replicate 28 0 := by
        rw [cut_append_right _ _ _ _ (by omega), hoff, Nat.sub_self, Nat.add_sub_cancel_left,
          cut_zero, List.take_replicate, List.length_cons, Nat.min_eq_left (by omega)]
      have hlen : (e :: es).length * 28 - 28 = es.length * 28 := by
        rw [List.length_cons]
        omega
      have hnext : (done ++ e.bytes).length = 28 * (k + 1) := by
        rw [List.length_append, SectionEntry.length_bytes]
        omega
      simp only [List.zipIdx_cons, List.foldl_cons]
      rw [hcut, SectionEntry.writeTo_zeros, blit_zeros _ _ _ _ hoff, SectionEntry.length_bytes,
        hlen, ih _ _ hnext, tableBytes, tableBytes, List.flatMap_cons, List.append_assoc]

/-- Writing a header emits `bytes` at position 0. -/
theorem write_eq (h : Header) (writer : Stream) :
    h.write writer
      = .ok { writer with bytes := writeAt writer.bytes 0 h.bytes, pos := h.bytes.length } := by
  have hseek : fromIo (writer.seek 0) = .ok { writer with pos := 0 } := rfl
  have htable := table_fold h.sections [] 0 rfl
  rw [List.nil_append, List.nil_append] at htable
  -- The table goes right behind the header, so the two writes are one.
  have htwo : writeAt (writeAt writer.bytes 0 h.fixedBytes) 64 (tableBytes h.sections)
      = writeAt writer.bytes 0 h.bytes := by
    have hw := writeAt_writeAt writer.bytes h.fixedBytes (tableBytes h.sections) 0
    rwa [length_fixedBytes] at hw
  unfold write
  rw [hseek, Outcome.ok_bind]
  simp only [blit_zeros_start, blit_zeros, List.length_append, length_magic, length_toLe,
    width_uint16, width_uint32, width_uint64, width_int64, headerLen, Nat.reduceAdd, Nat.reduceSub]
  rw [htable]
  simp only [List.append_assoc, Stream.writeAll, Nat.zero_add]
  rw [← fixedBytes, length_fixedBytes, htwo]
  simp only [bytes, List.length_append, length_fixedBytes]

/-! ### What is read -/

/-- The table a range of bytes holds. -/
def tableOf (count : Nat) (buf : Bytes) : List SectionEntry :=
  (List.range count).map fun i => SectionEntry.ofBytes (cut buf (28 * i) (28 * i + 28))

theorem decodeTable_eq (build : Build) (count : Nat) (buf : Bytes) (hlen : buf.length = 28 * count)
    (hcount : count < 2 ^ 32) : decodeTable build count buf = .ok (tableOf count buf) := by
  unfold decodeTable sectionEntryLen
  refine Outcome.mapM_eq_ok _ _ _ fun i hi => ?_
  have hi' : i < count := List.mem_range.mp hi
  -- The count is a 32-bit number, so no offset into the table overflows.
  rw [mul_of_lt _ _ _ (by omega), Outcome.ok_bind, add_of_lt _ _ _ (by omega), Outcome.ok_bind,
    slice_eq _ _ _ (by omega) (by omega), Outcome.ok_bind, Nat.mul_comm i,
    SectionEntry.readFrom_eq _ (by rw [length_cut_of_le _ _ _ (by omega)]; omega)]

/-- A table of raw entries is read entry by entry. -/
theorem tableOf_flatMap {α : Type} (f : α → Bytes) (l : List α) (hw : ∀ x ∈ l, (f x).length = 28) :
    tableOf l.length (l.flatMap f) = l.map fun x => SectionEntry.ofBytes (f x) := by
  refine List.ext_getElem (by simp only [tableOf, List.length_map, List.length_range]) ?_
  intro i h1 h2
  rw [List.length_map] at h2
  simp only [tableOf, List.getElem_map, List.getElem_range]
  rw [cut_flatMap_const f 28 l hw i h2]

theorem tableOf_tableBytes (sections : List SectionEntry) :
    tableOf sections.length (tableBytes sections) = sections := by
  rw [tableBytes, tableOf_flatMap _ _ fun e _ => e.length_bytes]
  simp only [SectionEntry.ofBytes_bytes, List.map_id']

/-- What `read` computes, as a function of the bytes of the file. -/
def parse (b : Bytes) : Outcome Error Header :=
  if b.length < 64 then .err .truncated
  else do
    let pre ← Preamble.decode (b.take 64)
    let count := pre.sectionCount.toNat
    if b.length < 64 + 28 * count then .err .truncated
    else .ok ⟨pre.format, pre.version, pre.flags, pre.createdAt, pre.bodyLen,
      tableOf count (cut b 64 (64 + 28 * count))⟩

/-- The fields of a 64-byte header, at their places. -/
def Preamble.ofBytes (format : FormatId) (buf : Bytes) : Preamble where
  format := format
  version := fromLe UInt16 (cut buf 10 12)
  flags := fromLe UInt32 (cut buf 12 16)
  createdAt := fromLe Int64 (cut buf 16 24)
  bodyLen := fromLe UInt64 (cut buf 24 32)
  sectionCount := fromLe UInt32 (cut buf 32 36)
  tableOffset := fromLe UInt32 (cut buf 36 40)

/-- Decoding 64 bytes: the magic, the format and the table offset are checked, and
    every other field is taken as it is. -/
theorem Preamble.decode_eq (buf : Bytes) (h : buf.length = 64) :
    Preamble.decode buf = (do
      let found : Octets 8 := ⟨cut buf 0 8, length_cut_of_le _ _ _ (by omega)⟩
      failIf (found ≠ magic) (.magicMismatch found)
      let raw := fromLe UInt16 (cut buf 8 10)
      let format ← okOr (FormatId.fromU16 raw) (.unknownFormat raw)
      let offset := fromLe UInt32 (cut buf 36 40)
      failIf (offset ≠ sectionTableOffset) (.malformed
        s!"unexpected section table offset {offset}; v0.1 requires {sectionTableOffset}")
      .ok (Preamble.ofBytes format buf)) := by
  unfold Preamble.decode
  -- All ranges are inside the 64 bytes.
  rw [readArray_eq 8 _ 0 8 (by omega) rfl, readLe_eq _ 8 10 (by omega) rfl,
    readLe_eq _ 10 12 (by omega) rfl, readLe_eq _ 12 16 (by omega) rfl,
    readLe_eq _ 16 24 (by omega) rfl, readLe_eq _ 24 32 (by omega) rfl,
    readLe_eq _ 32 36 (by omega) rfl, readLe_eq _ 36 40 (by omega) rfl]
  rfl

/-- What an accepted preamble is made of. -/
theorem Preamble.decode_eq_ok_iff (buf : Bytes) (h : buf.length = 64) (pre : Preamble) :
    Preamble.decode buf = .ok pre ↔
      cut buf 0 8 = magic.val ∧ FormatId.fromU16 (fromLe UInt16 (cut buf 8 10)) = some pre.format ∧
        fromLe UInt32 (cut buf 36 40) = sectionTableOffset ∧ pre = .ofBytes pre.format buf := by
  rw [Preamble.decode_eq buf h]
  simp only [Outcome.bind_eq_ok_iff, failIf_eq_ok_iff, not_not, okOr_eq_ok_iff, exists_const,
    Outcome.ok.injEq, ne_eq]
  constructor
  · rintro ⟨hmagic, format, hformat, hoff, rfl⟩
    exact ⟨congrArg Subtype.val hmagic, hformat, hoff, rfl⟩
  · rintro ⟨hmagic, hformat, hoff, hpre⟩
    exact ⟨Subtype.ext hmagic, pre.format, hformat, hoff, hpre.symm⟩

/-- An accepted preamble places the table right after the header. -/
theorem Preamble.decode_tableOffset (buf : Bytes) (h : buf.length = 64) (pre : Preamble)
    (hdec : Preamble.decode buf = .ok pre) : pre.tableOffset = 64 := by
  rcases (Preamble.decode_eq_ok_iff buf h pre).mp hdec with ⟨_, _, hoff, hpre⟩
  rw [hpre]
  exact hoff

/-- Filling a buffer from a benign stream takes the bytes at its position, or
    finds the file truncated. -/
theorem fill_benign (r : Stream) (n : Nat) (hb : r.Benign) (hn : r.pos + n ≤ r.bytes.length) :
    ∃ es, es <:+ r.events ∧
      fill r n = .ok (cut r.bytes r.pos (r.pos + n), ⟨r.bytes, r.pos + n, es⟩) := by
  have hrest : n ≤ r.rest.length := by
    rw [Stream.rest, List.length_drop]
    omega
  rcases Stream.readExact_benign r n hb hrest with ⟨es, hsuf, heq⟩
  refine ⟨es, hsuf, ?_⟩
  have hcut : cut r.bytes r.pos (r.pos + n) = r.rest.take n := by
    rw [cut, Stream.rest, Nat.add_sub_cancel_left]
  unfold fill
  rw [heq, hcut]
  simp only [Stream.advance, List.length_take, Nat.min_eq_left hrest]

theorem fill_eof (r : Stream) (n : Nat) (hb : r.Benign) (hp : r.pos ≤ r.bytes.length)
    (hn : r.bytes.length < r.pos + n) : fill r n = .err .truncated := by
  have hrest : r.rest.length < n := by
    rw [Stream.rest, List.length_drop]
    omega
  rcases Stream.readExact_eof r n hb hrest with ⟨e, s', hkind, heq⟩
  unfold fill
  rw [heq]
  exact if_pos hkind

/-- On a stream without real I/O failures, reading a header is parsing the
    bytes, however the reads are split, and leaves the stream after the
    table. -/
theorem read_benign (build : Build) (r : Stream) (hb : r.Benign) :
    ∃ es, es <:+ r.events ∧
      read build r = (do
        let h ← parse r.bytes
        .ok (h, ⟨r.bytes, h.firstPayloadOffset, es⟩)) := by
  have hseek : fromIo (r.seek 0) = .ok { r with pos := 0 } := rfl
  unfold read parse
  rw [hseek, Outcome.ok_bind]
  -- The three ways out: no room for the header, a bad header, no room for the table.
  by_cases h64 : r.bytes.length < 64
  · refine ⟨r.events, List.suffix_refl _, ?_⟩
    rw [if_pos h64, fill_eof { r with pos := 0 } headerLen hb (Nat.zero_le _)
      (by simp only [headerLen]; omega)]
    rfl
  rw [if_neg h64]
  rcases fill_benign { r with pos := 0 } headerLen hb (by simp only [headerLen]; omega) with
    ⟨es, hsuf, hfill⟩
  rw [hfill, Outcome.ok_bind]
  simp only [headerLen, Nat.zero_add, cut_zero]
  cases hdec : Preamble.decode (r.bytes.take 64) with
  | err e => exact ⟨es, hsuf, rfl⟩
  | panic p => exact ⟨es, hsuf, rfl⟩
  | ok pre =>
      have hoff := Preamble.decode_tableOffset _ (by rw [List.length_take]; omega) _ hdec
      -- The table follows the header, so this seek stays where the stream is.
      have hseek' : fromIo ((⟨r.bytes, 64, es⟩ : Stream).seek pre.tableOffset.toNat)
          = .ok ⟨r.bytes, 64, es⟩ := by
        rw [hoff]
        rfl
      have hcount := pre.sectionCount.toNat_lt
      have hb' : (⟨r.bytes, 64, es⟩ : Stream).Benign := Stream.benign_of_suffix r hb _ hsuf
      rw [Outcome.ok_bind, hseek', Outcome.ok_bind,
        mul_of_lt _ _ _ (by simp only [sectionEntryLen]; omega), Outcome.ok_bind, Outcome.ok_bind]
      simp only [sectionEntryLen]
      by_cases htab : r.bytes.length < 64 + 28 * pre.sectionCount.toNat
      · refine ⟨es, hsuf, ?_⟩
        rw [if_pos htab, fill_eof _ _ hb' (by simp only; omega) (by simp only; omega)]
        rfl
      rw [if_neg htab]
      rcases fill_benign ⟨r.bytes, 64, es⟩ (pre.sectionCount.toNat * 28) hb'
        (by simp only; omega) with ⟨es', hsuf', hfill'⟩
      refine ⟨es', hsuf'.trans hsuf, ?_⟩
      rw [hfill', Outcome.ok_bind]
      simp only [Nat.mul_comm _ 28]
      rw [decodeTable_eq _ _ _ (by rw [length_cut_of_le _ _ _ (by omega)]; omega) hcount]
      simp only [Outcome.ok_bind, firstPayloadOffset, sectionTableLen, tableOf, List.length_map,
        List.length_range, headerLen, sectionEntryLen, Nat.mul_comm _ 28]

/-- A written header is found again in front of any bytes. -/
theorem parse_bytes (h : Header) (hcount : h.sections.length < 2 ^ 32) (tail : Bytes) :
    parse (h.bytes ++ tail) = .ok h := by
  have hn : (UInt32.ofNat h.sections.length).toNat = h.sections.length :=
    UInt32.toNat_ofNat_of_lt hcount
  have hlen : (h.bytes ++ tail).length = 64 + 28 * h.sections.length + tail.length := by
    simp only [bytes, List.length_append, length_fixedBytes, length_tableBytes]
  have htake : (h.bytes ++ tail).take 64 = h.fixedBytes := by
    rw [bytes, List.append_assoc, List.take_left' h.length_fixedBytes]
  -- Every field of the header is read from where it was written.
  have hdec : Preamble.decode h.fixedBytes = .ok ⟨h.format, h.version, h.flags, h.createdAt,
      h.bodyLen, UInt32.ofNat h.sections.length, sectionTableOffset⟩ := by
    refine (Preamble.decode_eq_ok_iff _ h.length_fixedBytes _).mpr ?_
    simp only [Preamble.ofBytes, fixedBytes, cut_append_exact, cut_append_right, length_magic,
      length_toLe, width_uint16, width_uint32, width_uint64, width_int64, Nat.reduceLeDiff,
      Nat.reduceSub, le_refl, Nat.sub_self, fromLe_toLe, FormatId.fromU16_asU16, and_self]
  -- The table is between the header and the tail.
  have htable : cut (h.bytes ++ tail) 64 (64 + 28 * h.sections.length) = tableBytes h.sections := by
    rw [bytes, List.append_assoc, cut_append_right _ _ _ _ (by rw [length_fixedBytes]),
      length_fixedBytes, Nat.sub_self, Nat.add_sub_cancel_left,
      cut_append_exact _ _ _ (by rw [length_tableBytes])]
  unfold parse
  rw [if_neg (by omega), htake, hdec, Outcome.ok_bind]
  simp only [hn]
  rw [if_neg (by omega), htable, tableOf_tableBytes]

/-- What stands in front of a header that parses: a preamble, and as many entries
    as it announces. -/
theorem parse_inv (b : Bytes) (h : Header) (hp : parse b = .ok h) :
    ∃ pre, Preamble.decode (b.take 64) = .ok pre ∧
      64 + 28 * pre.sectionCount.toNat ≤ b.length ∧
      h = ⟨pre.format, pre.version, pre.flags, pre.createdAt, pre.bodyLen,
        tableOf pre.sectionCount.toNat (cut b 64 (64 + 28 * pre.sectionCount.toNat))⟩ := by
  unfold parse at hp
  by_cases h64 : b.length < 64
  · rw [if_pos h64] at hp
    cases hp
  rw [if_neg h64, Outcome.bind_eq_ok_iff] at hp
  rcases hp with ⟨pre, hdec, hp⟩
  simp only at hp
  by_cases htab : b.length < 64 + 28 * pre.sectionCount.toNat
  · rw [if_pos htab] at hp
    cases hp
  rw [if_neg htab, Outcome.ok.injEq] at hp
  exact ⟨pre, hdec, by omega, hp.symm⟩

/-- Parsing looks at the header and the table only: a file cut off after them
    parses the same, and one cut off inside them is truncated. -/
theorem parse_take (b : Bytes) (h : Header) (n : Nat) (hp : parse b = .ok h) :
    parse (b.take n) = if h.firstPayloadOffset ≤ n then .ok h else .err .truncated := by
  rcases parse_inv b h hp with ⟨pre, hdec, htab, hp⟩
  have hoff : h.firstPayloadOffset = 64 + 28 * pre.sectionCount.toNat := by
    rw [hp]
    simp only [firstPayloadOffset, sectionTableLen, tableOf, List.length_map, List.length_range,
      headerLen, sectionEntryLen]
    omega
  unfold parse
  rw [hoff, List.length_take]
  -- A cut inside the header, inside the table, or after both.
  by_cases hn64 : n < 64
  · rw [if_pos (by omega), if_neg (by omega)]
  rw [if_neg (by omega), List.take_take, Nat.min_eq_left (by omega), hdec, Outcome.ok_bind]
  simp only
  by_cases hn : 64 + 28 * pre.sectionCount.toNat ≤ n
  · rw [if_neg (by omega), if_pos hn, cut_take _ _ _ _ hn, hp]
  · rw [if_pos (by omega), if_neg hn]

/-- More bytes after the table do not matter. -/
theorem parse_append (b tail : Bytes) (h : Header) (hp : parse b = .ok h) :
    parse (b ++ tail) = .ok h := by
  rcases parse_inv b h hp with ⟨pre, hdec, htab, hp⟩
  unfold parse
  -- Neither range that is read reaches into the tail.
  rw [List.length_append, if_neg (by omega), List.take_append_of_le_length (by omega), hdec,
    Outcome.ok_bind]
  simp only
  rw [if_neg (by omega), cut_append_left _ _ _ _ (by omega), hp]

theorem Preamble.decode_safe (buf : Bytes) (h : buf.length = 64) : (Preamble.decode buf).Safe := by
  rw [Preamble.decode_eq buf h]
  simp only [Outcome.safe_bind_iff, safe_failIf, safe_okOr, Outcome.safe_ok, implies_true, and_self]

/-- Parsing a header never panics. -/
theorem parse_safe (b : Bytes) : (parse b).Safe := by
  unfold parse
  by_cases h64 : b.length < 64
  · rw [if_pos h64]
    exact Outcome.safe_err _
  rw [if_neg h64]
  refine Outcome.safe_bind _ _ (Preamble.decode_safe _ ?_) fun pre _ => ?_
  · rw [List.length_take]
    omega
  · simp only
    by_cases htab : b.length < 64 + 28 * pre.sectionCount.toNat
    · rw [if_pos htab]
      exact Outcome.safe_err _
    · rw [if_neg htab]
      exact Outcome.safe_ok _

/-- Filling a buffer fills all of it, or is an error. -/
theorem fill_cases (r : Stream) (n : Nat) :
    (∃ buf r', buf.length = n ∧ fill r n = .ok (buf, r')) ∨ ∃ e, fill r n = .err e := by
  unfold fill
  rcases hread : r.readExact n with ⟨_ | _, r'⟩
  · rename_i e
    refine Or.inr ?_
    by_cases hkind : e.kind = .unexpectedEof
    · exact ⟨_, if_pos hkind⟩
    · exact ⟨_, if_neg hkind⟩
  · rename_i buf
    exact Or.inl ⟨buf, r', Stream.length_of_readExact r r' n buf hread, rfl⟩

/-- Reading a header never panics, whatever the reads do. -/
theorem read_safe (build : Build) (r : Stream) : (read build r).Safe := by
  have hseek : ∀ s : Stream, (fromIo (s.seek 64)) = .ok { s with pos := 64 } := fun _ => rfl
  unfold read
  refine Outcome.safe_bind _ _ (Outcome.safe_ok _) fun r₀ _ => ?_
  rcases fill_cases r₀ headerLen with ⟨buf, r₁, hlen, hfill⟩ | ⟨e, hfill⟩
  · rw [hfill, Outcome.ok_bind]
    refine Outcome.safe_bind _ _ (Preamble.decode_safe buf hlen) fun pre hdec => ?_
    have hcount := pre.sectionCount.toNat_lt
    have hoff : pre.tableOffset.toNat = 64 := by
      rw [Preamble.decode_tableOffset buf hlen pre hdec]
      rfl
    rw [hoff, hseek, Outcome.ok_bind, mul_of_lt _ _ _ (by simp only [sectionEntryLen]; omega),
      Outcome.ok_bind]
    -- A full buffer holds every entry of the table.
    rcases fill_cases { r₁ with pos := 64 } (pre.sectionCount.toNat * sectionEntryLen) with
      ⟨table, r₂, hlen', hfill'⟩ | ⟨e, hfill'⟩
    · rw [hfill', Outcome.ok_bind]
      dsimp only
      rw [decodeTable_eq build _ table (by simp only [sectionEntryLen] at hlen'; omega) hcount]
      exact Outcome.safe_ok _
    · rw [hfill']
      exact Outcome.safe_err e
  · rw [hfill]
    exact Outcome.safe_err e

/-- Reading a header from an in-memory buffer is parsing the buffer. -/
theorem read_ofBytes (build : Build) (b : Bytes) :
    read build (Stream.ofBytes b) = (do
      let h ← parse b
      .ok (h, ⟨b, h.firstPayloadOffset, []⟩)) := by
  rcases read_benign build (Stream.ofBytes b) (Stream.benign_ofBytes b) with ⟨es, hsuf, heq⟩
  have hnil : es = [] := List.suffix_nil.mp hsuf
  rw [heq, hnil]
  rfl

end Header

end SkegHull
