import SkegHull.Saga.File
import SkegHull.KvCache.File

/-!
# Files Taken Apart

A `Container` is what the writers produce: three entries, in order, back to back.
The readers accept far more, and what they make of a file depends on far less than
all of its bytes. `Parts` is any file with a header, a table and something behind
it: the 64 bytes of the header, the table as raw 28-byte entries, and the area up
to the trailer, with a trailer that is right.

On such a file a reader comes down to three things. `openHead` is all it makes of
the header. Of the table it takes the last entry with each id it looks for, which
is `requireSections_eq`. Of the area it takes the ranges of those three entries.
`openBody_file` and the two `_file` lemmas of the readers say so, and results
about entries that may be added, moved or changed follow without another look at
the readers.

## Main definitions

* `Parts`, `Parts.file`: A file in three parts, and its bytes.
* `Parts.Counted`: The header announces the entries that are there.
* `Parts.Announces`, `Parts.Points`: A good header, and a good section.
* `openHead`: What a reader makes of a header.

## Theorems

* `Parts.exists_parts`: Every file whose trailer is right and whose header parses
  is such a file.
* `Parts.openBody_file`: Opening such a file.
* `Parts.readSaga_file`, `Parts.readKvCache_file`: Reading one.
* `Parts.points_of_split`, `Parts.points_of_area`: Entries made for a part of the
  file.
* `Parts.verified`, `Parts.points_of_verified`: A good header and three good
  sections pass the checks, and nothing else does.
* `Parts.readSaga_points`, `Parts.readKvCache_points`: What is read from a good
  file.
* `Parts.readSaga_ok_iff`, `Parts.readKvCache_ok_iff`: What is read is the last
  entry with each id.
* `readChecked_congr`: A section read from two files.
-/

namespace SkegHull

open Lib

/-- What a reader makes of the 64 bytes of a header. -/
def openHead (expected : FormatVersion) (head : Bytes) : Outcome Error Header.Preamble := do
  let pre ← Header.Preamble.decode head
  failIf (pre.format ≠ expected.format) (.formatMismatch ⟨pre.format, pre.version⟩ expected)
  failIf (pre.version ≠ 1) (.unsupportedVersion pre.format pre.version)
  .ok pre

section

variable (crate : Crc32cCrate) (build : Build)

/-- A section reads the same from two files of one length that agree on its range,
    if the range ends before the trailer. -/
theorem readChecked_congr (all all' : Bytes) (entry : SectionEntry) (h4 : 4 ≤ all.length)
    (hlt : all.length < 2 ^ 64) (hlen : all'.length = all.length)
    (hpayload : entry.stop + 4 ≤ all.length → entry.payload all' = entry.payload all) :
    readChecked crate build all' entry = readChecked crate build all entry := by
  unfold SectionEntry.payload SectionEntry.stop at hpayload
  unfold readChecked
  rw [readSection_eq build all' _ _ (by omega) (by omega), readSection_eq build all _ _ h4 hlt,
    hlen]
  by_cases hov : 2 ^ 64 ≤ entry.offset.toNat + entry.length.toNat
  · rw [if_pos hov, if_pos hov]
  rw [if_neg hov, if_neg hov]
  -- A range that reaches into the trailer is refused whatever it holds.
  by_cases hend : all.length - 4 < entry.offset.toNat + entry.length.toNat
  · rw [if_pos hend, if_pos hend]
  · rw [if_neg hend, if_neg hend, hpayload (by omega)]

end

/-- A file taken apart: the header, the table as raw entries, and everything from
    the end of the table up to the trailer. -/
structure Parts where
  head : Octets 64
  table : List (Octets 28)
  area : Bytes

namespace Parts

/-- Everything but the trailer. -/
def body (p : Parts) : Bytes := p.head.val ++ (p.table.flatMap Subtype.val ++ p.area)

/-- The file, with its trailer. -/
def file (crate : Crc32cCrate) (p : Parts) : Bytes := p.body ++ toLe (crate.crc32c p.body)

/-- The entries of the table. -/
def entries (p : Parts) : List SectionEntry :=
  p.table.map fun raw => SectionEntry.ofBytes raw.val

/-- Where the area begins. -/
def areaStart (p : Parts) : Nat := 64 + 28 * p.table.length

/-- The header announces as many entries as the table has. -/
def Counted (p : Parts) : Prop :=
  (fromLe UInt32 (cut p.head.val 32 36)).toNat = p.table.length

/-- The header that is read when the 64 bytes decode. -/
def header (p : Parts) (pre : Header.Preamble) : Header :=
  ⟨pre.format, pre.version, pre.flags, pre.createdAt, pre.bodyLen, p.entries⟩

section

variable (crate : Crc32cCrate) (build : Build) (p : Parts)

theorem length_table : (p.table.flatMap Subtype.val).length = 28 * p.table.length := by
  rw [length_flatMap_const _ 28 _ fun raw _ => raw.property, Nat.mul_comm]

@[simp] theorem length_body : p.body.length = p.areaStart + p.area.length := by
  rw [body, List.length_append, List.length_append, p.head.property, length_table, areaStart]
  omega

@[simp] theorem length_file : (p.file crate).length = p.areaStart + p.area.length + 4 := by
  rw [file, List.length_append, length_body, length_toLe, width_uint32]

theorem le_areaStart : 64 ≤ p.areaStart := Nat.le_add_right _ _

theorem bodyOf_file : bodyOf (p.file crate) = p.body := bodyOf_append _ _

theorem trailerOk_file : TrailerOk crate (p.file crate) :=
  (trailerOk_append_iff crate _ _).mpr rfl

/-- A range of the body is a range of the file. -/
theorem cut_file_left (lo hi : Nat) (h : hi ≤ p.body.length) :
    cut (p.file crate) lo hi = cut p.body lo hi := cut_append_left _ _ _ _ h

/-- A payload behind the table and in front of the trailer is a range of the
    area. -/
theorem payload_file (entry : SectionEntry) (h : p.areaStart ≤ entry.offset.toNat)
    (hstop : entry.stop ≤ p.body.length) :
    entry.payload (p.file crate)
      = cut p.area (entry.offset.toNat - p.areaStart) (entry.stop - p.areaStart) := by
  have hfront : (p.head.val ++ p.table.flatMap Subtype.val).length = p.areaStart := by
    rw [List.length_append, p.head.property, length_table, areaStart]
  rw [SectionEntry.payload, ← SectionEntry.stop, cut_file_left crate p _ _ hstop, body,
    ← List.append_assoc, cut_append_right _ _ _ _ (by omega), hfront]

/-- Parsing the header of such a file. -/
theorem parse_body (hc : p.Counted) :
    Header.parse p.body = (do
      let pre ← Header.Preamble.decode p.head.val
      .ok (p.header pre)) := by
  have hlen := p.length_body
  have htake : p.body.take 64 = p.head.val := by
    rw [body, List.take_left' p.head.property]
  have htable : cut p.body 64 (64 + 28 * p.table.length) = p.table.flatMap Subtype.val := by
    rw [body, cut_append_right _ _ _ _ (by rw [p.head.property]), p.head.property, Nat.sub_self,
      Nat.add_sub_cancel_left, cut_append_exact _ _ _ (p.length_table).symm]
  unfold areaStart at hlen
  unfold Header.parse
  rw [if_neg (by omega), htake]
  cases hdec : Header.Preamble.decode p.head.val with
  | err e => rfl
  | panic q => rfl
  | ok pre =>
      rcases (Header.Preamble.decode_eq_ok_iff _ p.head.property pre).mp hdec with ⟨_, _, _, hpre⟩
      -- The count the header holds is the number of entries that are there.
      have hcount : pre.sectionCount.toNat = p.table.length := by
        rw [hpre]
        exact hc
      simp only [Outcome.ok_bind, hcount]
      rw [if_neg (by omega), htable, Header.tableOf_flatMap _ _ fun raw _ => raw.property]
      rfl

/-- Any file with a right trailer and a header that parses is such a file. -/
theorem exists_parts (all : Bytes) (h : Header) (h4 : 4 ≤ all.length)
    (ht : TrailerOk crate all) (hp : Header.parse (bodyOf all) = .ok h) :
    ∃ p : Parts, p.file crate = all ∧ p.Counted := by
  rcases Header.parse_inv _ _ hp with ⟨pre, hdec, htab, rfl⟩
  have h64 : ((bodyOf all).take 64).length = 64 := by
    rw [List.length_take]
    omega
  rcases exists_flatMap_octets 28 pre.sectionCount.toNat
    (cut (bodyOf all) 64 (64 + 28 * pre.sectionCount.toNat))
    (by rw [length_cut_of_le _ _ _ htab]; omega) with ⟨table, hcount, htable⟩
  rcases (Header.Preamble.decode_eq_ok_iff _ h64 pre).mp hdec with ⟨_, _, _, hpre⟩
  -- The three parts, joined again, are the body.
  have hbody : body ⟨⟨_, h64⟩, table, (bodyOf all).drop (64 + 28 * pre.sectionCount.toNat)⟩
      = bodyOf all := by
    rw [body, htable]
    simp only
    rw [← cut_zero, ← List.append_assoc, cut_append_cut _ _ _ _ (Nat.zero_le _) (by omega),
      cut_zero, List.take_append_drop]
  refine ⟨⟨⟨_, h64⟩, table, (bodyOf all).drop (64 + 28 * pre.sectionCount.toNat)⟩, ?_, ?_⟩
  · rw [file, hbody]
    exact (eq_of_trailerOk crate all h4 ht).symm
  · rw [Counted, hcount, hpre]
    rfl

/-- Opening such a file: the 64 bytes of the header decide. -/
theorem openBody_file (expected : FormatVersion) (hc : p.Counted) :
    openBody crate build expected (p.file crate) = (do
      let pre ← openHead expected p.head.val
      .ok (p.header pre)) := by
  have hstart := p.le_areaStart
  rw [openBody_long crate build expected _ (by rw [length_file]; omega),
    failIf_of_not _ _ (not_not.mpr (trailerOk_file crate p)), Outcome.ok_bind, bodyOf_file,
    parse_body p hc, openHead]
  simp only [bind_assoc, Outcome.ok_bind]
  rfl

/-- Reading such a file as a saga. -/
theorem readSaga_file (hc : p.Counted) (r : Stream) (hb : r.Benign)
    (hr : r.bytes = p.file crate) :
    readSaga crate build r = (do
      let _ ← openHead sagaV1 p.head.val
      let (m, c, t) ← requireSections sagaSectionIds p.entries
      sagaOfSections crate build (p.file crate) m c t) := by
  rw [readSaga, slurp_benign r hb, Outcome.ok_bind, hr, openBody_file crate build p sagaV1 hc,
    bind_assoc]
  simp only [Outcome.ok_bind]
  rfl

/-- Reading such a file as a cache. -/
theorem readKvCache_file (hc : p.Counted) (r : Stream) (hb : r.Benign)
    (hr : r.bytes = p.file crate) :
    readKvCache crate build r = (do
      let _ ← openHead kvCacheV1 p.head.val
      let (i, s, b) ← requireSections kvSectionIds p.entries
      kvCacheOfSections crate build (p.file crate) i s b) := by
  rw [readKvCache, slurp_benign r hb, Outcome.ok_bind, hr,
    openBody_file crate build p kvCacheV1 hc, bind_assoc]
  simp only [Outcome.ok_bind]
  rfl

end

/-! ### Files that pass the checks -/

/-- The header is one of this format in version 1, and counts the table that
    follows. Flags, creation time, body length and the reserved bytes are free. -/
structure Announces (p : Parts) (format : FormatId) : Prop where
  magic : cut p.head.val 0 8 = magic.val
  format : fromLe UInt16 (cut p.head.val 8 10) = format.asU16
  version : fromLe UInt16 (cut p.head.val 10 12) = 1
  count : p.Counted
  tableOffset : fromLe UInt32 (cut p.head.val 36 40) = Header.sectionTableOffset

/-- The last entry of the table with this id points at this payload in front of
    the trailer, and has its checksum. -/
structure Points (crate : Crc32cCrate) (p : Parts) (typeId : UInt16) (payload : Bytes)
    (entry : SectionEntry) : Prop where
  last : lastWith typeId p.entries = some entry
  inside : entry.stop ≤ p.body.length
  holds : entry.payload p.body = payload
  checksum : entry.checksum = crate.crc32c payload

section

variable (crate : Crc32cCrate) (p : Parts)

theorem Announces.openHead_eq (format : FormatId) (h : p.Announces format) :
    openHead ⟨format, 1⟩ p.head.val = .ok (Header.Preamble.ofBytes format p.head.val) := by
  have hdec : Header.Preamble.decode p.head.val
      = .ok (Header.Preamble.ofBytes format p.head.val) := by
    refine (Header.Preamble.decode_eq_ok_iff _ p.head.property _).mpr
      ⟨h.magic, ?_, h.tableOffset, rfl⟩
    rw [h.format, FormatId.fromU16_asU16]
    rfl
  have hversion : (Header.Preamble.ofBytes format p.head.val).version = 1 := h.version
  unfold openHead
  rw [hdec, Outcome.ok_bind, failIf_of_not _ _ (by simp [Header.Preamble.ofBytes]),
    Outcome.ok_bind, failIf_of_not _ _ (not_not.mpr hversion), Outcome.ok_bind]

/-- The payload is the same in the file as in its body, so the section is
    intact. -/
theorem Points.intact (typeId : UInt16) (payload : Bytes) (entry : SectionEntry)
    (h : p.Points crate typeId payload entry) :
    entry.Intact crate (p.file crate) ∧ entry.payload (p.file crate) = payload := by
  have hpayload : entry.payload (p.file crate) = payload := by
    rw [← h.holds]
    exact cut_file_left crate p _ _ h.inside
  have hinside := h.inside
  rw [length_body] at hinside
  refine ⟨⟨?_, ?_⟩, hpayload⟩
  · rw [length_file]
    omega
  · rw [hpayload, h.checksum]

/-- An entry that was made for a part of the body points at it. -/
theorem points_of_split (typeId : UInt16) (payload : Bytes) (entry : SectionEntry)
    (before after : Bytes) (offset : Nat)
    (hlast : lastWith typeId p.entries = some entry)
    (hbody : p.body = before ++ (payload ++ after)) (hoff : before.length = offset)
    (ho : entry.offset = UInt64.ofNat offset) (hl : entry.length = UInt64.ofNat payload.length)
    (hcrc : entry.checksum = crate.crc32c payload) (hlt : p.body.length < 2 ^ 64) :
    p.Points crate typeId payload entry := by
  have hlen := congrArg List.length hbody
  rw [List.length_append, List.length_append] at hlen
  have ho' : entry.offset.toNat = before.length := by
    rw [ho, hoff]
    exact toNat_ofNat64 _ (by omega)
  have hl' : entry.length.toNat = payload.length := by
    rw [hl]
    exact toNat_ofNat64 _ (by omega)
  refine ⟨hlast, ?_, ?_, hcrc⟩
  · rw [SectionEntry.stop, ho', hl', hlen]
    omega
  · rw [hbody]
    exact payload_of_split entry _ _ _ ho' hl'

/-- An entry that was made for a part of the area points at it. -/
theorem points_of_area (typeId : UInt16) (payload : Bytes) (entry : SectionEntry)
    (front back : Bytes) (offset : Nat)
    (hlast : lastWith typeId p.entries = some entry)
    (harea : p.area = front ++ (payload ++ back)) (hoff : p.areaStart + front.length = offset)
    (ho : entry.offset = UInt64.ofNat offset) (hl : entry.length = UInt64.ofNat payload.length)
    (hcrc : entry.checksum = crate.crc32c payload) (hlt : p.body.length < 2 ^ 64) :
    p.Points crate typeId payload entry := by
  refine points_of_split crate p typeId payload entry
    (p.head.val ++ p.table.flatMap Subtype.val ++ front) back offset hlast ?_ ?_ ho hl hcrc hlt
  · rw [body, harea]
    simp only [List.append_assoc]
  · rw [List.length_append, List.length_append, p.head.property, length_table]
    exact hoff

/-- A file that announces the format and has the three sections passes every check
    of the reader. -/
theorem verified (format : FormatId) (ids : SectionIds) (ha : p.Announces format)
    (a b c : SectionEntry) (pa pb pc : Bytes) (h1 : p.Points crate ids.first pa a)
    (h2 : p.Points crate ids.second pb b) (h3 : p.Points crate ids.third pc c) :
    ∃ header, Verified crate ⟨format, 1⟩ ids (p.file crate) header a b c := by
  have hsections := (requireSections_eq_ok_iff ids p.entries a b c).mpr ⟨h1.last, h2.last, h3.last⟩
  refine ⟨p.header (.ofBytes format p.head.val), ?_, (h1.intact crate p).1, (h2.intact crate p).1,
    (h3.intact crate p).1⟩
  refine (opened_iff crate .release _ _ _ _ _ _ _).mpr ⟨?_, hsections⟩
  rw [openBody_file crate .release p _ ha.count, ha.openHead_eq, Outcome.ok_bind]

/-- A file that passes the checks of a reader announces the format, and the last entry with
    each id points at its payload. -/
theorem points_of_verified (hc : p.Counted) (format : FormatId) (ids : SectionIds)
    (header : Header) (a b c : SectionEntry)
    (h : Verified crate ⟨format, 1⟩ ids (p.file crate) header a b c) :
    p.Announces format ∧ p.Points crate ids.first (a.payload (p.file crate)) a ∧
      p.Points crate ids.second (b.payload (p.file crate)) b ∧
      p.Points crate ids.third (c.payload (p.file crate)) c := by
  have hparsed := h.opened.parsed
  rw [bodyOf_file, p.parse_body hc, Outcome.bind_eq_ok_iff] at hparsed
  rcases hparsed with ⟨pre, hdec, hheader⟩
  rw [Outcome.ok.injEq] at hheader
  constructor
  · rcases (Header.Preamble.decode_eq_ok_iff _ p.head.property pre).mp hdec with
      ⟨hmagic, hformat, hoffset, hpre⟩
    have hsame : pre.format = format := by
      have hfound : header.format = format := h.opened.format
      rw [← hfound, ← hheader]
      rfl
    have hversion : pre.version = 1 := by
      rw [← h.opened.version, ← hheader]
      rfl
    refine ⟨hmagic, ?_, ?_, hc, hoffset⟩
    · rw [← hsame]
      exact (FormatId.asU16_of_fromU16 _ _ hformat).symm
    · rw [← hversion, hpre]
      rfl
  · have hentries : header.sections = p.entries := by rw [← hheader, Parts.header]
    rcases (requireSections_eq_ok_iff _ _ _ _ _).mp h.opened.sections with ⟨ha, hb, hc'⟩
    rw [hentries] at ha hb hc'
    -- A range that ends before the trailer is a range of the body.
    have hpoints : ∀ (typeId : UInt16) (entry : SectionEntry),
        lastWith typeId p.entries = some entry → entry.Intact crate (p.file crate) →
        p.Points crate typeId (entry.payload (p.file crate)) entry := by
      intro typeId entry hlast hintact
      have hinside := hintact.inside
      rw [length_file, ← length_body] at hinside
      exact ⟨hlast, by omega, (cut_file_left crate p _ _ (by
        rw [SectionEntry.stop] at hinside
        omega)).symm, hintact.checksum.symm⟩
    exact ⟨hpoints _ a ha h.first, hpoints _ b hb h.second, hpoints _ c hc' h.third⟩

/-- The saga reader makes of such a file what the decoders make of the three
    payloads. -/
theorem readSaga_points (build : Build) (r : Stream) (hb : r.Benign) (hr : r.bytes = p.file crate)
    (hlen : (p.file crate).length < 2 ^ 64) (ha : p.Announces .saga) (a b c : SectionEntry)
    (pa pb pc : Bytes) (h1 : p.Points crate 1 pa a) (h2 : p.Points crate 2 pb b)
    (h3 : p.Points crate 3 pc c) :
    readSaga crate build r = decodeSagaSections build pa pb pc := by
  rcases verified crate p .saga sagaSectionIds ha a b c pa pb pc h1 h2 h3 with ⟨header, hverified⟩
  rw [← hr] at hverified hlen
  rw [readSaga_opened crate build r hb hlen header a b c hverified, hr, (h1.intact crate p).2,
    (h2.intact crate p).2, (h3.intact crate p).2]

/-- The same for the cache reader. -/
theorem readKvCache_points (build : Build) (r : Stream) (hb : r.Benign)
    (hr : r.bytes = p.file crate) (hlen : (p.file crate).length < 2 ^ 64)
    (ha : p.Announces .kvCache) (a b c : SectionEntry) (pa pb pc : Bytes)
    (h1 : p.Points crate 1 pa a) (h2 : p.Points crate 2 pb b) (h3 : p.Points crate 3 pc c) :
    readKvCache crate build r = decodeKvSections build pa pb pc := by
  rcases verified crate p .kvCache kvSectionIds ha a b c pa pb pc h1 h2 h3 with ⟨header, hverified⟩
  rw [← hr] at hverified hlen
  rw [readKvCache_opened crate build r hb hlen header a b c hverified, hr, (h1.intact crate p).2,
    (h2.intact crate p).2, (h3.intact crate p).2]

/-- A saga is read from such a file exactly when it is what the decoders make of the payloads
    that the last entries with the three ids point at. -/
theorem readSaga_ok_iff (build : Build) (hc : p.Counted)
    (hlen : (p.file crate).length < 2 ^ 64) (r : Stream) (hb : r.Benign)
    (hr : r.bytes = p.file crate) (s : Saga) :
    readSaga crate build r = .ok s ↔
      p.Announces .saga ∧ ∃ a b c pa pb pc, p.Points crate 1 pa a ∧ p.Points crate 2 pb b ∧
        p.Points crate 3 pc c ∧ decodeSagaSections build pa pb pc = .ok s := by
  constructor
  · intro h
    rcases readSaga_inv crate build r hb (by rw [hr]; exact hlen) s h with ⟨header, a, b, c, hacc⟩
    rw [hr] at hacc
    rcases points_of_verified crate p hc .saga sagaSectionIds header a b c hacc.verified with
      ⟨ha, h1, h2, h3⟩
    exact ⟨ha, a, b, c, _, _, _, h1, h2, h3, hacc.sections⟩
  · rintro ⟨ha, a, b, c, pa, pb, pc, h1, h2, h3, hs⟩
    rw [readSaga_points crate p build r hb hr hlen ha a b c pa pb pc h1 h2 h3, hs]

/-- The same for a cache. -/
theorem readKvCache_ok_iff (build : Build) (hc : p.Counted)
    (hlen : (p.file crate).length < 2 ^ 64) (r : Stream) (hb : r.Benign)
    (hr : r.bytes = p.file crate) (kv : KvCache) :
    readKvCache crate build r = .ok kv ↔
      p.Announces .kvCache ∧ ∃ a b c pa pb pc, p.Points crate 1 pa a ∧ p.Points crate 2 pb b ∧
        p.Points crate 3 pc c ∧ decodeKvSections build pa pb pc = .ok kv := by
  constructor
  · intro h
    rcases readKvCache_inv crate build r hb (by rw [hr]; exact hlen) kv h with
      ⟨header, a, b, c, hacc⟩
    have hv := hacc.verified
    rw [readKvCache_opened crate build r hb (by rw [hr]; exact hlen) header a b c hv, hr] at h
    rw [hr] at hv
    rcases points_of_verified crate p hc .kvCache kvSectionIds header a b c hv with
      ⟨ha, h1, h2, h3⟩
    exact ⟨ha, a, b, c, _, _, _, h1, h2, h3, h⟩
  · rintro ⟨ha, a, b, c, pa, pb, pc, h1, h2, h3, hkv⟩
    rw [readKvCache_points crate p build r hb hr hlen ha a b c pa pb pc h1 h2 h3, hkv]

end

end Parts

end SkegHull
