import Mathlib.Data.List.Induction
import SkegHull.Checksum
import SkegHull.Header

/-!
# Containers

What the two formats share. A saga file and a KV cache file are both a header, a
table of three entries, three payloads back to back, and a trailing checksum,
and the two readers and the two writers are the same code around different
payload codecs. That code is modelled once here. Each format instantiates it
with its own ids and version, and the source's own function bodies are these
steps with the codecs in between.

On the reading side the steps are `openBody`, which checks the trailer and
parses the header, `requireSections`, which picks the three entries out of the
table, and `readChecked`, which cuts a payload out and compares its checksum. On
the writing side there is one step, `assemble`.

`Container` is what a file is for: a format, a time, and three payloads. Its
`image` is the byte string that stands for it, and the results say the code
agrees. `assemble_eq` is that the writer emits the image, `opened_image` that the
reader gets through to the sections of it, and `holds_first`, `holds_second` and
`holds_third` that each entry points at what was put there.

## Main definitions

* `slurp`, `openBody`, `requireSections`, `readSection`, `readChecked`: The
  reader's steps.
* `assemble`, `writeImage`: The writer's steps.
* `SectionIds`: The three type ids of a format.
* `Opened`, `SectionEntry.Intact`: What the reader's steps check.
* `Container`, `Container.image`: The abstract file and its bytes.

## Theorems

* `slurp_benign`: Slurping a benign stream gives its bytes.
* `openBody_eq_ok_iff`: What an accepted file looks like up to its header.
* `requireSections_eq_ok_iff`: The sections that are located.
* `readChecked_eq_ok_iff`: What an accepted section looks like.
* `Verified.append`: Bytes behind a file matter to its trailer only.
* `assemble_eq`: The writer emits the image.
* `opened_image`, `verified_image`: An image passes the container's checks.
* `holds_first`, `holds_second`, `holds_third`: Its entries point at the three
  payloads.
-/

namespace SkegHull

open Lib

/-! ### The reader's steps -/

/-- Read the whole file into memory from position 0. -/
def slurp (reader : Stream) : Outcome Error Bytes := do
  let reader ← fromIo (reader.seek 0)
  match reader.readToEnd with
  | (.ok all, _) => .ok all
  | (.error e, _) => .err (.io e)

/-- Verify the trailing checksum, parse the header and the table, and check
    format and version. -/
def openBody (crate : Crc32cCrate) (build : Build) (expected : FormatVersion) (all : Bytes) :
    Outcome Error Header := do
  failIf (all.length < fileChecksumLen + 64) .truncated
  let bodyEnd ← build.sub all.length fileChecksumLen
  let storedTrailer ← readLe UInt32 all bodyEnd all.length
  let body ← slice all 0 bodyEnd
  let computedTrailer := crate.crc32c body
  -- The trailer is checked before anything else is looked at.
  failIf (storedTrailer ≠ computedTrailer) .fileChecksumFailed
  let (header, _) ← Header.read build (Stream.ofBytes body)
  let found : FormatVersion := ⟨header.format, header.version⟩
  failIf (found.format ≠ expected.format) (.formatMismatch found expected)
  match checkCompatibility found with
  | .compatible => .ok header
  | .compatibleWithWarnings _ => .ok header
  | .incompatible found _ => .err (.unsupportedVersion found.format found.version)

/-- The type ids of a format's three sections. -/
structure SectionIds where
  first : UInt16
  second : UInt16
  third : UInt16
  distinct : first ≠ second ∧ first ≠ third ∧ second ≠ third

/-- Both formats number their sections from one. -/
theorem distinctIds : (1 : UInt16) ≠ 2 ∧ (1 : UInt16) ≠ 3 ∧ (2 : UInt16) ≠ 3 := by decide

/-- The id is one of the three. -/
def SectionIds.Contains (ids : SectionIds) (typeId : UInt16) : Prop :=
  typeId = ids.first ∨ typeId = ids.second ∨ typeId = ids.third

/-- The entries found so far for the three ids. -/
structure Located where
  first : Option SectionEntry
  second : Option SectionEntry
  third : Option SectionEntry
  deriving DecidableEq

/-- One turn of the loop over the table: an entry with one of the three ids
    replaces what was found for it before, any other entry is ignored. -/
def Located.visit (ids : SectionIds) (found : Located) (sec : SectionEntry) : Located :=
  if sec.typeId = ids.first then { found with first := some sec }
  else if sec.typeId = ids.second then { found with second := some sec }
  else if sec.typeId = ids.third then { found with third := some sec }
  else found

/-- Locate the required sections by type id. -/
def requireSections (ids : SectionIds) (sections : List SectionEntry) :
    Outcome Error (SectionEntry × SectionEntry × SectionEntry) := do
  let found := sections.foldl (Located.visit ids) ⟨none, none, none⟩
  let first ← okOr found.first (.missingSection ids.first)
  let second ← okOr found.second (.missingSection ids.second)
  let third ← okOr found.third (.missingSection ids.third)
  .ok (first, second, third)

/-- Cut a section's payload out of the file. -/
def readSection (build : Build) (all : Bytes) (offset length : UInt64) : Outcome Error Bytes := do
  let start := offset.toNat
  -- The sum is checked, so a forged length cannot wrap around.
  let stop ← okOr (checkedAdd start length.toNat) (.malformed "section length overflow")
  let limit ← build.sub all.length fileChecksumLen
  failIf (limit < stop) .truncated
  slice all start stop

/-- Read a section's payload and compare its checksum. -/
def readChecked (crate : Crc32cCrate) (build : Build) (all : Bytes) (entry : SectionEntry) :
    Outcome Error Bytes := do
  let bytes ← readSection build all entry.offset entry.length
  failIf (crate.crc32c bytes ≠ entry.checksum) (.sectionChecksumFailed entry.typeId)
  .ok bytes

/-! ### The writer's steps -/

/-- Build the file image around three payloads: offsets, header, table,
    payloads, trailer. -/
def assemble (crate : Crc32cCrate) (build : Build) (version : FormatVersion) (ids : SectionIds)
    (createdAt : Int64) (first second third : Bytes) : Outcome Error Bytes := do
  let tableLen ← build.mul 3 sectionEntryLen
  let firstOffset ← build.add headerLen tableLen
  let secondOffset ← build.add firstOffset first.length
  let thirdOffset ← build.add secondOffset second.length
  let bodyLen ← build.add tableLen first.length
  let bodyLen ← build.add bodyLen second.length
  let bodyLen ← build.add bodyLen third.length
  let header : Header := {
    format := version.format
    version := version.version
    flags := 0
    createdAt := createdAt
    bodyLen := UInt64.ofNat bodyLen
    sections := [
      { typeId := ids.first, flags := 0, offset := UInt64.ofNat firstOffset,
        length := UInt64.ofNat first.length, checksum := crate.crc32c first },
      { typeId := ids.second, flags := 0, offset := UInt64.ofNat secondOffset,
        length := UInt64.ofNat second.length, checksum := crate.crc32c second },
      { typeId := ids.third, flags := 0, offset := UInt64.ofNat thirdOffset,
        length := UInt64.ofNat third.length, checksum := crate.crc32c third }] }
  -- `body_len` counts the table and the payloads, not the header.
  let totalLen ← build.add headerLen bodyLen
  let cursor ← header.write (Stream.ofBytes [])
  let image := cursor.bytes
  build.debugAssert (image.length = firstOffset)
  let image := image ++ first
  let image := image ++ second
  let image := image ++ third
  build.debugAssert (image.length = totalLen)
  let trailer := crate.crc32c image
  .ok (image ++ toLe trailer)

/-- Flush a finished image to the writer at position 0. When there is no image
    the writer has not been touched. -/
def writeImage (image : Outcome Error Bytes) (writer : Stream) : Outcome Error Unit × Stream :=
  match image with
  | .ok image =>
      match fromIo (writer.seek 0) with
      | .ok writer => (.ok (), writer.writeAll image)
      | .err e => (.err e, writer)
      | .panic p => (.panic p, writer)
  | .err e => (.err e, writer)
  | .panic p => (.panic p, writer)

/-! ### What the reader's steps compute -/

section Reading

variable (crate : Crc32cCrate) (build : Build)

/-- Slurping a stream without real I/O failures gives its bytes, wherever it
    stood. -/
theorem slurp_benign (r : Stream) (hb : r.Benign) : slurp r = .ok r.bytes := by
  have hseek : fromIo (r.seek 0) = .ok { r with pos := 0 } := rfl
  have hb' : ({ r with pos := 0 } : Stream).Benign := hb
  rcases Stream.readToEnd_benign _ hb' with ⟨s', heq⟩
  unfold slurp
  rw [hseek, Outcome.ok_bind, heq]
  rfl

/-- The trailer the last four bytes of a file store. -/
def storedTrailer (all : Bytes) : UInt32 :=
  fromLe UInt32 (cut all (all.length - 4) all.length)

/-- Everything but the trailer. -/
def bodyOf (all : Bytes) : Bytes := all.take (all.length - 4)

/-- The last four bytes are the checksum of everything before them. -/
def TrailerOk (all : Bytes) : Prop := storedTrailer all = crate.crc32c (bodyOf all)

instance (all : Bytes) : Decidable (TrailerOk crate all) :=
  inferInstanceAs (Decidable (_ = _))

theorem bodyOf_append (b : Bytes) (trailer : UInt32) : bodyOf (b ++ toLe trailer) = b := by
  rw [bodyOf, List.length_append, length_toLe, width_uint32, Nat.add_sub_cancel, List.take_left]

/-- The body of a file starts the body of the file with more bytes behind it. -/
theorem bodyOf_prefix (all tail : Bytes) : bodyOf all <+: bodyOf (all ++ tail) := by
  have htake : bodyOf all = (bodyOf (all ++ tail)).take (all.length - 4) := by
    rw [bodyOf, bodyOf, List.take_take, List.length_append, Nat.min_eq_left (by omega),
      List.take_append_of_le_length (by omega)]
  rw [htake]
  exact List.take_prefix _ _

/-- A file whose trailer is right is its body and the checksum of the body. -/
theorem eq_of_trailerOk (all : Bytes) (h4 : 4 ≤ all.length) (h : TrailerOk crate all) :
    all = bodyOf all ++ toLe (crate.crc32c (bodyOf all)) := by
  have hstored : toLe (storedTrailer all) = cut all (all.length - 4) all.length :=
    toLe_cut all _ _ (le_refl _) (by rw [width_uint32]; omega)
  rw [← h, hstored, bodyOf, ← cut_zero, cut_append_cut _ _ _ _ (Nat.zero_le _) (by omega),
    cut_exact _ _ rfl]

/-- A trailer is right when it is the checksum of what is in front of it. -/
theorem trailerOk_append_iff (b : Bytes) (trailer : UInt32) :
    TrailerOk crate (b ++ toLe trailer) ↔ trailer = crate.crc32c b := by
  have hstored : storedTrailer (b ++ toLe trailer) = trailer := by
    rw [storedTrailer, List.length_append, length_toLe, width_uint32, Nat.add_sub_cancel,
      cut_append_right _ _ _ _ (le_refl _), Nat.sub_self, Nat.add_sub_cancel_left,
      cut_exact _ 4 (by rw [length_toLe, width_uint32]), fromLe_toLe]
  rw [TrailerOk, hstored, bodyOf_append]

theorem openBody_short (expected : FormatVersion) (all : Bytes) (h : all.length < 68) :
    openBody crate build expected all = .err .truncated := by
  unfold openBody
  rw [failIf_of _ _ (by simp only [fileChecksumLen]; omega), Outcome.err_bind]

/-- `openBody` on a file that is long enough: the trailer decides first, then
    the header, then format and version. -/
theorem openBody_long (expected : FormatVersion) (all : Bytes) (h : 68 ≤ all.length) :
    openBody crate build expected all = (do
      failIf (¬ TrailerOk crate all) .fileChecksumFailed
      let header ← Header.parse (bodyOf all)
      failIf (header.format ≠ expected.format)
        (.formatMismatch ⟨header.format, header.version⟩ expected)
      failIf (header.version ≠ 1) (.unsupportedVersion header.format header.version)
      .ok header) := by
  unfold openBody
  rw [failIf_of_not _ _ (by simp only [fileChecksumLen]; omega), Outcome.ok_bind,
    sub_of_le _ _ _ (by simp only [fileChecksumLen]; omega), Outcome.ok_bind]
  simp only [fileChecksumLen]
  rw [readLe_eq _ _ _ (le_refl _) (by simp only [width_uint32]; omega), Outcome.ok_bind,
    slice_eq _ _ _ (Nat.zero_le _) (by omega), Outcome.ok_bind, cut_zero]
  -- What is left after the trailer check is the same step by step.
  refine bind_congr fun _ => ?_
  rw [Header.read_ofBytes, bind_assoc]
  refine bind_congr fun header => ?_
  rw [Outcome.ok_bind]
  refine bind_congr fun _ => ?_
  -- Version one is the only one that is supported.
  by_cases hv : header.version = 1
  · rw [hv, checkCompatibility_one, failIf_of_not _ _ (by simp only [ne_eq, not_true_eq_false,
      not_false_eq_true])]
    rfl
  · rw [checkCompatibility_ne_one _ _ hv, failIf_of _ _ hv]
    rfl

/-- A file that is long enough and has a wrong trailer is not looked at any further. -/
theorem openBody_not_trailerOk (expected : FormatVersion) (all : Bytes) (h : 68 ≤ all.length)
    (ht : ¬ TrailerOk crate all) :
    openBody crate build expected all = .err .fileChecksumFailed := by
  rw [openBody_long crate build expected all h, failIf_of _ _ ht, Outcome.err_bind]

/-- `openBody` on a file whose bytes, trailer included, parse as a supported
    header: the trailer decides, and whether it leaves the table whole. -/
theorem openBody_of_parse (expected : FormatVersion) (all : Bytes) (header : Header)
    (hparse : Header.parse all = .ok header) (hformat : header.format = expected.format)
    (hversion : header.version = 1) :
    openBody crate build expected all =
      if all.length < 68 then .err .truncated
      else if ¬ TrailerOk crate all then .err .fileChecksumFailed
      else if all.length < header.firstPayloadOffset + 4 then .err .truncated
      else .ok header := by
  by_cases hlen : all.length < 68
  · rw [if_pos hlen, openBody_short _ _ _ _ hlen]
  rw [if_neg hlen, openBody_long _ _ _ _ (by omega)]
  by_cases ht : TrailerOk crate all
  · rw [failIf_of_not _ _ (not_not.mpr ht), if_neg (not_not.mpr ht), Outcome.ok_bind, bodyOf,
      Header.parse_take all header _ hparse]
    -- Without its last four bytes the file may end inside the table.
    by_cases hend : all.length < header.firstPayloadOffset + 4
    · rw [if_neg (by omega), if_pos hend, Outcome.err_bind]
    · rw [if_pos (by omega), if_neg hend, Outcome.ok_bind,
        failIf_of_not _ _ (not_not.mpr hformat), Outcome.ok_bind,
        failIf_of_not _ _ (not_not.mpr hversion), Outcome.ok_bind]
  · rw [failIf_of _ _ ht, if_pos ht, Outcome.err_bind]

/-- What an accepted file looks like up to its header. -/
theorem openBody_eq_ok_iff (expected : FormatVersion) (all : Bytes) (h : Header) :
    openBody crate build expected all = .ok h ↔
      68 ≤ all.length ∧ TrailerOk crate all ∧ Header.parse (bodyOf all) = .ok h ∧
        h.format = expected.format ∧ h.version = 1 := by
  by_cases hlen : all.length < 68
  · rw [openBody_short _ _ _ _ hlen]
    simp only [reduceCtorEq, false_iff]
    intro hc
    omega
  rw [openBody_long _ _ _ _ (by omega)]
  simp only [Outcome.bind_eq_ok_iff, failIf_eq_ok_iff, not_not, ne_eq, exists_const,
    Outcome.ok.injEq]
  constructor
  · rintro ⟨ht, h', hp, hf, hv, rfl⟩
    exact ⟨by omega, ht, hp, hf, hv⟩
  · rintro ⟨_, ht, hp, hf, hv⟩
    exact ⟨ht, h, hp, hf, hv, rfl⟩

/-- A file of one format is refused for its format where another one is expected. -/
theorem openBody_foreign (expected other : FormatVersion) (all : Bytes) (h : Header)
    (hok : openBody crate build expected all = .ok h) (hne : expected.format ≠ other.format) :
    openBody crate build other all = .err (.formatMismatch ⟨expected.format, 1⟩ other) := by
  rcases (openBody_eq_ok_iff crate build expected all h).mp hok with ⟨hlen, ht, hp, hf, hv⟩
  rw [openBody_long crate build other all hlen, failIf_of_not _ _ (not_not.mpr ht),
    Outcome.ok_bind, hp, Outcome.ok_bind, hf, hv, failIf_of _ _ hne, Outcome.err_bind]

theorem openBody_safe (expected : FormatVersion) (all : Bytes) :
    (openBody crate build expected all).Safe := by
  by_cases hlen : all.length < 68
  · rw [openBody_short _ _ _ _ hlen]
    exact Outcome.safe_err _
  rw [openBody_long _ _ _ _ (by omega)]
  simp only [Outcome.safe_bind_iff, safe_failIf, Header.parse_safe, Outcome.safe_ok, implies_true,
    and_self]

theorem requireSections_safe (ids : SectionIds) (sections : List SectionEntry) :
    (requireSections ids sections).Safe := by
  unfold requireSections
  simp only [Outcome.safe_bind_iff, safe_okOr, Outcome.safe_ok, implies_true, and_self]

/-- The last entry of the table with this id. -/
def lastWith (typeId : UInt16) (sections : List SectionEntry) : Option SectionEntry :=
  (sections.filter fun entry => entry.typeId = typeId).getLast?

theorem lastWith_append_singleton (typeId : UInt16) (sections : List SectionEntry)
    (entry : SectionEntry) :
    lastWith typeId (sections ++ [entry])
      = if entry.typeId = typeId then some entry else lastWith typeId sections := by
  unfold lastWith
  by_cases h : entry.typeId = typeId
  · simp [h]
  · simp [h]

/-- The last entry with an id is an entry of the table, and has the id. -/
theorem mem_of_lastWith (typeId : UInt16) (sections : List SectionEntry) (entry : SectionEntry)
    (h : lastWith typeId sections = some entry) : entry ∈ sections ∧ entry.typeId = typeId := by
  have hmem := List.mem_filter.mp (List.mem_of_getLast? h)
  exact ⟨hmem.1, of_decide_eq_true hmem.2⟩

/-- The loop over the table ends with the last entry for each id. -/
theorem foldl_visit (ids : SectionIds) (sections : List SectionEntry) :
    sections.foldl (Located.visit ids) ⟨none, none, none⟩
      = ⟨lastWith ids.first sections, lastWith ids.second sections,
        lastWith ids.third sections⟩ := by
  rcases ids.distinct with ⟨h12, h13, h23⟩
  induction sections using List.reverseRecOn with
  | nil => rfl
  | append_singleton sections entry ih =>
      rw [List.foldl_append, ih, List.foldl_cons, List.foldl_nil]
      simp only [lastWith_append_singleton]
      unfold Located.visit
      -- An entry has at most one of the three ids.
      by_cases h1 : entry.typeId = ids.first
      · simp [h1, h12, h13]
      by_cases h2 : entry.typeId = ids.second
      · simp [h2, h12.symm, h23]
      by_cases h3 : entry.typeId = ids.third
      · simp [h3, h13.symm, h23.symm]
      · simp [h1, h2, h3]

/-- The sections that are located are the last entries with their ids. -/
theorem requireSections_eq (ids : SectionIds) (sections : List SectionEntry) :
    requireSections ids sections = (do
      let first ← okOr (lastWith ids.first sections) (.missingSection ids.first)
      let second ← okOr (lastWith ids.second sections) (.missingSection ids.second)
      let third ← okOr (lastWith ids.third sections) (.missingSection ids.third)
      .ok (first, second, third)) := by
  unfold requireSections
  rw [foldl_visit]

/-- The three are there exactly when the table has a last entry for each id. -/
theorem requireSections_eq_ok_iff (ids : SectionIds) (sections : List SectionEntry)
    (first second third : SectionEntry) :
    requireSections ids sections = .ok (first, second, third) ↔
      lastWith ids.first sections = some first ∧ lastWith ids.second sections = some second ∧
      lastWith ids.third sections = some third := by
  rw [requireSections_eq]
  simp only [Outcome.bind_eq_ok_iff, okOr_eq_ok_iff, Outcome.ok.injEq, Prod.mk.injEq]
  constructor
  · rintro ⟨a, ha, b, hb, c, hc, rfl, rfl, rfl⟩
    exact ⟨ha, hb, hc⟩
  · rintro ⟨ha, hb, hc⟩
    exact ⟨first, ha, second, hb, third, hc, rfl, rfl, rfl⟩

/-- The sections that are located are entries of the table with the ids that
    were looked for. -/
theorem requireSections_mem (ids : SectionIds) (sections : List SectionEntry)
    (first second third : SectionEntry)
    (h : requireSections ids sections = .ok (first, second, third)) :
    (first ∈ sections ∧ first.typeId = ids.first) ∧
    (second ∈ sections ∧ second.typeId = ids.second) ∧
    (third ∈ sections ∧ third.typeId = ids.third) := by
  rcases (requireSections_eq_ok_iff ids sections first second third).mp h with ⟨h1, h2, h3⟩
  exact ⟨mem_of_lastWith _ _ _ h1, mem_of_lastWith _ _ _ h2, mem_of_lastWith _ _ _ h3⟩

/-- A missing section is the only error. -/
theorem requireSections_errs (ids : SectionIds) (sections : List SectionEntry) :
    (requireSections ids sections).Errs Error.Semantic := by
  unfold requireSections
  refine Outcome.errs_bind _ _ _ (errs_okOr _ _ _ trivial) fun _ _ => ?_
  refine Outcome.errs_bind _ _ _ (errs_okOr _ _ _ trivial) fun _ _ => ?_
  exact Outcome.errs_bind _ _ _ (errs_okOr _ _ _ trivial) fun _ _ => Outcome.errs_ok _ _

/-- A section is read exactly when its range ends before the trailer. -/
theorem readSection_eq (all : Bytes) (offset length : UInt64) (h4 : 4 ≤ all.length)
    (hlen : all.length < 2 ^ 64) :
    readSection build all offset length =
      if 2 ^ 64 ≤ offset.toNat + length.toNat then .err (.malformed "section length overflow")
      else if all.length - 4 < offset.toNat + length.toNat then .err .truncated
      else .ok (cut all offset.toNat (offset.toNat + length.toNat)) := by
  unfold readSection checkedAdd fileChecksumLen
  dsimp only
  -- An offset and a length that overflow are refused as malformed.
  by_cases hov : offset.toNat + length.toNat < 2 ^ 64
  · rw [if_pos hov, okOr_some, Outcome.ok_bind, sub_of_le _ _ _ h4, Outcome.ok_bind,
      if_neg (by omega)]
    by_cases hend : all.length - 4 < offset.toNat + length.toNat
    · rw [if_pos hend, failIf_of _ _ hend, Outcome.err_bind]
    · rw [if_neg hend, failIf_of_not _ _ hend, Outcome.ok_bind,
        slice_eq _ _ _ (by omega) (by omega)]
  · rw [if_neg hov, okOr_none, Outcome.err_bind, if_pos (by omega)]

/-- The file passes every check of the container layer, and these are its header
    and the entries of its three sections. -/
structure Opened (expected : FormatVersion) (ids : SectionIds) (all : Bytes) (header : Header)
    (first second third : SectionEntry) : Prop where
  long : 68 ≤ all.length
  trailer : TrailerOk crate all
  parsed : Header.parse (bodyOf all) = .ok header
  format : header.format = expected.format
  version : header.version = 1
  sections : requireSections ids header.sections = .ok (first, second, third)

/-- Being opened is getting through the first two steps of a reader. -/
theorem opened_iff (expected : FormatVersion) (ids : SectionIds) (all : Bytes) (header : Header)
    (first second third : SectionEntry) :
    Opened crate expected ids all header first second third ↔
      openBody crate build expected all = .ok header ∧
        requireSections ids header.sections = .ok (first, second, third) := by
  rw [openBody_eq_ok_iff]
  constructor
  · intro h
    exact ⟨⟨h.long, h.trailer, h.parsed, h.format, h.version⟩, h.sections⟩
  · rintro ⟨⟨hl, ht, hp, hf, hv⟩, hs⟩
    exact ⟨hl, ht, hp, hf, hv, hs⟩

/-- A section entry's payload range in a file. -/
def SectionEntry.payload (entry : SectionEntry) (all : Bytes) : Bytes :=
  cut all entry.offset.toNat (entry.offset.toNat + entry.length.toNat)

/-- Where a section entry's payload ends. -/
def SectionEntry.stop (entry : SectionEntry) : Nat := entry.offset.toNat + entry.length.toNat

theorem SectionEntry.offset_le_stop (entry : SectionEntry) : entry.offset.toNat ≤ entry.stop :=
  Nat.le_add_right _ _

/-- The payload of an entry that points at a part of the file. -/
theorem payload_of_split (entry : SectionEntry) (before payload after : Bytes)
    (ho : entry.offset.toNat = before.length) (hl : entry.length.toNat = payload.length) :
    entry.payload (before ++ (payload ++ after)) = payload := by
  rw [SectionEntry.payload, ho, hl, cut_append_right _ _ _ _ (by omega), Nat.sub_self,
    Nat.add_sub_cancel_left, cut_append_exact _ _ _ rfl]

theorem length_payload_le (entry : SectionEntry) (all : Bytes) :
    (entry.payload all).length ≤ all.length := by
  rw [SectionEntry.payload, length_cut]
  omega

/-- A section entry's payload ends before the trailer and has the checksum the
    entry declares. -/
structure SectionEntry.Intact (entry : SectionEntry) (all : Bytes) : Prop where
  inside : entry.stop + 4 ≤ all.length
  checksum : crate.crc32c (entry.payload all) = entry.checksum

/-- The file passes every check of the container layer and of its three
    sections. -/
structure Verified (expected : FormatVersion) (ids : SectionIds) (all : Bytes) (header : Header)
    (first second third : SectionEntry) : Prop where
  opened : Opened crate expected ids all header first second third
  first : first.Intact crate all
  second : second.Intact crate all
  third : third.Intact crate all

/-- A section that is intact stays so when bytes are added behind the file. -/
theorem SectionEntry.Intact.append {entry : SectionEntry} {all : Bytes}
    (h : entry.Intact crate all) (tail : Bytes) :
    entry.Intact crate (all ++ tail) ∧ entry.payload (all ++ tail) = entry.payload all := by
  have hinside := h.inside
  have hpayload : entry.payload (all ++ tail) = entry.payload all :=
    cut_append_left _ _ _ _ (by rw [← SectionEntry.stop]; omega)
  refine ⟨⟨?_, ?_⟩, hpayload⟩
  · rw [List.length_append]
    omega
  · rw [hpayload, h.checksum]

/-- A verified file with bytes behind it that make its trailer right again is verified, and
    has the same header and entries. -/
theorem Verified.append {expected : FormatVersion} {ids : SectionIds} {all : Bytes}
    {header : Header} {first second third : SectionEntry}
    (h : Verified crate expected ids all header first second third) (tail : Bytes)
    (ht : TrailerOk crate (all ++ tail)) :
    Verified crate expected ids (all ++ tail) header first second third where
  opened := {
    long := le_trans h.opened.long (by rw [List.length_append]; omega)
    trailer := ht
    parsed := by
      rcases bodyOf_prefix all tail with ⟨rest, hrest⟩
      rw [← hrest]
      exact Header.parse_append _ rest _ h.opened.parsed
    format := h.opened.format
    version := h.opened.version
    sections := h.opened.sections }
  first := (h.first.append crate tail).1
  second := (h.second.append crate tail).1
  third := (h.third.append crate tail).1

/-- A section is read exactly when it is intact. -/
theorem readChecked_eq_ok_iff (all : Bytes) (entry : SectionEntry) (payload : Bytes)
    (h4 : 4 ≤ all.length) (hlen : all.length < 2 ^ 64) :
    readChecked crate build all entry = .ok payload ↔
      entry.Intact crate all ∧ payload = entry.payload all := by
  -- The order in which the reader checks the two conditions.
  have hsplit : entry.Intact crate all ∧ payload = entry.payload all ↔
      entry.stop + 4 ≤ all.length ∧ payload = entry.payload all ∧
        crate.crc32c payload = entry.checksum := by
    constructor
    · rintro ⟨⟨hin, hcrc⟩, rfl⟩
      exact ⟨hin, rfl, hcrc⟩
    · rintro ⟨hin, rfl, hcrc⟩
      exact ⟨⟨hin, hcrc⟩, rfl⟩
  rw [hsplit]
  unfold readChecked
  rw [readSection_eq _ _ _ _ h4 hlen]
  simp only [Outcome.bind_eq_ok_iff, failIf_eq_ok_iff, not_not, ne_eq, exists_const,
    Outcome.ok.injEq, SectionEntry.payload, SectionEntry.stop]
  constructor
  · rintro ⟨s, hs, hcrc, rfl⟩
    by_cases hov : 2 ^ 64 ≤ entry.offset.toNat + entry.length.toNat
    · rw [if_pos hov] at hs
      cases hs
    rw [if_neg hov] at hs
    by_cases hend : all.length - 4 < entry.offset.toNat + entry.length.toNat
    · rw [if_pos hend] at hs
      cases hs
    rw [if_neg hend, Outcome.ok.injEq] at hs
    exact ⟨by omega, hs.symm, hcrc⟩
  · rintro ⟨hstop, rfl, hcrc⟩
    refine ⟨_, ?_, hcrc, rfl⟩
    rw [if_neg (by omega), if_neg (by omega)]

theorem readChecked_safe (all : Bytes) (entry : SectionEntry) (h4 : 4 ≤ all.length)
    (hlen : all.length < 2 ^ 64) : (readChecked crate build all entry).Safe := by
  unfold readChecked
  rw [readSection_eq _ _ _ _ h4 hlen]
  refine Outcome.safe_bind _ _ ?_ fun s _ => ?_
  · by_cases hov : 2 ^ 64 ≤ entry.offset.toNat + entry.length.toNat
    · rw [if_pos hov]
      exact Outcome.safe_err _
    rw [if_neg hov]
    by_cases hend : all.length - 4 < entry.offset.toNat + entry.length.toNat
    · rw [if_pos hend]
      exact Outcome.safe_err _
    · rw [if_neg hend]
      exact Outcome.safe_ok _
  · simp only [Outcome.safe_bind_iff, safe_failIf, Outcome.safe_ok, implies_true, and_self]

end Reading

/-! ### The abstract file -/

/-- What a file of either format is: a version, a time, and three payloads. -/
structure Container where
  version : FormatVersion
  createdAt : Int64
  first : Bytes
  second : Bytes
  third : Bytes

namespace Container

variable (crate : Crc32cCrate) (build : Build) (ids : SectionIds) (c : Container)

/-- The size of the three payloads together. -/
def payloadLen : Nat := c.first.length + c.second.length + c.third.length

/-- The three table entries: payloads back to back after the table. -/
def firstEntry : SectionEntry where
  typeId := ids.first
  flags := 0
  offset := UInt64.ofNat 148
  length := UInt64.ofNat c.first.length
  checksum := crate.crc32c c.first

def secondEntry : SectionEntry where
  typeId := ids.second
  flags := 0
  offset := UInt64.ofNat (148 + c.first.length)
  length := UInt64.ofNat c.second.length
  checksum := crate.crc32c c.second

def thirdEntry : SectionEntry where
  typeId := ids.third
  flags := 0
  offset := UInt64.ofNat (148 + c.first.length + c.second.length)
  length := UInt64.ofNat c.third.length
  checksum := crate.crc32c c.third

/-- The header of the file. -/
def header : Header where
  format := c.version.format
  version := c.version.version
  flags := 0
  createdAt := c.createdAt
  bodyLen := UInt64.ofNat (84 + c.payloadLen)
  sections := [c.firstEntry crate ids, c.secondEntry crate ids, c.thirdEntry crate ids]

/-- Everything but the trailer. -/
def body : Bytes := (c.header crate ids).bytes ++ (c.first ++ (c.second ++ c.third))

/-- The byte string that stands for the file. -/
def image : Bytes := c.body crate ids ++ toLe (crate.crc32c (c.body crate ids))

/-- The image fits a vector. -/
def Fits : Prop := 152 + c.payloadLen < 2 ^ 63

/-- An image starts with the magic. -/
theorem magic_prefix_image : magic.val <+: c.image crate ids := by
  simp only [image, body, Header.bytes, Header.fixedBytes, List.append_assoc]
  exact List.prefix_append _ _

@[simp] theorem length_header_bytes : (c.header crate ids).bytes.length = 148 := by
  rw [Header.length_bytes]
  rfl

@[simp] theorem length_body : (c.body crate ids).length = 148 + c.payloadLen := by
  simp only [body, List.length_append, length_header_bytes, payloadLen]
  omega

@[simp] theorem length_image : (c.image crate ids).length = 152 + c.payloadLen := by
  simp only [image, List.length_append, length_body, length_toLe, width_uint32]
  omega

theorem length_image_lt (h : c.Fits) : (c.image crate ids).length < 2 ^ 63 := by
  rw [length_image]
  exact h

/-- The writer emits the image. -/
theorem assemble_eq (h : c.Fits) :
    assemble crate build c.version ids c.createdAt c.first c.second c.third
      = .ok (c.image crate ids) := by
  unfold Fits payloadLen at h
  unfold assemble
  -- The image fits, so none of the sums overflows.
  rw [mul_of_lt _ _ _ (by decide), Outcome.ok_bind, add_of_lt _ _ _ (by decide), Outcome.ok_bind]
  simp only [headerLen, sectionEntryLen, Nat.reduceMul, Nat.reduceAdd]
  rw [add_of_lt _ _ _ (by omega), Outcome.ok_bind, add_of_lt _ _ _ (by omega), Outcome.ok_bind,
    add_of_lt _ _ _ (by omega), Outcome.ok_bind, add_of_lt _ _ _ (by omega), Outcome.ok_bind,
    add_of_lt _ _ _ (by omega), Outcome.ok_bind, add_of_lt _ _ _ (by omega), Outcome.ok_bind,
    Header.write_eq, Outcome.ok_bind]
  -- The header with all of its fields, as the source builds it.
  have hbody : c.header crate ids = {
      format := c.version.format
      version := c.version.version
      flags := 0
      createdAt := c.createdAt
      bodyLen := UInt64.ofNat (84 + c.first.length + c.second.length + c.third.length)
      sections := [
        { typeId := ids.first, flags := 0, offset := UInt64.ofNat 148,
          length := UInt64.ofNat c.first.length, checksum := crate.crc32c c.first },
        { typeId := ids.second, flags := 0, offset := UInt64.ofNat (148 + c.first.length),
          length := UInt64.ofNat c.second.length, checksum := crate.crc32c c.second },
        { typeId := ids.third, flags := 0,
          offset := UInt64.ofNat (148 + c.first.length + c.second.length),
          length := UInt64.ofNat c.third.length, checksum := crate.crc32c c.third }] } := by
    simp only [header, payloadLen, firstEntry, secondEntry, thirdEntry, Nat.add_assoc]
  rw [← hbody]
  simp only [Stream.ofBytes, writeAt_nil_zero]
  rw [debugAssert_of _ _ (length_header_bytes crate ids c), Outcome.ok_bind,
    debugAssert_of _ _ (by simp only [List.length_append, length_header_bytes]; omega),
    Outcome.ok_bind]
  simp only [image, body, List.append_assoc]

/-- Assembling a file refuses nothing, whatever the payloads are. -/
theorem assemble_errs (P : Error → Prop) (version : FormatVersion) (createdAt : Int64)
    (first second third : Bytes) :
    (assemble crate build version ids createdAt first second third).Errs P := by
  have hadd := fun a b => errs_add (ε := Error) build a b P
  unfold assemble
  refine Outcome.errs_bind P _ _ (errs_mul build _ _ P) fun tableLen _ => ?_
  refine Outcome.errs_bind P _ _ (hadd _ _) fun firstOffset _ => ?_
  refine Outcome.errs_bind P _ _ (hadd _ _) fun secondOffset _ => ?_
  refine Outcome.errs_bind P _ _ (hadd _ _) fun thirdOffset _ => ?_
  refine Outcome.errs_bind P _ _ (hadd _ _) fun bodyLen _ => ?_
  refine Outcome.errs_bind P _ _ (hadd _ _) fun bodyLen _ => ?_
  refine Outcome.errs_bind P _ _ (hadd _ _) fun bodyLen _ => ?_
  refine Outcome.errs_bind P _ _ (hadd _ _) fun totalLen _ => ?_
  rw [Header.write_eq, Outcome.ok_bind]
  refine Outcome.errs_bind P _ _ (errs_debugAssert build P _) fun _ _ => ?_
  exact Outcome.errs_bind P _ _ (errs_debugAssert build P _) fun _ _ => Outcome.errs_ok P _

theorem bodyOf_image : bodyOf (c.image crate ids) = c.body crate ids := bodyOf_append _ _

/-- An image carries its own checksum. -/
theorem trailerOk_image : TrailerOk crate (c.image crate ids) :=
  (trailerOk_append_iff crate _ _).mpr rfl

/-- The header of the file is found again in front of any bytes. -/
theorem parse_body (tail : Bytes) :
    Header.parse (c.body crate ids ++ tail) = .ok (c.header crate ids) := by
  rw [body, List.append_assoc]
  refine Header.parse_bytes _ ?_ _
  change 3 < 2 ^ 32
  decide

/-- The reader finds the header it was written with. -/
theorem openBody_image (h : c.version.version = 1) :
    openBody crate build c.version (c.image crate ids) = .ok (c.header crate ids) := by
  refine (openBody_eq_ok_iff _ _ _ _ _).mpr ⟨?_, trailerOk_image crate ids c, ?_, rfl, h⟩
  · rw [length_image]
    omega
  · rw [bodyOf_image, ← List.append_nil (c.body crate ids)]
    exact parse_body crate ids c []

theorem requireSections_image :
    requireSections ids (c.header crate ids).sections
      = .ok (c.firstEntry crate ids, c.secondEntry crate ids, c.thirdEntry crate ids) := by
  rcases ids.distinct with ⟨h12, h13, h23⟩
  unfold requireSections header
  simp only [List.foldl_cons, List.foldl_nil, Located.visit, firstEntry, secondEntry, thirdEntry,
    if_true, if_neg h12.symm, if_neg h13.symm, if_neg h23.symm, okOr_some, Outcome.ok_bind]

/-- The entry points at this payload inside the body, and declares its
    checksum. -/
structure Holds (entry : SectionEntry) (payload : Bytes) : Prop where
  inside : entry.stop ≤ (c.body crate ids).length
  found : ∀ tail, entry.payload (c.body crate ids ++ tail) = payload
  checksum : entry.checksum = crate.crc32c payload

/-- The entry of a payload that is cut out of the body at its offset. -/
theorem holds_of_split (entry : SectionEntry) (before payload after : Bytes) (offset : Nat)
    (hfits : c.Fits) (hbody : c.body crate ids = before ++ (payload ++ after))
    (hoff : before.length = offset) (ho : entry.offset = UInt64.ofNat offset)
    (hl : entry.length = UInt64.ofNat payload.length)
    (hcrc : entry.checksum = crate.crc32c payload) : c.Holds crate ids entry payload := by
  have hlen := congrArg List.length hbody
  simp only [length_body, List.length_append] at hlen
  unfold Fits at hfits
  -- The offset and the length survive being stored in 64 bits.
  have ho' : entry.offset.toNat = offset := by
    rw [ho]
    exact toNat_ofNat64 _ (by omega)
  have hl' : entry.length.toNat = payload.length := by
    rw [hl]
    exact toNat_ofNat64 _ (by omega)
  refine ⟨?_, fun tail => ?_, hcrc⟩
  · rw [SectionEntry.stop, ho', hl', length_body]
    omega
  · rw [hbody, List.append_assoc, List.append_assoc]
    exact payload_of_split entry _ _ _ (by rw [ho', hoff]) hl'

theorem holds_first (h : c.Fits) : c.Holds crate ids (c.firstEntry crate ids) c.first :=
  holds_of_split crate ids c _ (c.header crate ids).bytes c.first (c.second ++ c.third) 148 h rfl
    (length_header_bytes crate ids c) rfl rfl rfl

theorem holds_second (h : c.Fits) : c.Holds crate ids (c.secondEntry crate ids) c.second := by
  refine holds_of_split crate ids c _ ((c.header crate ids).bytes ++ c.first) c.second c.third
    (148 + c.first.length) h ?_ ?_ rfl rfl rfl
  · rw [body, List.append_assoc]
  · rw [List.length_append, length_header_bytes]

theorem holds_third (h : c.Fits) : c.Holds crate ids (c.thirdEntry crate ids) c.third := by
  refine holds_of_split crate ids c _ ((c.header crate ids).bytes ++ c.first ++ c.second) c.third []
    _ h ?_ ?_ rfl rfl rfl
  · rw [body, List.append_assoc, List.append_assoc, List.append_nil]
  · rw [List.length_append, List.length_append, length_header_bytes]

theorem holds_intact (entry : SectionEntry) (payload : Bytes)
    (h : c.Holds crate ids entry payload) :
    entry.Intact crate (c.image crate ids) ∧ entry.payload (c.image crate ids) = payload := by
  have hpayload : entry.payload (c.image crate ids) = payload := h.found _
  have hinside := h.inside
  refine ⟨⟨?_, ?_⟩, hpayload⟩
  · rw [length_body] at hinside
    rw [length_image]
    omega
  · rw [hpayload, h.checksum]

/-- An image passes the checks of the container layer, with the entries it was
    built from. -/
theorem opened_image (h : c.version.version = 1) :
    Opened crate c.version ids (c.image crate ids) (c.header crate ids) (c.firstEntry crate ids)
      (c.secondEntry crate ids) (c.thirdEntry crate ids) :=
  (opened_iff crate .release _ _ _ _ _ _ _).mpr
    ⟨openBody_image crate .release ids c h, requireSections_image crate ids c⟩

/-- An image passes all checks of a reader, and its sections are the payloads. -/
theorem verified_image (h : c.version.version = 1) (hf : c.Fits) :
    Verified crate c.version ids (c.image crate ids) (c.header crate ids) (c.firstEntry crate ids)
      (c.secondEntry crate ids) (c.thirdEntry crate ids) where
  opened := opened_image crate ids c h
  first := (holds_intact crate ids c _ _ (holds_first crate ids c hf)).1
  second := (holds_intact crate ids c _ _ (holds_second crate ids c hf)).1
  third := (holds_intact crate ids c _ _ (holds_third crate ids c hf)).1

theorem payload_image (hf : c.Fits) :
    (c.firstEntry crate ids).payload (c.image crate ids) = c.first ∧
      (c.secondEntry crate ids).payload (c.image crate ids) = c.second ∧
      (c.thirdEntry crate ids).payload (c.image crate ids) = c.third :=
  ⟨(holds_intact crate ids c _ _ (holds_first crate ids c hf)).2,
    (holds_intact crate ids c _ _ (holds_second crate ids c hf)).2,
    (holds_intact crate ids c _ _ (holds_third crate ids c hf)).2⟩

/-- An image that was built is written over the start of the stream. -/
theorem writeImage_over (image : Bytes) (writer : Stream) :
    writeImage (.ok image) writer = (.ok (), { writer with
      bytes := image ++ writer.bytes.drop image.length
      pos := image.length }) := by
  have hseek : fromIo (writer.seek 0) = .ok { writer with pos := 0 } := rfl
  unfold writeImage
  simp only [hseek, Stream.writeAll, writeAt_zero, Nat.zero_add]

/-- An image written into an empty stream is what the stream then holds. -/
theorem writeImage_ok (image : Bytes) (writer : Stream) (h : writer.bytes = []) :
    writeImage (.ok image) writer
      = (.ok (), { writer with bytes := image, pos := image.length }) := by
  rw [writeImage_over, h, List.drop_nil, List.append_nil]

end Container

end SkegHull
