import SkegHull.Forward

/-!
# What the Readers Go By

The documentation describes a file as a whole: a header that says how long the
body is, a table, payloads behind the table. The readers check less. Of the header
they use the magic, the format, the version, the number of entries and the table
offset, and of the table the last entry with each id. They compare the end of a
section with the trailer and nothing else.

`Parts.Alike` collects what two files must have in common for a reader to treat
them alike, and `readSaga_alike` and `readKvCache_alike` are that it does. Two
results are cases of it. The table may be permuted when the last entry of each id
stays the last (`order_of_entries`), which is every permutation when no id is
repeated. And the fields a reader does not use, `body_len` among them, may be
anything (`accepted_layout`).

Both have a converse by example. When an id is repeated, the order of the entries
chooses the payload (`order_matters`). And a file is accepted whose `body_len` is
zero, and one whose tag section lies inside the header (`layout_not_checked`).

## Main definitions

* `SameHead`: Two headers agree on what a reader uses.
* `Parts.Alike`: Two files agree on what a reader goes by.

## Theorems

* `Parts.readSaga_alike`, `Parts.readKvCache_alike`: The readers treat such files
  alike.
* `order_of_entries`: When the order of the table does not matter, and which entry
  counts when it does.
* `accepted_layout`: What acceptance says about the layout of a file.
-/

namespace SkegHull

open Lib

/-- The two headers have the same magic, format, version, number of entries and
    table offset. -/
structure SameHead (head head' : Bytes) : Prop where
  family : cut head' 0 12 = cut head 0 12
  table : cut head' 32 40 = cut head 32 40

/-- A reader gets past both headers or past neither, and fails alike. -/
theorem openHead_congr {α : Type} (expected : FormatVersion) (head head' : Bytes)
    (h : head.length = 64) (h' : head'.length = 64) (hsame : SameHead head head')
    (rest : Outcome Error α) :
    (do let _ ← openHead expected head'; rest) = (do let _ ← openHead expected head; rest) := by
  have hfamily : ∀ lo hi, hi ≤ 12 → cut head' lo hi = cut head lo hi := by
    intro lo hi hhi
    rw [cut_cut head' 0 12 lo hi (Nat.zero_le _) hhi, cut_cut head 0 12 lo hi (Nat.zero_le _) hhi,
      hsame.family]
  have htable : ∀ lo hi, 32 ≤ lo → hi ≤ 40 → cut head' lo hi = cut head lo hi := by
    intro lo hi hlo hhi
    rw [cut_cut head' 32 40 lo hi hlo hhi, cut_cut head 32 40 lo hi hlo hhi, hsame.table]
  unfold openHead
  rw [Header.Preamble.decode_eq head h, Header.Preamble.decode_eq head' h']
  simp only [bind_assoc, Outcome.ok_bind, Header.Preamble.ofBytes, hfamily, htable,
    Nat.reduceLeDiff, le_refl]

namespace Parts

/-- The two files agree on what a reader with these ids goes by: on the header as
    far as it is used, on the length of the table and its last entries, and on the
    area, and the sections that are used lie in the area. -/
structure Alike (ids : SectionIds) (p q : Parts) : Prop where
  head : SameHead p.head.val q.head.val
  count : q.table.length = p.table.length
  last : ∀ typeId, ids.Contains typeId → lastWith typeId q.entries = lastWith typeId p.entries
  area : q.area = p.area
  behind : ∀ entry ∈ p.entries, ids.Contains entry.typeId → p.areaStart ≤ entry.offset.toNat

section

variable (crate : Crc32cCrate) (build : Build) (ids : SectionIds) (p q : Parts)

variable (h : p.Alike ids q) (hlt : (p.file crate).length < 2 ^ 64)

include h

theorem Alike.counted (hc : p.Counted) : q.Counted := by
  have hcut := h.head.table
  unfold Counted at *
  rw [h.count, cut_cut _ 32 40 32 36 (le_refl _) (by omega), hcut,
    ← cut_cut _ 32 40 32 36 (le_refl _) (by omega), hc]

theorem Alike.requireSections_eq :
    requireSections ids q.entries = requireSections ids p.entries := by
  rw [SkegHull.requireSections_eq, SkegHull.requireSections_eq, h.last _ (Or.inl rfl),
    h.last _ (Or.inr (Or.inl rfl)), h.last _ (Or.inr (Or.inr rfl))]

include hlt

/-- A section that lies behind the table reads the same from both files. -/
theorem Alike.readChecked_eq (entry : SectionEntry) (hmem : entry ∈ p.entries)
    (hid : ids.Contains entry.typeId) :
    readChecked crate build (q.file crate) entry
      = readChecked crate build (p.file crate) entry := by
  have hbehind := h.behind entry hmem hid
  have hstart : q.areaStart = p.areaStart := by rw [areaStart, areaStart, h.count]
  have hlen : (q.file crate).length = (p.file crate).length := by
    rw [length_file, length_file, hstart, h.area]
  refine readChecked_congr crate build _ _ entry (by rw [length_file]; omega) hlt hlen
    fun hstop => ?_
  rw [length_file] at hstop
  rw [payload_file crate p entry hbehind (by rw [length_body]; omega),
    payload_file crate q entry (by omega) (by rw [length_body, hstart, h.area]; omega), hstart,
    h.area]

end

variable (crate : Crc32cCrate) (build : Build) (p q : Parts)

/-- The saga reader treats such files alike. -/
theorem readSaga_alike (h : p.Alike sagaSectionIds q) (hlt : (p.file crate).length < 2 ^ 64)
    (hc : p.Counted) (r r' : Stream) (hb : r.Benign) (hb' : r'.Benign)
    (hr : r.bytes = p.file crate) (hr' : r'.bytes = q.file crate) :
    readSaga crate build r' = readSaga crate build r := by
  rw [readSaga_file crate build p hc r hb hr,
    readSaga_file crate build q (h.counted _ p q hc) r' hb' hr',
    h.requireSections_eq _ p q, openHead_congr _ _ _ p.head.property q.head.property h.head]
  refine bind_congr fun _ => Outcome.bind_congr_ok _ _ _ ?_
  rintro ⟨m, c, t⟩ hsections
  rcases requireSections_mem _ _ _ _ _ hsections with ⟨⟨hm, hmid⟩, ⟨hc, hcid⟩, ⟨ht, htid⟩⟩
  simp only
  unfold sagaOfSections
  rw [h.readChecked_eq crate build _ p q hlt m hm (Or.inl hmid),
    h.readChecked_eq crate build _ p q hlt c hc (Or.inr (Or.inl hcid)),
    h.readChecked_eq crate build _ p q hlt t ht (Or.inr (Or.inr htid))]

/-- So does the cache reader. -/
theorem readKvCache_alike (h : p.Alike kvSectionIds q) (hlt : (p.file crate).length < 2 ^ 64)
    (hc : p.Counted) (r r' : Stream) (hb : r.Benign) (hb' : r'.Benign)
    (hr : r.bytes = p.file crate) (hr' : r'.bytes = q.file crate) :
    readKvCache crate build r' = readKvCache crate build r := by
  rw [readKvCache_file crate build p hc r hb hr,
    readKvCache_file crate build q (h.counted _ p q hc) r' hb' hr',
    h.requireSections_eq _ p q, openHead_congr _ _ _ p.head.property q.head.property h.head]
  refine bind_congr fun _ => Outcome.bind_congr_ok _ _ _ ?_
  rintro ⟨i, s, b⟩ hsections
  rcases requireSections_mem _ _ _ _ _ hsections with ⟨⟨hi, hiid⟩, ⟨hs, hsid⟩, ⟨hbl, hblid⟩⟩
  simp only
  unfold kvCacheOfSections
  rw [h.readChecked_eq crate build _ p q hlt i hi (Or.inl hiid),
    h.readChecked_eq crate build _ p q hlt s hs (Or.inr (Or.inl hsid)),
    h.readChecked_eq crate build _ p q hlt b hbl (Or.inr (Or.inr hblid))]

end Parts

/-! ### The order of the entries -/

/-- When the permutation keeps the last entry of an id last, or the id is not
    repeated, the last entry with the id is the same. -/
theorem lastWith_perm (typeId : UInt16) (sections sections' : List SectionEntry)
    (hperm : sections'.Perm sections)
    (h : lastWith typeId sections' = lastWith typeId sections ∨
      (sections.filter fun e => e.typeId = typeId).length ≤ 1) :
    lastWith typeId sections' = lastWith typeId sections := by
  rcases h with h | h
  · exact h
  have hfilter := hperm.filter fun e => decide (e.typeId = typeId)
  unfold lastWith
  -- A permutation of at most one entry moves nothing.
  cases hs : sections.filter fun e => decide (e.typeId = typeId) with
  | nil =>
      rw [hs] at hfilter
      rw [hfilter.eq_nil]
  | cons e rest =>
      rw [hs, List.length_cons] at h
      have hrest : rest = [] := List.length_eq_zero_iff.mp (by omega)
      rw [hs, hrest] at hfilter
      rw [hrest, List.perm_singleton.mp hfilter]

/-- Permuting the table does not change what either reader returns, when for each of
    the three ids the last entry stays the last or is the only one. However often an id
    is repeated, what is decoded is the last entry with it. -/
theorem order_of_entries (crate : Crc32cCrate) (build : Build) (p q : Parts)
    (hhead : q.head = p.head) (hperm : q.table.Perm p.table) (harea : q.area = p.area)
    (hc : p.Counted) (hlt : (p.file crate).length < 2 ^ 64)
    (hinside : ∀ entry ∈ p.entries, p.areaStart ≤ entry.offset.toNat ∧ entry.stop ≤ p.body.length)
    (hlast : ∀ typeId : UInt16, typeId = 1 ∨ typeId = 2 ∨ typeId = 3 →
      lastWith typeId q.entries = lastWith typeId p.entries ∨
        (p.entries.filter fun e => e.typeId = typeId).length ≤ 1)
    (r r' : Stream) (hb : r.Benign) (hb' : r'.Benign) (hr : r.bytes = p.file crate)
    (hr' : r'.bytes = q.file crate) :
    readSaga crate build r' = readSaga crate build r ∧
    readKvCache crate build r' = readKvCache crate build r ∧
    (∀ s, readSaga crate build r = .ok s ↔
      p.Announces .saga ∧ ∃ a b c pa pb pc, p.Points crate 1 pa a ∧ p.Points crate 2 pb b ∧
        p.Points crate 3 pc c ∧ decodeSagaSections build pa pb pc = .ok s) ∧
    (∀ kv, readKvCache crate build r = .ok kv ↔
      p.Announces .kvCache ∧ ∃ a b c pa pb pc, p.Points crate 1 pa a ∧ p.Points crate 2 pb b ∧
        p.Points crate 3 pc c ∧ decodeKvSections build pa pb pc = .ok kv) := by
  have hentries : q.entries.Perm p.entries := hperm.map _
  have halike : ∀ ids : SectionIds,
      (∀ typeId, ids.Contains typeId → typeId = 1 ∨ typeId = 2 ∨ typeId = 3) → p.Alike ids q := by
    intro ids hids
    refine ⟨?_, hperm.length_eq, fun typeId hid => ?_, harea, fun entry hmem _ =>
      (hinside entry hmem).1⟩
    · rw [hhead]
      exact ⟨rfl, rfl⟩
    · exact lastWith_perm typeId _ _ hentries (hlast typeId (hids typeId hid))
  exact ⟨Parts.readSaga_alike crate build p q (halike _ fun _ h => h) hlt hc r r' hb hb' hr hr',
    Parts.readKvCache_alike crate build p q (halike _ fun _ h => h) hlt hc r r' hb hb' hr hr',
    Parts.readSaga_ok_iff crate p build hc hlt r hb hr,
    Parts.readKvCache_ok_iff crate p build hc hlt r hb hr⟩

/-- A meta block of an empty saga with this time. -/
def emptyMeta (builtAt : Int64) : Bytes := SagaMeta.encode ⟨Octets.zero 16, builtAt, 0, 0, 0⟩

/-- The entries of a file that has two meta blocks, no centroids and no tags. -/
def olderMeta : SectionEntry := ⟨1, 0, 176, 64, castagnoli.crc32c (emptyMeta 7)⟩

def newerMeta : SectionEntry := ⟨1, 0, 240, 64, castagnoli.crc32c (emptyMeta 8)⟩

def noCentroids : SectionEntry := ⟨2, 0, 304, 0, castagnoli.crc32c []⟩

def noTags : SectionEntry := ⟨3, 0, 304, 4, castagnoli.crc32c [0, 0, 0, 0]⟩

/-- An entry that finds its empty list of tags in the body length of the header. -/
def headTags : SectionEntry := ⟨3, 0, 24, 4, castagnoli.crc32c [0, 0, 0, 0]⟩

/-- The file, with these entries for its table. -/
def twoMetas (order : List SectionEntry) : Parts where
  head := futureHead .saga
  table := order.map fun entry => ⟨entry.bytes, entry.length_bytes⟩
  area := emptyMeta 7 ++ (emptyMeta 8 ++ [0, 0, 0, 0])

theorem entries_twoMetas (order : List SectionEntry) : (twoMetas order).entries = order := by
  simp only [Parts.entries, twoMetas, List.map_map]
  calc order.map _ = order.map id := List.map_congr_left fun e _ => e.ofBytes_bytes
    _ = order := List.map_id order

theorem length_emptyMeta (builtAt : Int64) : (emptyMeta builtAt).length = 64 :=
  SagaMeta.length_encode _

theorem length_twoMetas (order : List SectionEntry) (h4 : order.length = 4) :
    (twoMetas order).areaStart = 176 ∧ (twoMetas order).body.length = 308 := by
  have hstart : (twoMetas order).areaStart = 176 := by
    rw [Parts.areaStart, twoMetas, List.length_map, h4]
  refine ⟨hstart, ?_⟩
  rw [Parts.length_body, hstart]
  simp only [twoMetas, List.length_append, length_emptyMeta, List.length_cons, List.length_nil]

/-- The last meta block of the table is the one that is read. -/
theorem readSaga_twoMetas (order : List SectionEntry) (h4 : order.length = 4) (builtAt : Int64)
    (entry tags : SectionEntry)
    (hentry : builtAt = 7 ∧ entry = olderMeta ∨ builtAt = 8 ∧ entry = newerMeta)
    (htag : tags = noTags ∨ tags = headTags) (h1 : lastWith 1 order = some entry)
    (h2 : lastWith 2 order = some noCentroids) (h3 : lastWith 3 order = some tags) :
    readSaga castagnoli .release (Stream.ofBytes ((twoMetas order).file castagnoli))
      = .ok ⟨Octets.zero 16, builtAt, 0, 0, [], []⟩ := by
  have hentries := entries_twoMetas order
  rcases length_twoMetas order h4 with ⟨hstart, hlen⟩
  have hlt : (twoMetas order).body.length < 2 ^ 64 := by omega
  have harea : (twoMetas order).area = (emptyMeta 7 ++ emptyMeta 8) ++ ([0, 0, 0, 0] ++ []) :=
    (List.append_assoc _ _ _).symm
  have hfront : (twoMetas order).areaStart + (emptyMeta 7 ++ emptyMeta 8).length = 304 := by
    rw [hstart, List.length_append, length_emptyMeta, length_emptyMeta]
  have hmeta : (twoMetas order).Points castagnoli 1 (emptyMeta builtAt) entry := by
    rcases hentry with ⟨rfl, rfl⟩ | ⟨rfl, rfl⟩
    · exact Parts.points_of_area castagnoli _ 1 _ _ [] (emptyMeta 8 ++ [0, 0, 0, 0]) 176
        (by rw [hentries, h1]) rfl hstart rfl (by rw [length_emptyMeta]; rfl) rfl hlt
    · refine Parts.points_of_area castagnoli _ 1 _ _ (emptyMeta 7) [0, 0, 0, 0] 240
        (by rw [hentries, h1]) rfl ?_ rfl (by rw [length_emptyMeta]; rfl) rfl hlt
      rw [hstart, length_emptyMeta]
  have hcentroids : (twoMetas order).Points castagnoli 2 [] noCentroids :=
    Parts.points_of_area castagnoli _ 2 [] _ (emptyMeta 7 ++ emptyMeta 8) [0, 0, 0, 0] 304
      (by rw [hentries, h2]) harea hfront rfl rfl rfl hlt
  have htags : (twoMetas order).Points castagnoli 3 [0, 0, 0, 0] tags := by
    rcases htag with rfl | rfl
    · exact Parts.points_of_area castagnoli _ 3 _ _ (emptyMeta 7 ++ emptyMeta 8) [] 304
        (by rw [hentries, h3]) harea hfront rfl rfl rfl hlt
    · have hhead : (futureHead .saga).val = (futureHead .saga).val.take 24
          ++ ([0, 0, 0, 0] ++ (futureHead .saga).val.drop 28) := by decide
      refine Parts.points_of_split castagnoli _ 3 _ _ ((futureHead .saga).val.take 24)
        ((futureHead .saga).val.drop 28
          ++ ((twoMetas order).table.flatMap Subtype.val ++ (twoMetas order).area)) 24
        (by rw [hentries, h3]) ?_ rfl rfl rfl rfl hlt
      calc (twoMetas order).body = (futureHead .saga).val
            ++ ((twoMetas order).table.flatMap Subtype.val ++ (twoMetas order).area) := rfl
        _ = _ := by
            conv_lhs => rw [hhead]
            simp only [List.append_assoc]
  have hannounces : (twoMetas order).Announces .saga :=
    futureHead_announces _ _ rfl (by rw [twoMetas, List.length_map, h4])
  have hread := Parts.readSaga_points castagnoli (twoMetas order) .release
    (Stream.ofBytes ((twoMetas order).file castagnoli)) (Stream.benign_ofBytes _) rfl
    (by rw [Parts.length_file, ← Parts.length_body]; omega) hannounces _ _ _ _ _ _ hmeta hcentroids
    htags
  rw [hread, decodeSagaSections, emptyMeta, SagaMeta.decode_encode]
  rfl

theorem twoMetas_perm (order order' : List SectionEntry) (h : order'.Perm order) :
    (twoMetas order').table.Perm (twoMetas order).table := by
  unfold twoMetas
  exact h.map _

theorem twoMetas_inside :
    ∀ entry ∈ (twoMetas [olderMeta, newerMeta, noCentroids, noTags]).entries,
      (twoMetas [olderMeta, newerMeta, noCentroids, noTags]).areaStart ≤ entry.offset.toNat ∧
      entry.stop ≤ (twoMetas [olderMeta, newerMeta, noCentroids, noTags]).body.length := by
  rcases length_twoMetas [olderMeta, newerMeta, noCentroids, noTags] rfl with ⟨hstart, hlen⟩
  rw [entries_twoMetas, hstart, hlen]
  decide

/-- Moving the tags to the front keeps the newer meta block behind the older. -/
theorem order_of_entries_sample :
    readSaga castagnoli .release (Stream.ofBytes
      ((twoMetas [noTags, olderMeta, newerMeta, noCentroids]).file castagnoli))
      = readSaga castagnoli .release (Stream.ofBytes
        ((twoMetas [olderMeta, newerMeta, noCentroids, noTags]).file castagnoli)) := by
  have hlen := (length_twoMetas [olderMeta, newerMeta, noCentroids, noTags] rfl).2
  refine (order_of_entries castagnoli .release
    (twoMetas [olderMeta, newerMeta, noCentroids, noTags])
    (twoMetas [noTags, olderMeta, newerMeta, noCentroids]) rfl
    (twoMetas_perm _ _ ?_) rfl (futureHead_announces _ .saga rfl rfl).count
    (by rw [Parts.length_file, ← Parts.length_body]; omega) twoMetas_inside ?_ (Stream.ofBytes _)
    (Stream.ofBytes _) (Stream.benign_ofBytes _) (Stream.benign_ofBytes _) rfl rfl).1
  · exact (List.perm_append_singleton noTags [olderMeta, newerMeta, noCentroids]).symm
  · rintro typeId (rfl | rfl | rfl)
    · exact Or.inl (by rw [entries_twoMetas, entries_twoMetas]; rfl)
    · exact Or.inr (by rw [entries_twoMetas]; decide)
    · exact Or.inr (by rw [entries_twoMetas]; decide)

/-- With two meta blocks in the area, the order of the entries chooses between
    them. -/
theorem order_matters :
    ∃ p q : Parts, q.head = p.head ∧ q.table.Perm p.table ∧ q.area = p.area ∧ p.Counted ∧
      (∀ entry ∈ p.entries, p.areaStart ≤ entry.offset.toNat ∧ entry.stop ≤ p.body.length) ∧
      readSaga castagnoli .release (Stream.ofBytes (q.file castagnoli))
        ≠ readSaga castagnoli .release (Stream.ofBytes (p.file castagnoli)) := by
  refine ⟨twoMetas [olderMeta, newerMeta, noCentroids, noTags],
    twoMetas [newerMeta, olderMeta, noCentroids, noTags], rfl, ?_, rfl, ?_, ?_, ?_⟩
  · exact twoMetas_perm _ _ (List.Perm.swap olderMeta newerMeta [noCentroids, noTags])
  · exact (futureHead_announces _ .saga rfl rfl).count
  · exact twoMetas_inside
  · rw [readSaga_twoMetas [olderMeta, newerMeta, noCentroids, noTags] rfl 8 newerMeta
      noTags (Or.inr ⟨rfl, rfl⟩) (Or.inl rfl) rfl rfl rfl,
      readSaga_twoMetas [newerMeta, olderMeta, noCentroids, noTags] rfl 7 olderMeta
      noTags (Or.inl ⟨rfl, rfl⟩) (Or.inl rfl) rfl rfl rfl]
    decide

/-! ### The layout of accepted files -/

/-- What the checks of a reader say about where things are: the header and the
    table end before the trailer, and so does every section that is read. -/
structure Bounded (all : Bytes) (header : Header) (first second third : SectionEntry) : Prop where
  table : header.firstPayloadOffset + 4 ≤ all.length
  listed : ∀ entry ∈ [first, second, third], entry ∈ header.sections
  stops : ∀ entry ∈ [first, second, third], entry.stop + 4 ≤ all.length

/-- A file that passes the checks is bounded. -/
theorem Verified.bounded (crate : Crc32cCrate) (expected : FormatVersion) (ids : SectionIds)
    (all : Bytes) (header : Header) (first second third : SectionEntry)
    (h : Verified crate expected ids all header first second third) :
    Bounded all header first second third := by
  rcases requireSections_mem _ _ _ _ _ h.opened.sections with ⟨⟨h1, _⟩, ⟨h2, _⟩, ⟨h3, _⟩⟩
  have hlong := h.opened.long
  have hbody : (bodyOf all).length = all.length - 4 := by
    rw [bodyOf, List.length_take]
    omega
  refine ⟨?_, ?_, ?_⟩
  · rcases Header.parse_inv _ _ h.opened.parsed with ⟨pre, _, htab, hheader⟩
    rw [hheader]
    simp only [Header.firstPayloadOffset, Header.sectionTableLen, Header.tableOf, List.length_map,
      List.length_range, headerLen, sectionEntryLen]
    omega
  · intro entry hentry
    simp only [List.mem_cons, List.not_mem_nil, or_false] at hentry
    rcases hentry with rfl | rfl | rfl
    · exact h1
    · exact h2
    · exact h3
  · intro entry hentry
    simp only [List.mem_cons, List.not_mem_nil, or_false] at hentry
    rcases hentry with rfl | rfl | rfl
    · exact h.first.inside
    · exact h.second.inside
    · exact h.third.inside

/-- What acceptance says about the layout of a file. The header, the table and the
    three sections that were decoded end before the trailer. Where a section begins
    is not checked, and the other fields of the header are not looked at: when the
    sections lie behind the table, a file with another `body_len` and a new trailer
    is read as the same. -/
theorem accepted_layout (crate : Crc32cCrate) (build : Build) (r : Stream) (hb : r.Benign)
    (hlt : r.bytes.length < 2 ^ 64) :
    (∀ s, readSaga crate build r = .ok s → ∃ header m c t,
      openBody crate build sagaV1 r.bytes = .ok header ∧
      requireSections sagaSectionIds header.sections = .ok (m, c, t) ∧
      decodeSagaSections build (m.payload r.bytes) (c.payload r.bytes) (t.payload r.bytes) = .ok s ∧
      Bounded r.bytes header m c t) ∧
    (∀ v, readKvCache crate build r = .ok v → ∃ header i s b,
      openBody crate build kvCacheV1 r.bytes = .ok header ∧
      requireSections kvSectionIds header.sections = .ok (i, s, b) ∧
      decodeKvSections build (i.payload r.bytes) (s.payload r.bytes) (b.payload r.bytes) = .ok v ∧
      Bounded r.bytes header i s b) ∧
    (∀ p q : Parts, p.file crate = r.bytes → p.Counted →
      (∀ entry ∈ p.entries, p.areaStart ≤ entry.offset.toNat) →
      SameHead p.head.val q.head.val → q.table = p.table → q.area = p.area →
      ∀ r' : Stream, r'.Benign → r'.bytes = q.file crate →
        readSaga crate build r' = readSaga crate build r ∧
        readKvCache crate build r' = readKvCache crate build r) := by
  refine ⟨?_, ?_, ?_⟩
  · intro s hs
    rcases readSaga_inv crate build r hb hlt s hs with ⟨header, m, c, t, hacc⟩
    have hopen := (opened_iff crate build _ _ _ _ _ _ _).mp hacc.verified.opened
    exact ⟨header, m, c, t, hopen.1, hopen.2, hacc.sections, hacc.verified.bounded⟩
  · intro v hv
    rcases readKvCache_inv crate build r hb hlt v hv with ⟨header, i, s, b, hacc⟩
    have hopen := (opened_iff crate build _ _ _ _ _ _ _).mp hacc.verified.opened
    refine ⟨header, i, s, b, hopen.1, hopen.2, ?_, hacc.verified.bounded⟩
    rw [← readKvCache_opened crate build r hb hlt header i s b hacc.verified, hv]
  · intro p q hp hc hbehind hhead htable harea r' hb' hr'
    have hentries : q.entries = p.entries := by rw [Parts.entries, Parts.entries, htable]
    have halike : ∀ ids, p.Alike ids q := fun ids =>
      ⟨hhead, by rw [htable], fun _ _ => by rw [hentries], harea, fun e he _ => hbehind e he⟩
    have hlt' : (p.file crate).length < 2 ^ 64 := by rwa [hp]
    exact ⟨Parts.readSaga_alike crate build p q (halike _) hlt' hc r r' hb hb' hp.symm hr',
      Parts.readKvCache_alike crate build p q (halike _) hlt' hc r r' hb hb' hp.symm hr'⟩

/-- The header a reader finds in a file that announces its format. -/
theorem openBody_announced (p : Parts) (h : p.Announces .saga) :
    openBody castagnoli .release sagaV1 (p.file castagnoli)
      = .ok (p.header (.ofBytes .saga p.head.val)) := by
  rw [Parts.openBody_file castagnoli .release p sagaV1 h.count,
    show sagaV1 = ⟨.saga, 1⟩ from rfl, h.openHead_eq, Outcome.ok_bind]

/-- Neither `body_len` nor the beginning of a section is checked: a file is accepted
    that declares a body of no bytes, and one whose tags lie inside its header. -/
theorem layout_not_checked :
    (∃ all header s, readSaga castagnoli .release (Stream.ofBytes all) = .ok s ∧
      openBody castagnoli .release sagaV1 all = .ok header ∧
      all.length ≠ 64 + header.bodyLen.toNat + 4) ∧
    (∃ all header m c t s, readSaga castagnoli .release (Stream.ofBytes all) = .ok s ∧
      openBody castagnoli .release sagaV1 all = .ok header ∧
      requireSections sagaSectionIds header.sections = .ok (m, c, t) ∧
      t.offset.toNat < header.firstPayloadOffset) := by
  have hannounces : ∀ order : List SectionEntry, order.length = 4 →
      (twoMetas order).Announces .saga := fun order h4 =>
    futureHead_announces _ _ rfl (by rw [twoMetas, List.length_map, h4])
  refine ⟨⟨_, _, _, readSaga_twoMetas [olderMeta, newerMeta, noCentroids, noTags] rfl 8 newerMeta
      noTags (Or.inr ⟨rfl, rfl⟩) (Or.inl rfl) rfl rfl rfl,
      openBody_announced _ (hannounces _ rfl), ?_⟩,
    ⟨_, _, newerMeta, noCentroids, headTags, _,
      readSaga_twoMetas [olderMeta, newerMeta, noCentroids, headTags] rfl 8 newerMeta headTags
        (Or.inr ⟨rfl, rfl⟩) (Or.inr rfl) rfl rfl rfl,
      openBody_announced _ (hannounces _ rfl), ?_, ?_⟩⟩
  · rw [Parts.length_file, ← Parts.length_body, (length_twoMetas _ rfl).2]
    decide
  · rw [Parts.header, entries_twoMetas]
    rfl
  · rw [Header.firstPayloadOffset, Header.sectionTableLen, Parts.header, entries_twoMetas]
    decide

theorem accepted_layout_sample :
    ∃ header m c t, Bounded
      ((twoMetas [olderMeta, newerMeta, noCentroids, noTags]).file castagnoli) header m c t := by
  have hlen := (length_twoMetas [olderMeta, newerMeta, noCentroids, noTags] rfl).2
  have h := accepted_layout castagnoli .release
    (Stream.ofBytes ((twoMetas [olderMeta, newerMeta, noCentroids, noTags]).file castagnoli))
    (Stream.benign_ofBytes _)
    (by
      change ((twoMetas [olderMeta, newerMeta, noCentroids, noTags]).file castagnoli).length
        < 2 ^ 64
      rw [Parts.length_file, ← Parts.length_body]
      omega)
  rcases h.1 _ (readSaga_twoMetas [olderMeta, newerMeta, noCentroids, noTags] rfl 8 newerMeta
    noTags (Or.inr ⟨rfl, rfl⟩) (Or.inl rfl) rfl rfl rfl) with ⟨header, m, c, t, _, _, _, hbounded⟩
  exact ⟨header, m, c, t, hbounded⟩

end SkegHull
