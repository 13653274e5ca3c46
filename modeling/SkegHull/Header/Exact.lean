import SkegHull.Header

/-!
# What the Header Reader Accepts

The header is read before anything has been checked, by both readers and by the
scrubber, so what it lets through is worth pinning down. `WellFormed` lists the
five things it asks of a byte string, and `parse_ok_iff` says that it asks for
nothing else.

The bytes it does not look at are lost when the header is written again. They
are the reserved bytes of the header and the last four bytes of each table entry,
and they come out as zeros: `bytes_of_parse`. Everything else is kept, field by
field, so the proof puts the fields back next to each other.

## Main definitions

* `sectionCountOf`: The stored number of sections.
* `WellFormed`: What the reader asks for.
* `reserved`: The positions of the bytes it does not look at.

## Theorems

* `parse_ok_iff`: A header parses exactly when it is well-formed.
* `bytes_of_parse`: What writing a parsed header gives.
* `parsing_exact`: The reader and the writer, in both directions.
-/

namespace SkegHull

open Lib

namespace Header

/-- The stored number of sections. -/
def sectionCountOf (b : Bytes) : Nat := (fromLe UInt32 (cut b 32 36)).toNat

/-- What the reader asks of the bytes of a file. -/
structure WellFormed (b : Bytes) : Prop where
  room : 64 ≤ b.length
  magic : cut b 0 8 = magic.val
  format : 1 ≤ (fromLe UInt16 (cut b 8 10)).toNat ∧ (fromLe UInt16 (cut b 8 10)).toNat ≤ 4
  tableOffset : fromLe UInt32 (cut b 36 40) = 64
  table : 64 + 28 * sectionCountOf b ≤ b.length

/-- The position is one of the reserved bytes of a table entry. -/
def reservedInEntry (i : Nat) : Bool := 24 ≤ i % 28

/-- The position is one of the reserved bytes of the header or of a table entry. -/
def reserved (i : Nat) : Bool :=
  if i < 64 then 40 ≤ i else reservedInEntry (i - 64)

/-- A header parses exactly when it is well-formed. -/
theorem parse_ok_iff (b : Bytes) : (∃ h, parse b = .ok h) ↔ WellFormed b := by
  constructor
  · rintro ⟨h, hp⟩
    rcases parse_inv b h hp with ⟨pre, hdec, htable, _⟩
    have h64 : 64 ≤ b.length := by omega
    rcases (Preamble.decode_eq_ok_iff _ (by rw [List.length_take]; omega) pre).mp hdec with
      ⟨hmagic, hformat, hoff, hpre⟩
    rw [cut_take _ _ _ _ (by omega)] at hmagic hformat hoff
    have hcount : pre.sectionCount = fromLe UInt32 (cut b 32 36) := by
      rw [hpre, Preamble.ofBytes]
      dsimp only
      rw [cut_take _ _ _ _ (by omega)]
    rw [hcount] at htable
    exact ⟨h64, hmagic, (FormatId.fromU16_isSome_iff _).mp ⟨_, hformat⟩, hoff, htable⟩
  · rintro ⟨h64, hmagic, hformat, hoff, htable⟩
    rcases (FormatId.fromU16_isSome_iff _).mpr hformat with ⟨format, hformat⟩
    have hdec := (Preamble.decode_eq_ok_iff (b.take 64) (by rw [List.length_take]; omega)
      (.ofBytes format (b.take 64))).mpr ⟨by rw [cut_take _ _ _ _ (by omega), hmagic],
        by rw [cut_take _ _ _ _ (by omega)]; exact hformat,
        by rw [cut_take _ _ _ _ (by omega), hoff]; rfl, rfl⟩
    unfold parse
    rw [if_neg (by omega), hdec, Outcome.ok_bind]
    -- The count that is decoded is the stored one, and there is room for its table.
    have hcount : (Preamble.ofBytes format (b.take 64)).sectionCount.toNat = sectionCountOf b := by
      rw [Preamble.ofBytes, sectionCountOf]
      dsimp only
      rw [cut_take _ _ _ _ (by omega)]
    dsimp only
    rw [hcount, if_neg (by omega)]
    exact ⟨_, rfl⟩

/-- An entry that is read and written keeps all but its last four bytes. -/
theorem entry_of_ofBytes (e : Bytes) (h : e.length = 28) :
    (SectionEntry.ofBytes e).bytes = blank reservedInEntry e := by
  have hblank : blank reservedInEntry e = cut e 0 24 ++ List.replicate 4 0 := by
    refine blank_from reservedInEntry e 24 4 h (fun i hi => ?_) fun i hle hlt => ?_
    · simp only [reservedInEntry, decide_eq_false_iff_not]
      omega
    · simp only [reservedInEntry, decide_eq_true_eq]
      omega
  unfold SectionEntry.bytes SectionEntry.ofBytes
  dsimp only
  rw [hblank, toLe_cut e 0 2 (by omega) rfl, toLe_cut e 2 4 (by omega) rfl,
    toLe_cut e 4 12 (by omega) rfl, toLe_cut e 12 20 (by omega) rfl,
    toLe_cut e 20 24 (by omega) rfl]
  simp only [← List.append_assoc]
  rw [cut_append_cut _ _ _ _ (by omega) (by omega), cut_append_cut _ _ _ _ (by omega) (by omega),
    cut_append_cut _ _ _ _ (by omega) (by omega), cut_append_cut _ _ _ _ (by omega) (by omega)]

theorem tableOf_succ (n : Nat) (buf : Bytes) :
    tableOf (n + 1) buf = SectionEntry.ofBytes (buf.take 28) :: tableOf n (buf.drop 28) := by
  unfold tableOf
  rw [List.range_succ_eq_map, List.map_cons, List.map_map, Nat.mul_zero, Nat.zero_add, cut_zero]
  -- Entry `i + 1` of the table is entry `i` behind the first.
  refine congrArg _ (List.map_congr_left fun i _ => ?_)
  rw [cut_drop, Function.comp_apply]
  exact congrArg _ (congrArg₂ (cut buf) (by omega) (by omega))

/-- So does a table that is read and written. -/
theorem table_of_tableOf (n : Nat) (buf : Bytes) (h : buf.length = 28 * n) :
    tableBytes (tableOf n buf) = blank reservedInEntry buf := by
  induction n generalizing buf with
  | zero =>
      rw [List.eq_nil_of_length_eq_zero h]
      rfl
  | succ n ih =>
      have hfront : (buf.take 28).length = 28 := by
        rw [List.length_take]
        omega
      have hshift : (fun i => reservedInEntry (i + 28)) = reservedInEntry := by
        funext i
        rw [reservedInEntry, reservedInEntry, Nat.add_mod_right]
      rw [tableOf_succ, tableBytes, List.flatMap_cons, ← tableBytes, entry_of_ofBytes _ hfront,
        ih _ (by rw [List.length_drop]; omega)]
      conv_rhs => rw [← List.take_append_drop 28 buf]
      rw [blank_append, hfront, hshift]

/-- So do the 64 bytes of a header. -/
theorem fixedBytes_of_preamble (buf : Bytes) (h : buf.length = 64) (pre : Preamble)
    (hdec : Preamble.decode buf = .ok pre) (header : Header) (hformat : header.format = pre.format)
    (hversion : header.version = pre.version) (hflags : header.flags = pre.flags)
    (hcreated : header.createdAt = pre.createdAt) (hbody : header.bodyLen = pre.bodyLen)
    (hcount : UInt32.ofNat header.sections.length = pre.sectionCount) :
    header.fixedBytes = blank reserved buf := by
  rcases (Preamble.decode_eq_ok_iff buf h pre).mp hdec with ⟨hmagic, hid, hoff, hpre⟩
  have hblank : blank reserved buf = cut buf 0 40 ++ List.replicate 24 0 := by
    refine blank_from reserved buf 40 24 h (fun i hi => ?_) fun i hle hlt => ?_
    · rw [reserved, if_pos (by omega), decide_eq_false_iff_not]
      omega
    · rw [reserved, if_pos (by omega), decide_eq_true_eq]
      omega
  rw [hblank]
  unfold fixedBytes
  rw [hformat, hversion, hflags, hcreated, hbody, hcount, ← hmagic, ← hoff,
    FormatId.asU16_of_fromU16 _ _ hid, hpre]
  unfold Preamble.ofBytes
  dsimp only
  rw [toLe_cut buf 8 10 (by omega) rfl, toLe_cut buf 10 12 (by omega) rfl,
    toLe_cut buf 12 16 (by omega) rfl, toLe_cut buf 16 24 (by omega) rfl,
    toLe_cut buf 24 32 (by omega) rfl, toLe_cut buf 32 36 (by omega) rfl,
    toLe_cut buf 36 40 (by omega) rfl]
  simp only [← List.append_assoc]
  rw [cut_append_cut _ _ _ _ (by omega) (by omega), cut_append_cut _ _ _ _ (by omega) (by omega),
    cut_append_cut _ _ _ _ (by omega) (by omega), cut_append_cut _ _ _ _ (by omega) (by omega),
    cut_append_cut _ _ _ _ (by omega) (by omega), cut_append_cut _ _ _ _ (by omega) (by omega),
    cut_append_cut _ _ _ _ (by omega) (by omega)]

/-- A header that is parsed and written keeps everything but the reserved bytes. -/
theorem bytes_of_parse (b : Bytes) (h : Header) (hp : parse b = .ok h) :
    h.sections.length = sectionCountOf b ∧
      h.bytes = blank reserved (b.take (64 + 28 * sectionCountOf b)) := by
  rcases parse_inv b h hp with ⟨pre, hdec, htable, hfields⟩
  have hlen : (b.take 64).length = 64 := by
    rw [List.length_take]
    omega
  have hcount : pre.sectionCount = fromLe UInt32 (cut b 32 36) := by
    rcases (Preamble.decode_eq_ok_iff _ hlen pre).mp hdec with ⟨_, _, _, hpre⟩
    rw [hpre, Preamble.ofBytes]
    dsimp only
    rw [cut_take _ _ _ _ (by omega)]
  have hn : pre.sectionCount.toNat = sectionCountOf b := by rw [hcount, sectionCountOf]
  rw [hn] at htable hfields
  have hsections : h.sections.length = sectionCountOf b := by
    rw [hfields, tableOf, List.length_map, List.length_range]
  refine ⟨hsections, ?_⟩
  have hfixed : h.fixedBytes = blank reserved (b.take 64) := by
    refine fixedBytes_of_preamble _ hlen pre hdec h ?_ ?_ ?_ ?_ ?_ ?_
    any_goals rw [hfields]
    rw [tableOf, List.length_map, List.length_range, ← hn, UInt32.ofNat_toNat]
  have htab : tableBytes h.sections
      = blank reservedInEntry (cut b 64 (64 + 28 * sectionCountOf b)) := by
    rw [hfields]
    exact table_of_tableOf _ _ (by rw [length_cut_of_le _ _ _ htable]; omega)
  -- Behind the header, the marked positions are those of the table.
  have hshift : (fun i => reserved (i + 64)) = reservedInEntry := by
    funext i
    rw [reserved, if_neg (by omega), Nat.add_sub_cancel]
  rw [bytes, hfixed, htab, ← hshift]
  conv_rhs => rw [← cut_zero, ← cut_append_cut b 0 _ 64 (by omega) (by omega), cut_zero]
  rw [blank_append, hlen]

/-- The reader never panics, and on a stream without real failures it returns a header
    exactly when the bytes are well-formed. Then it stands behind the table, the header
    has as many sections as the bytes say, and writing it gives the bytes back up to
    there, the reserved ones blanked. Conversely every header that is written is read
    back, whatever follows it. -/
theorem parsing_exact (build : Build) :
    (∀ r : Stream, (read build r).Safe) ∧
    (∀ r : Stream, r.Benign →
      ((∃ h r', read build r = .ok (h, r')) ↔ WellFormed r.bytes) ∧
      ∀ h r', read build r = .ok (h, r') →
        h.sections.length = sectionCountOf r.bytes ∧ r'.pos = h.firstPayloadOffset ∧
        r'.bytes = r.bytes ∧
        ∃ w, h.write (Stream.ofBytes []) = .ok w ∧
          w.bytes = blank reserved (r.bytes.take (64 + 28 * sectionCountOf r.bytes))) ∧
    ∀ h : Header, h.sections.length < 2 ^ 32 → ∃ w, h.write (Stream.ofBytes []) = .ok w ∧
      ∀ (rest : Bytes) (r : Stream), r.Benign → r.bytes = w.bytes ++ rest →
        ∃ r', read build r = .ok (h, r') := by
  have hwrite : ∀ h : Header, ∃ w, h.write (Stream.ofBytes []) = .ok w ∧ w.bytes = h.bytes := by
    intro h
    exact ⟨_, write_eq h _, writeAt_nil_zero _⟩
  refine ⟨read_safe build, fun r hb => ?_, fun h hcount => ?_⟩
  · rcases read_benign build r hb with ⟨es, _, hread⟩
    rw [hread, ← parse_ok_iff]
    constructor
    · constructor
      · rintro ⟨h, r', hrun⟩
        rcases (Outcome.bind_eq_ok_iff _ _ _).mp hrun with ⟨h', hp, _⟩
        exact ⟨h', hp⟩
      · rintro ⟨h, hp⟩
        rw [hp]
        exact ⟨h, _, rfl⟩
    · intro h r' hrun
      rcases (Outcome.bind_eq_ok_iff _ _ _).mp hrun with ⟨h', hp, hrun⟩
      rw [Outcome.ok.injEq, Prod.mk.injEq] at hrun
      rcases hrun with ⟨rfl, rfl⟩
      rcases bytes_of_parse _ _ hp with ⟨hsections, hbytes⟩
      rcases hwrite h' with ⟨w, hw, hwbytes⟩
      exact ⟨hsections, rfl, rfl, w, hw, hwbytes.trans hbytes⟩
  · rcases hwrite h with ⟨w, hw, hwbytes⟩
    refine ⟨w, hw, fun rest r hb hr => ?_⟩
    rcases read_benign build r hb with ⟨es, _, hread⟩
    rw [hread, hr, hwbytes, parse_bytes h hcount rest, Outcome.ok_bind]
    exact ⟨_, rfl⟩

/-- A header with one section and with flags set. -/
def sampleHeader : Header := ⟨.vamana, 9, 3, -5, 1, [⟨7, 1, 92, 0, 5⟩]⟩

/-- It is written and read back in front of a byte, from well-formed bytes. -/
theorem parsing_exact_sample :
    ∃ w r', sampleHeader.write (Stream.ofBytes []) = .ok w ∧
      read .debug (Stream.ofBytes (w.bytes ++ [8])) = .ok (sampleHeader, r') ∧ r'.pos = 92 ∧
      WellFormed (w.bytes ++ [8]) := by
  rcases parsing_exact .debug with ⟨_, hread, hwrite⟩
  rcases hwrite sampleHeader (by decide) with ⟨w, hw, hback⟩
  rcases hback [8] (Stream.ofBytes (w.bytes ++ [8])) (Stream.benign_ofBytes _) rfl with ⟨r', hr'⟩
  rcases hread (Stream.ofBytes (w.bytes ++ [8])) (Stream.benign_ofBytes _) with ⟨hiff, hstands⟩
  rcases hstands _ _ hr' with ⟨_, hpos, _⟩
  exact ⟨w, r', hw, hr', hpos, hiff.mp ⟨_, _, hr'⟩⟩

end Header

end SkegHull
