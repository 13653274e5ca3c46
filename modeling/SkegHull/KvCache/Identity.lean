import SkegHull.Header
import SkegHull.Lib.Utf8

/-!
# Identity Section

Which model, adapter and prefix a cache belongs to. The fields sit at fixed
offsets up to the model name, whose length is in front of it. An absent adapter
takes up the same 32 bytes as a present one and a byte in front says which it is.

The decoder checks that the name ends inside the section and not that it ends
with it, so a section may carry bytes after the name.

## Main definitions

* `KvCacheMeta`, `Identity`: The data.
* `Identity.encode`, `Identity.decode`: The codec.
* `Identity.bytes`: The encoding of an identity with a short enough name.
* `Identity.layout`: All sections that hold it.

## Theorems

* `encode_eq`: Encoding succeeds exactly when the name is short enough.
* `decode_eq`: The decoder as two guards around reads at fixed offsets.
* `decode_safe`: Decoding never panics.
* `decode_bytes`: The section is read back.
* `decode_eq_ok_iff`: What decodes to an identity.
-/

namespace SkegHull

open Lib

/-- Model identity and timestamp metadata. -/
structure KvCacheMeta where
  createdAt : Int64
  tokenizerVersion : UInt32
  modelName : String
  deriving DecidableEq

/-- What the identity section decodes to. -/
structure Identity where
  modelFp : Octets 32
  adapterId : Option (Octets 32)
  prefixHash : Octets 32
  kvMeta : KvCacheMeta
  deriving DecidableEq

/-- The model name is at most 65535 bytes long. -/
def KvCacheMeta.ShortName (m : KvCacheMeta) : Prop := (utf8 m.modelName).length ≤ 65535

instance (m : KvCacheMeta) : Decidable m.ShortName := inferInstanceAs (Decidable (_ ≤ _))

namespace Identity

/-- Size of the section up to the model name. -/
abbrev fixed : Nat := 111

/-- Encode the section. -/
def encode (modelFp : Octets 32) (adapterId : Option (Octets 32)) (prefixHash : Octets 32)
    (kvMeta : KvCacheMeta) : Outcome Error Bytes := do
  let nameBytes := utf8 kvMeta.modelName
  failIf (65535 < nameBytes.length)
    (.malformed s!"model_name too long ({nameBytes.length} bytes, max 65535)")
  let out := modelFp.val
  let out := match adapterId with
    | some aid => out ++ [1] ++ aid.val
    | none => out ++ [0] ++ List.replicate 32 0
  let out := out ++ prefixHash.val
  let out := out ++ toLe kvMeta.createdAt
  let out := out ++ toLe kvMeta.tokenizerVersion
  let out := out ++ toLe (UInt16.ofNat nameBytes.length)
  .ok (out ++ nameBytes)

/-- The adapter the presence byte selects. -/
def adapterOf (adapterPresent : UInt8) (adapterRaw : Octets 32) :
    Outcome Error (Option (Octets 32)) :=
  if adapterPresent = 0 then .ok none
  else if adapterPresent = 1 then .ok (some adapterRaw)
  else .err (.malformed s!"invalid adapter_present byte: {adapterPresent}")

/-- Decode the section. -/
def decode (build : Build) (bytes : Bytes) : Outcome Error Identity := do
  failIf (bytes.length < fixed)
    (.malformed s!"identity section too short: {bytes.length} < {fixed}")
  let modelFp ← readArray 32 bytes 0 32
  let adapterPresent ← byteAt bytes 32
  let adapterRaw ← readArray 32 bytes 33 65
  let adapterId ← adapterOf adapterPresent adapterRaw
  let prefixHash ← readArray 32 bytes 65 97
  let createdAt ← readLe Int64 bytes 97 105
  let tokenizerVersion ← readLe UInt32 bytes 105 109
  let nameLen ← readLe UInt16 bytes 109 111
  let need ← build.add fixed nameLen.toNat
  failWith (bytes.length < need) (do
    let rest ← build.sub bytes.length fixed
    .ok (.malformed
      s!"identity section truncated: need {nameLen} bytes for model_name, have {rest}"))
  let stop ← build.add fixed nameLen.toNat
  let raw ← slice bytes fixed stop
  let modelName ← okOr (fromUtf8 raw)
    (.malformed s!"model_name not valid utf-8: {utf8ErrorText raw}")
  .ok ⟨modelFp, adapterId, prefixHash, ⟨createdAt, tokenizerVersion, modelName⟩⟩

/-- The presence byte and the 32 bytes after it, which are free for an absent adapter. -/
def adapterField (a : Option (Octets 32)) (hidden : Octets 32) : Bytes :=
  match a with
  | some aid => [1] ++ aid.val
  | none => [0] ++ hidden.val

@[simp] theorem length_adapterField (a : Option (Octets 32)) (hidden : Octets 32) :
    (adapterField a hidden).length = 33 := by
  cases a with
  | none => rw [adapterField, List.length_append, hidden.property, List.length_singleton]
  | some aid => rw [adapterField, List.length_append, aid.property, List.length_singleton]

/-- The same as the encoder writes it, with zeros for an absent adapter. -/
def adapterBytes (a : Option (Octets 32)) : Bytes := adapterField a (Octets.zero 32)

@[simp] theorem length_adapterBytes (a : Option (Octets 32)) : (adapterBytes a).length = 33 :=
  length_adapterField a _

/-- The bytes of an identity. -/
def bytes (i : Identity) : Bytes :=
  i.modelFp.val ++ (adapterBytes i.adapterId ++ (i.prefixHash.val ++ (toLe i.kvMeta.createdAt ++
    (toLe i.kvMeta.tokenizerVersion ++ (toLe (UInt16.ofNat (utf8 i.kvMeta.modelName).length) ++
      utf8 i.kvMeta.modelName)))))

@[simp] theorem length_bytes (i : Identity) :
    i.bytes.length = 111 + (utf8 i.kvMeta.modelName).length := by
  have hfp := i.modelFp.property
  have hhash := i.prefixHash.property
  simp only [bytes, List.length_append, hfp, hhash, length_adapterBytes, length_toLe, width_int64,
    width_uint32, width_uint16]
  omega

/-- Encoding succeeds exactly when the name is short enough, and is an error
    otherwise. -/
theorem encode_eq (i : Identity) :
    (i.kvMeta.ShortName → encode i.modelFp i.adapterId i.prefixHash i.kvMeta = .ok i.bytes) ∧
    (¬ i.kvMeta.ShortName → (encode i.modelFp i.adapterId i.prefixHash i.kvMeta).IsErr) := by
  unfold KvCacheMeta.ShortName encode
  dsimp only
  constructor
  · intro h
    rw [failIf_of_not _ _ (by omega), Outcome.ok_bind]
    -- Both kinds of adapter take up the same bytes, the presence byte apart.
    cases hid : i.adapterId with
    | none => simp only [bytes, hid, adapterBytes, adapterField, Octets.zero, List.append_assoc]
    | some aid => simp only [bytes, hid, adapterBytes, adapterField, List.append_assoc]
  · intro h
    rw [failIf_of _ _ (by omega), Outcome.err_bind]
    exact Outcome.isErr_err _

variable (build : Build) (buf : Bytes)

theorem adapterOf_safe (adapterPresent : UInt8) (adapterRaw : Octets 32) :
    (adapterOf adapterPresent adapterRaw).Safe := by
  unfold adapterOf
  by_cases h0 : adapterPresent = 0
  · rw [if_pos h0]
    exact Outcome.safe_ok _
  by_cases h1 : adapterPresent = 1
  · rw [if_neg h0, if_pos h1]
    exact Outcome.safe_ok _
  · rw [if_neg h0, if_neg h1]
    exact Outcome.safe_err _

/-- The decoder on a section that holds the fixed part: the presence byte, the
    end of the name, and the name itself can each still be wrong. -/
theorem decode_eq (h : 111 ≤ buf.length) :
    decode build buf = (do
      let adapterId ← adapterOf buf[32] ⟨cut buf 33 65, by rw [length_cut_of_le _ _ _ (by omega)]⟩
      let nameLen := fromLe UInt16 (cut buf 109 111)
      failIf (buf.length < 111 + nameLen.toNat) (.malformed
        s!"identity section truncated: need {nameLen} bytes for model_name, have {
          buf.length - 111}")
      let raw := cut buf 111 (111 + nameLen.toNat)
      let modelName ← okOr (fromUtf8 raw)
        (.malformed s!"model_name not valid utf-8: {utf8ErrorText raw}")
      .ok {
        modelFp := ⟨cut buf 0 32, by rw [length_cut_of_le _ _ _ (by omega)]⟩
        adapterId := adapterId
        prefixHash := ⟨cut buf 65 97, by rw [length_cut_of_le _ _ _ (by omega)]⟩
        kvMeta := {
          createdAt := fromLe Int64 (cut buf 97 105)
          tokenizerVersion := fromLe UInt32 (cut buf 105 109)
          modelName := modelName } }) := by
  unfold decode fixed
  rw [failIf_of_not _ _ (by omega), Outcome.ok_bind, readArray_eq 32 buf 0 32 (by omega) rfl,
    Outcome.ok_bind, byteAt_eq buf 32 (by omega), Outcome.ok_bind,
    readArray_eq 32 buf 33 65 (by omega) rfl, Outcome.ok_bind]
  refine bind_congr fun adapterId => ?_
  rw [readArray_eq 32 buf 65 97 (by omega) rfl, Outcome.ok_bind,
    readLe_eq buf 97 105 (by omega) rfl, Outcome.ok_bind, readLe_eq buf 105 109 (by omega) rfl,
    Outcome.ok_bind, readLe_eq buf 109 111 (by omega) rfl, Outcome.ok_bind]
  simp only
  -- A 16-bit length and the fixed part are far below a 64-bit word.
  generalize fromLe UInt16 (cut buf 109 111) = nameLen
  have hword := nameLen.toNat_lt
  rw [add_of_lt _ _ _ (by omega), Outcome.ok_bind, sub_of_le _ _ _ h, Outcome.ok_bind,
    Outcome.ok_bind]
  by_cases hend : buf.length < 111 + nameLen.toNat
  · rw [failWith_of _ _ hend, failIf_of _ _ hend, Outcome.err_bind, Outcome.err_bind]
  · rw [failWith_of_not _ _ hend, failIf_of_not _ _ hend, Outcome.ok_bind, Outcome.ok_bind,
      slice_eq _ _ _ (by omega) (by omega), Outcome.ok_bind]

/-- Decoding never panics. -/
theorem decode_safe : (decode build buf).Safe := by
  by_cases h : 111 ≤ buf.length
  · rw [decode_eq build buf h]
    simp only [Outcome.safe_bind_iff, adapterOf_safe, safe_failIf, safe_okOr, Outcome.safe_ok,
      implies_true, and_self]
  · unfold decode fixed
    rw [failIf_of _ _ (by omega), Outcome.err_bind]
    exact Outcome.safe_err _

theorem adapterOf_errs (adapterPresent : UInt8) (adapterRaw : Octets 32) :
    (adapterOf adapterPresent adapterRaw).Errs Error.Semantic := by
  unfold adapterOf
  by_cases h0 : adapterPresent = 0
  · rw [if_pos h0]
    exact Outcome.errs_ok _ _
  by_cases h1 : adapterPresent = 1
  · rw [if_neg h0, if_pos h1]
    exact Outcome.errs_ok _ _
  · rw [if_neg h0, if_neg h1]
    exact (Outcome.errs_err _ _).mpr trivial

/-- A malformed section is the only error. -/
theorem decode_errs : (decode build buf).Errs Error.Semantic := by
  by_cases h : 111 ≤ buf.length
  · rw [decode_eq build buf h]
    refine Outcome.errs_bind _ _ _ (adapterOf_errs _ _) fun adapterId _ => ?_
    refine Outcome.errs_bind _ _ _ (errs_failIf _ _ _ fun _ => trivial) fun _ _ => ?_
    refine Outcome.errs_bind _ _ _ (errs_okOr _ _ _ trivial) fun modelName _ => ?_
    exact Outcome.errs_ok _ _
  · unfold decode fixed
    rw [failIf_of _ _ (by omega), Outcome.err_bind]
    exact (Outcome.errs_err _ _).mpr trivial

/-- A name that was decoded is short, its length having been stored in 16 bits. -/
theorem shortName_of_decode (i : Identity) (h : decode build buf = .ok i) : i.kvMeta.ShortName := by
  have hlen : 111 ≤ buf.length := by
    unfold decode fixed at h
    simp only [Outcome.bind_eq_ok_iff, failIf_eq_ok_iff] at h
    rcases h with ⟨_, hlen, _⟩
    omega
  rw [decode_eq build buf hlen] at h
  simp only [Outcome.bind_eq_ok_iff, failIf_eq_ok_iff, okOr_eq_ok_iff, Outcome.ok.injEq,
    exists_const] at h
  rcases h with ⟨_, _, _, modelName, hname, rfl⟩
  have hword := (fromLe UInt16 (cut buf 109 111)).toNat_lt
  have hraw := congrArg List.length (utf8_of_fromUtf8 _ _ hname)
  rw [length_cut] at hraw
  unfold KvCacheMeta.ShortName
  simp only
  omega

/-- Decoding does not depend on the build. -/
theorem decode_build (build' : Build) : decode build buf = decode build' buf := by
  by_cases h : 111 ≤ buf.length
  · rw [decode_eq build buf h, decode_eq build' buf h]
  · unfold decode fixed
    rw [failIf_of _ _ (by omega), Outcome.err_bind, Outcome.err_bind]

/-- A section that holds an identity, with the bytes that the decoder does not look at: those
    of an absent adapter, and those behind the name. -/
def layout (i : Identity) (hidden : Octets 32) (rest : Bytes) : Bytes :=
  i.modelFp.val ++ (adapterField i.adapterId hidden ++ (i.prefixHash.val ++
    (toLe i.kvMeta.createdAt ++ (toLe i.kvMeta.tokenizerVersion ++
      (toLe (UInt16.ofNat (utf8 i.kvMeta.modelName).length) ++
        (utf8 i.kvMeta.modelName ++ rest))))))

@[simp] theorem length_layout (i : Identity) (hidden : Octets 32) (rest : Bytes) :
    (i.layout hidden rest).length = 111 + (utf8 i.kvMeta.modelName).length + rest.length := by
  have hfp := i.modelFp.property
  have hhash := i.prefixHash.property
  simp only [layout, List.length_append, hfp, hhash, length_adapterField, length_toLe,
    width_int64, width_uint32, width_uint16]
  omega

/-- The encoder writes zeros for an absent adapter, and nothing behind the name. -/
theorem layout_zero (i : Identity) : i.layout (Octets.zero 32) [] = i.bytes := by
  rw [layout, bytes, adapterBytes, List.append_nil]

/-- The section is read back, whatever the free bytes are. -/
theorem decode_layout (i : Identity) (hs : i.kvMeta.ShortName) (hidden : Octets 32)
    (rest : Bytes) : decode build (i.layout hidden rest) = .ok i := by
  have hfp := i.modelFp.property
  have hhash := i.prefixHash.property
  have hshort : (utf8 i.kvMeta.modelName).length ≤ 65535 := hs
  have hlen := i.length_layout hidden rest
  have hname : (UInt16.ofNat (utf8 i.kvMeta.modelName).length).toNat
      = (utf8 i.kvMeta.modelName).length := toNat_ofNat16 _ (by omega)
  have hnameLen : fromLe UInt16 (cut (i.layout hidden rest) 109 111)
      = UInt16.ofNat (utf8 i.kvMeta.modelName).length := by
    simp only [layout, cut_append_exact, cut_append_right, hfp, hhash, length_adapterField,
      length_toLe, width_int64, width_uint32, width_uint16, Nat.reduceLeDiff, Nat.reduceSub,
      le_refl, Nat.sub_self, fromLe_toLe]
  -- The presence byte follows the 32 bytes of the model fingerprint.
  have hpresent : (i.layout hidden rest)[32] = if i.adapterId.isSome then 1 else 0 := by
    have hget : (i.layout hidden rest)[32]? = some (if i.adapterId.isSome then 1 else 0) := by
      rw [layout, List.getElem?_append_right (by omega), hfp]
      cases i.adapterId <;> rfl
    exact (List.getElem?_eq_some_iff.mp hget).2
  have hadapter : ∀ raw : Octets 32, raw.val = cut (i.layout hidden rest) 33 65 →
      adapterOf (i.layout hidden rest)[32] raw = .ok i.adapterId := by
    intro raw hraw
    rw [hpresent]
    unfold adapterOf
    cases hid : i.adapterId with
    -- An absent adapter ignores the bytes that were read for it.
    | none => rfl
    | some aid =>
        have haid := aid.property
        have hval : raw.val = aid.val := by
          rw [hraw]
          simp only [layout, hid, adapterField, List.append_assoc, cut_append_exact,
            cut_append_right, hfp, haid, List.length_singleton, Nat.reduceLeDiff, Nat.reduceSub,
            le_refl, Nat.sub_self]
        rw [Subtype.ext hval]
        rfl
  have htext : fromUtf8 (cut (i.layout hidden rest) 111
      (111 + (utf8 i.kvMeta.modelName).length)) = some i.kvMeta.modelName := by
    have hcut : cut (i.layout hidden rest) 111 (111 + (utf8 i.kvMeta.modelName).length)
        = utf8 i.kvMeta.modelName := by
      simp only [layout, cut_append_right, hfp, hhash, length_adapterField, length_toLe,
        width_int64, width_uint32, width_uint16, Nat.reduceLeDiff, Nat.reduceSub]
      exact cut_append_exact _ _ _ (by omega)
    rw [hcut, fromUtf8_utf8]
  rw [decode_eq build _ (by omega), hadapter _ rfl, Outcome.ok_bind]
  dsimp only
  rw [hnameLen, hname, failIf_of_not _ _ (by omega), Outcome.ok_bind, htext, okOr_some,
    Outcome.ok_bind]
  simp only [layout, cut_append_exact, cut_append_right, hfp, hhash, length_adapterField,
    length_toLe, width_int64, width_uint32, Nat.reduceLeDiff, Nat.reduceSub, le_refl, Nat.sub_self,
    fromLe_toLe]

/-- The section is read back. -/
theorem decode_bytes (i : Identity) (hs : i.kvMeta.ShortName) : decode build i.bytes = .ok i := by
  rw [← i.layout_zero]
  exact decode_layout build i hs (Octets.zero 32) []

/-- Where the model name of a section ends. -/
def nameEnd : Nat := 111 + (fromLe UInt16 (cut buf 109 111)).toNat

/-- The presence byte says absent, and the bytes of the adapter are not all zero. -/
def HiddenAdapter : Prop := buf[32]? = some 0 ∧ cut buf 33 65 ≠ List.replicate 32 0

instance : Decidable (HiddenAdapter buf) := inferInstanceAs (Decidable (_ ∧ _))

/-- The adapter that was decoded is stored in the section, unless its bytes are hidden. -/
theorem adapterBytes_of_adapterOf (h : 65 ≤ buf.length) (raw : Octets 32)
    (hraw : raw.val = cut buf 33 65) (a : Option (Octets 32))
    (ha : adapterOf buf[32] raw = .ok a) :
    adapterBytes a = cut buf 32 65 ↔ ¬ HiddenAdapter buf := by
  have hjoin : cut buf 32 65 = [buf[32]] ++ cut buf 33 65 := by
    rw [← cut_one buf 32 (by omega), cut_append_cut _ _ _ _ (by omega) (by omega)]
  have hget : buf[32]? = some buf[32] := List.getElem?_eq_getElem (by omega)
  unfold adapterOf at ha
  unfold HiddenAdapter
  rw [hjoin, hget, Option.some.injEq]
  by_cases h0 : buf[32] = 0
  · -- An absent adapter is stored as zeros.
    rw [if_pos h0, Outcome.ok.injEq] at ha
    rw [← ha, h0, adapterBytes, adapterField, Octets.zero, List.append_cancel_left_eq]
    simp only [true_and, ne_eq, not_not]
    exact eq_comm
  by_cases h1 : buf[32] = 1
  · rw [if_neg h0, if_pos h1, Outcome.ok.injEq] at ha
    rw [← ha, h1, adapterBytes, adapterField, hraw]
    simp only [true_iff, not_and]
    intro hzero
    cases hzero
  · rw [if_neg h0, if_neg h1] at ha
    cases ha

/-- What a section decodes to is stored in it, up to the end of the name. -/
theorem bytes_of_decode (i : Identity) (h : decode build buf = .ok i) :
    nameEnd buf ≤ buf.length ∧ i.bytes.length = nameEnd buf ∧
      i.bytes = cut buf 0 32 ++ (adapterBytes i.adapterId ++ cut buf 65 (nameEnd buf)) ∧
      (adapterBytes i.adapterId = cut buf 32 65 ↔ ¬ HiddenAdapter buf) := by
  have hlen : 111 ≤ buf.length := by
    unfold decode fixed at h
    simp only [Outcome.bind_eq_ok_iff, failIf_eq_ok_iff] at h
    rcases h with ⟨_, hlen, _⟩
    omega
  rw [decode_eq build buf hlen] at h
  simp only [Outcome.bind_eq_ok_iff, failIf_eq_ok_iff, okOr_eq_ok_iff, Outcome.ok.injEq,
    exists_const] at h
  rcases h with ⟨adapter, hadapter, hend, name, hname, rfl⟩
  have hraw := utf8_of_fromUtf8 _ _ hname
  have hsize := congrArg List.length hraw
  rw [length_cut_of_le _ _ _ (by omega), Nat.add_sub_cancel_left] at hsize
  refine ⟨by unfold nameEnd; omega, ?_, ?_,
    adapterBytes_of_adapterOf buf (by omega) _ rfl adapter hadapter⟩
  · rw [length_bytes]
    dsimp only
    rw [hsize, nameEnd]
  · unfold bytes nameEnd
    dsimp only
    -- The fields behind the adapter lie next to each other.
    rw [hsize, UInt16.ofNat_toNat, toLe_cut buf 97 105 (by omega) rfl,
      toLe_cut buf 105 109 (by omega) rfl, toLe_cut buf 109 111 (by omega) rfl, hraw,
      cut_append_cut _ _ _ _ (by omega) (by omega), cut_append_cut _ _ _ _ (by omega) (by omega),
      cut_append_cut _ _ _ _ (by omega) (by omega), cut_append_cut _ _ _ _ (by omega) (by omega)]

/-- The adapter that was decoded is stored in the section, with the bytes that were read. -/
theorem adapterField_of_adapterOf (h : 65 ≤ buf.length) (raw : Octets 32)
    (hraw : raw.val = cut buf 33 65) (a : Option (Octets 32))
    (ha : adapterOf buf[32] raw = .ok a) : adapterField a raw = cut buf 32 65 := by
  have hjoin : cut buf 32 65 = [buf[32]] ++ cut buf 33 65 := by
    rw [← cut_one buf 32 (by omega), cut_append_cut _ _ _ _ (by omega) (by omega)]
  unfold adapterOf at ha
  rw [hjoin, ← hraw]
  by_cases h0 : buf[32] = 0
  · rw [if_pos h0, Outcome.ok.injEq] at ha
    rw [← ha, h0, adapterField]
  by_cases h1 : buf[32] = 1
  · rw [if_neg h0, if_pos h1, Outcome.ok.injEq] at ha
    rw [← ha, h1, adapterField]
  · rw [if_neg h0, if_neg h1] at ha
    cases ha

/-- A section decodes to an identity exactly when it holds it. -/
theorem decode_eq_ok_iff (i : Identity) :
    decode build buf = .ok i ↔
      i.kvMeta.ShortName ∧ ∃ hidden rest, buf = i.layout hidden rest := by
  constructor
  · intro h
    refine ⟨shortName_of_decode build buf i h, ?_⟩
    have hlen : 111 ≤ buf.length := by
      unfold decode fixed at h
      simp only [Outcome.bind_eq_ok_iff, failIf_eq_ok_iff] at h
      rcases h with ⟨_, hlen, _⟩
      omega
    rw [decode_eq build buf hlen] at h
    simp only [Outcome.bind_eq_ok_iff, failIf_eq_ok_iff, okOr_eq_ok_iff, Outcome.ok.injEq,
      exists_const] at h
    rcases h with ⟨adapter, hadapter, hend, name, hname, rfl⟩
    have hraw := utf8_of_fromUtf8 _ _ hname
    have hsize := congrArg List.length hraw
    rw [length_cut_of_le _ _ _ (by omega), Nat.add_sub_cancel_left] at hsize
    refine ⟨⟨cut buf 33 65, length_cut_of_le _ _ _ (by omega)⟩,
      cut buf (111 + (fromLe UInt16 (cut buf 109 111)).toNat) buf.length, ?_⟩
    unfold layout
    dsimp only
    -- The fields lie next to each other, and the free bytes between and behind them.
    rw [adapterField_of_adapterOf buf (by omega) _ rfl adapter hadapter, hsize,
      UInt16.ofNat_toNat, toLe_cut buf 97 105 (by omega) rfl, toLe_cut buf 105 109 (by omega) rfl,
      toLe_cut buf 109 111 (by omega) rfl, hraw]
    iterate 7 rw [cut_append_cut _ _ _ _ (by omega) (by omega)]
    exact (cut_exact _ _ rfl).symm
  · rintro ⟨hs, hidden, rest, rfl⟩
    exact decode_layout build i hs hidden rest

end Identity

end SkegHull
