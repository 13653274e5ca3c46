import SkegHull.Atomic.Contents
import SkegHull.Overwrite

/-!
# Writing a Value to a Path

The two `write_to_path` functions are `atomic_write` with `write_to` for what builds the
content. There the writer is a file, which is new and empty. The image is built in memory
first, so a value that cannot be encoded is refused before anything is written. Then the
standard library's `write_all` hands the image to the kernel, which may take it in any
number of pieces, and calls `write` again with what is left. It retries interruptions, and
it fails when a write takes nothing.

`write_all` sets no limit to the interruptions. A run has finitely many, and `writeAll` has
an arbitrary number of calls to `write` that it makes before it gives up, so that every run
of the source is one of the model with a number that is large enough.

## Main definitions

* `writeAll`: `write_all` on a file.
* `Saga.empty`: `Saga::empty`.
* `Storable`: A value whose image can be in memory.
* `Storable.writer`, `Storable.writeToPath`: `write_to` on a file, and `write_to_path`.
* `Storable.bytes`: What the file is to contain.

## Theorems

* `writeAll_yields`, `writer_yields`: When the writer returns `Ok`, the file contains the
  image and nothing else.
* `writeAll_error_iff`, `writer_error_iff`: When the writer fails.
* `roundTrips_empty`: Empty sagas round trip.
-/

namespace SkegHull

open Lib

/-! ### Writing all of a buffer -/

/-- A system call was interrupted. -/
def interruption : IoError := ⟨.interrupted, "Interrupted system call (os error 4)"⟩

/-- What `write_all` makes of the reply to one call of `write`. It goes on behind the bytes
    that were taken, or where it was after an interruption. -/
def onWrite (next : Nat → Writer) : Except IoError Nat → Writer
  | .ok 0 => .ret (.error (.io writeZero))
  | .ok (taken + 1) => next (taken + 1)
  | .error e => if e.kind = .interrupted then next 0 else .ret (.error (.io e))

/-- `write_all` at a position of a file, with this many calls of `write` at most. -/
def writeAll : Nat → Nat → Bytes → Writer
  | _, _, [] => .ret (.ok ())
  | 0, _, _ :: _ => .ret (.error (.io interruption))
  | turns + 1, pos, b :: bs => .write pos (b :: bs) <| onWrite fun taken =>
      writeAll turns (pos + taken) ((b :: bs).drop taken)

/-- Behind the end of a file the bytes are appended. -/
theorem writeAt_length (content bytes : Bytes) :
    writeAt content content.length bytes = content ++ bytes := by
  rw [writeAt, List.take_length, Nat.sub_self, List.replicate_zero, List.append_nil,
    List.drop_eq_nil_of_le (Nat.le_add_right _ _), List.append_nil]

/-- When `write_all` returns `Ok`, all of the buffer is behind what was there. -/
theorem writeAll_yields (turns pos : Nat) (bytes content : Bytes) (hpos : content.length = pos) :
    (writeAll turns pos bytes).Yields (fun b => b = content ++ bytes) content := by
  induction turns generalizing pos bytes content with
  | zero =>
      cases bytes with
      | nil => exact (List.append_nil content).symm
      | cons b bs => exact trivial
  | succ turns ih =>
      cases bytes with
      | nil => exact (List.append_nil content).symm
      | cons b bs =>
          refine ⟨fun e => ?_, fun count hcount => ?_⟩
          -- An interruption leaves the file and the buffer as they are.
          · rw [onWrite]
            by_cases hkind : e.kind = .interrupted
            · rw [if_pos hkind]
              exact ih (pos + 0) _ content hpos
            · rw [if_neg hkind]
              exact trivial
          · cases count with
            | zero => exact trivial
            | succ taken =>
                have htaken : ((b :: bs).take (taken + 1)).length = taken + 1 :=
                  List.length_take_of_le hcount
                have hnext := ih (pos + (taken + 1)) ((b :: bs).drop (taken + 1))
                  (content ++ (b :: bs).take (taken + 1))
                  (by rw [List.length_append, htaken, hpos])
                rw [List.append_assoc, List.take_append_drop] at hnext
                rw [← hpos, writeAt_length, hpos]
                exact hnext

/-- The call is worth another try. -/
def wasInterrupted : Except IoError Nat → Bool
  | .error e => e.kind = .interrupted
  | .ok _ => false

/-- How many of the replies are interruptions. -/
def interruptions (rs : List (Except IoError Nat)) : Nat := rs.countP wasInterrupted

theorem interruptions_error (e : IoError) (rs : List (Except IoError Nat))
    (h : e.kind = .interrupted) : interruptions (.error e :: rs) = interruptions rs + 1 :=
  List.countP_cons_of_pos (decide_eq_true h)

theorem interruptions_ok (taken : Nat) (rs : List (Except IoError Nat)) :
    interruptions (.ok taken :: rs) = interruptions rs :=
  List.countP_cons_of_neg Bool.false_ne_true

/-- The failure of `write_all` that a reply to `write` makes. -/
def fatalReply : Except IoError Nat → Option IoError
  | .ok 0 => some writeZero
  | .ok (_ + 1) => none
  | .error e => if e.kind = .interrupted then none else some e

/-- `write_all` fails exactly when it has got a reply that makes it, and with the failure of
    that reply, if it has turns for all interruptions. -/
theorem writeAll_error_iff (turns pos : Nat) (bytes : Bytes) (rs : List (Except IoError Nat))
    (u : Writer) (h : (writeAll turns pos bytes).after rs = some u)
    (hturns : bytes.length + interruptions rs ≤ turns) (error : Error) :
    u = .ret (.error error) ↔ ∃ r ∈ rs, ∃ e, fatalReply r = some e ∧ error = .io e := by
  induction rs generalizing turns pos bytes with
  | nil =>
      refine ⟨fun hu => ?_, fun ⟨r, hr, _⟩ => absurd hr List.not_mem_nil⟩
      rw [Writer.after_nil, Option.some.injEq, hu] at h
      cases bytes with
      | nil => cases turns <;> cases h
      | cons b bs =>
          cases turns with
          | zero => exact absurd hturns (Nat.not_le.mpr (by rw [List.length_cons]; omega))
          | succ turns => cases h
  | cons r rs ih =>
      cases bytes with
      | nil => cases turns <;> cases h
      | cons b bs =>
          cases turns with
          | zero => exact absurd hturns (Nat.not_le.mpr (by rw [List.length_cons]; omega))
          | succ turns =>
              have hstep : (onWrite (fun taken => writeAll turns (pos + taken)
                  ((b :: bs).drop taken)) r).after rs = some u := h
              -- A reply that ends `write_all` is the last one.
              have hlast : ∀ e, (Writer.ret (.error (.io e))).after rs = some u →
                  fatalReply r = some e → (u = .ret (.error error) ↔
                    ∃ r' ∈ r :: rs, ∃ e', fatalReply r' = some e' ∧ error = .io e') := by
                intro e hend hfatal
                cases rs with
                | nil =>
                    cases hend
                    constructor
                    · intro hu
                      cases hu
                      exact ⟨r, List.mem_cons_self, e, hfatal, rfl⟩
                    · rintro ⟨r', hr', e', hfatal', rfl⟩
                      cases List.mem_singleton.mp hr'
                      cases hfatal.symm.trans hfatal'
                      rfl
                | cons r' rs => cases hend
              -- Behind any other reply it is the same question about what is left.
              have hlater : ∀ taken, fatalReply r = none →
                  (writeAll turns (pos + taken) ((b :: bs).drop taken)).after rs = some u →
                  ((b :: bs).drop taken).length + interruptions rs ≤ turns →
                  (u = .ret (.error error) ↔
                    ∃ r' ∈ r :: rs, ∃ e', fatalReply r' = some e' ∧ error = .io e') := by
                intro taken hnone hrest hleft
                rw [ih turns _ _ hrest hleft]
                constructor
                · rintro ⟨r', hr', hfatal⟩
                  exact ⟨r', List.mem_cons_of_mem r hr', hfatal⟩
                · rintro ⟨r', hr', e', hfatal, he⟩
                  rcases List.mem_cons.mp hr' with rfl | hr'
                  · rw [hnone] at hfatal
                    cases hfatal
                  · exact ⟨r', hr', e', hfatal, he⟩
              rw [List.length_cons] at hturns
              rcases r with e | _ | taken
              · rw [onWrite] at hstep
                by_cases hkind : e.kind = .interrupted
                · rw [if_pos hkind] at hstep
                  rw [interruptions_error e rs hkind] at hturns
                  refine hlater 0 (if_pos hkind) hstep ?_
                  rw [List.drop_zero, List.length_cons]
                  omega
                · rw [if_neg hkind] at hstep
                  exact hlast e hstep (if_neg hkind)
              · exact hlast writeZero hstep rfl
              · rw [interruptions_ok] at hturns
                refine hlater (taken + 1) rfl hstep ?_
                rw [List.drop_succ_cons, List.length_drop]
                omega

/-! ### Values -/

/-- The image is shorter than a buffer in memory can be. -/
def HullValue.Fits : HullValue → Prop
  | .saga s => s.container.Fits
  | .kvCache c => c.container.Fits

section

variable (crate : Crc32cCrate) (build : Build) (v : HullValue)

/-- A value that fits has the image that it writes into an empty stream, in every build, or
    is refused. -/
theorem HullValue.image_cases (h : v.Fits) :
    (∀ build, v.image crate build = .ok (v.written crate .release)) ∨
      ∀ build, (v.image crate build).IsErr := by
  cases v with
  | saga s =>
      by_cases he : s.Encodable
      · refine Or.inl fun build => ?_
        rw [written_saga crate .release s he h]
        exact sagaImage_eq crate build s he h
      · exact Or.inr fun build => sagaImage_isErr crate build s he
  | kvCache c =>
      by_cases hname : c.kvMeta.ShortName
      · refine Or.inl fun build => ?_
        rw [written_kvCache crate .release c hname h]
        exact kvCacheImage_eq crate build c hname h
      · exact Or.inr fun build => kvCacheImage_isErr crate build c hname

theorem HullValue.image_safe (h : v.Fits) : (v.image crate build).Safe := by
  rcases v.image_cases crate h with hok | herr
  · rw [hok build]
    exact Outcome.safe_ok _
  · rcases herr build with ⟨e, he⟩
    rw [he]
    exact Outcome.safe_err e

end

/-- `Saga::empty`. -/
def Saga.empty (tenantId : Octets 16) (embeddingDim : UInt32) : Saga where
  tenantId := tenantId
  builtAt := 0
  recordCount := 0
  embeddingDim := embeddingDim
  centroids := []
  tags := []

theorem Saga.empty_fits (tenantId : Octets 16) (embeddingDim : UInt32) :
    (empty tenantId embeddingDim).container.Fits := by
  have hfirst : (empty tenantId embeddingDim).container.first.length = 64 :=
    SagaMeta.length_encode _
  have hsecond : (empty tenantId embeddingDim).container.second.length = 0 := rfl
  have hthird : (empty tenantId embeddingDim).container.third.length = 4 := rfl
  unfold Container.Fits Container.payloadLen
  omega

/-- The empty saga of a tenant that has not been digested yet can be saved and loaded. -/
theorem roundTrips_empty (crate : Crc32cCrate) (build : Build) (tenantId : Octets 16)
    (embeddingDim : UInt32) :
    (HullValue.saga (Saga.empty tenantId embeddingDim)).RoundTrips crate build := by
  have he : (Saga.empty tenantId embeddingDim).Encodable :=
    ⟨fun _ h => absurd h List.not_mem_nil, fun _ h => absurd h List.not_mem_nil⟩
  exact HullValue.roundTrips_saga crate build _ (by decide : 0 < 2 ^ 32) (by decide : 0 < 2 ^ 32) he
    (Saga.empty_fits tenantId embeddingDim)

/-- A value that can be in memory together with its image. -/
structure Storable where
  value : HullValue
  fits : value.Fits

namespace Storable

/-- `write_to` on a new file: the image, if there is one, in as many pieces as it takes. -/
def writer (crate : Crc32cCrate) (build : Build) (turns : Nat) (v : Storable) : Writer :=
  match (v.value.image crate build).toExcept (v.value.image_safe crate build v.fits) with
  | .ok image => writeAll turns 0 image
  | .error e => .ret (.error e)

/-- `write_to_path` of the value's type. -/
def writeToPath {δ : Type} (crate : Crc32cCrate) (build : Build) (turns : Nat) (v : Storable)
    (path : Bytes) : Program (@Reply δ) (Except Error Unit) :=
  atomicWrite path (v.writer crate build turns)

/-- What the file is to contain. -/
def bytes (crate : Crc32cCrate) (v : Storable) : Bytes := v.value.written crate .release

variable (crate : Crc32cCrate) (build : Build) (turns : Nat) (v : Storable)

/-- A value that is refused makes no writes. -/
theorem writer_refused (e : Error) (h : v.value.image crate build = .err e) :
    v.writer crate build turns = .ret (.error e) := by
  rw [writer, Outcome.toExcept_err _ (v.value.image_safe crate build v.fits) e h]

theorem writer_cases :
    (v.value.image crate build = .ok (v.bytes crate) ∧
      v.writer crate build turns = writeAll turns 0 (v.bytes crate)) ∨
    ∃ e, v.value.image crate build = .err e ∧ v.writer crate build turns = .ret (.error e) := by
  rcases v.value.image_cases crate v.fits with hok | herr
  · refine Or.inl ⟨hok build, ?_⟩
    rw [writer, Outcome.toExcept_ok _ (v.value.image_safe crate build v.fits) _ (hok build)]
    rfl
  · rcases herr build with ⟨e, he⟩
    exact Or.inr ⟨e, he, v.writer_refused crate build turns e he⟩

/-- The bytes do not depend on the build. -/
theorem written_eq : v.value.written crate build = v.bytes crate := by
  have hempty : (Stream.ofBytes []).bytes = [] := rfl
  rw [bytes, HullValue.written, HullValue.writeTo_eq]
  rcases v.value.image_cases crate v.fits with hok | herr
  · rw [hok build, Container.writeImage_ok _ _ hempty]
  · rcases herr build with ⟨e, he⟩
    rcases herr .release with ⟨e', he'⟩
    rw [he, HullValue.written, HullValue.writeTo_eq, he']
    rfl

/-- When the writer returns `Ok`, the file contains the image and nothing else. -/
theorem writer_yields :
    (v.writer crate build turns).Yields (fun b => b = v.bytes crate) [] := by
  rcases v.writer_cases crate build turns with ⟨_, hall⟩ | ⟨e, _, hrefused⟩
  · rw [hall]
    exact writeAll_yields turns 0 (v.bytes crate) [] rfl
  · rw [hrefused]
    exact trivial

/-- Why the writer fails: the value is refused, or a reply to a write makes it. -/
theorem writer_error_iff (rs : List (Except IoError Nat)) (u : Writer)
    (h : (v.writer crate build turns).after rs = some u)
    (hturns : (v.bytes crate).length + interruptions rs ≤ turns) (error : Error) :
    u = .ret (.error error) ↔ v.value.image crate build = .err error ∨
      ∃ r ∈ rs, ∃ e, fatalReply r = some e ∧ error = .io e := by
  rcases v.writer_cases crate build turns with ⟨himage, hall⟩ | ⟨e, himage, hrefused⟩
  · rw [hall] at h
    rw [himage, writeAll_error_iff turns 0 (v.bytes crate) rs u h hturns]
    exact ⟨Or.inr, fun hcause => hcause.resolve_left fun he => (nomatch he)⟩
  -- A value that is refused makes no writes.
  · rw [hrefused] at h
    cases rs with
    | nil =>
        cases h
        rw [himage]
        constructor
        · intro hu
          cases hu
          exact Or.inl rfl
        · rintro (he | ⟨r, hr, _⟩)
          · cases he
            rfl
          · exact absurd hr List.not_mem_nil
    | cons r rs => cases h

end Storable

end SkegHull
