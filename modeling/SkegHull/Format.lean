import SkegHull.Lib.Stream

/-!
# Formats, Versions, and Errors

The identifiers every hull file starts with, the versions this reader
supports, and the errors the readers and writers return.

`checkCompatibility` has three answers although only two of them occur at
version one: the middle one is there for later readers, and callers already
treat it like the first.

Errors keep their texts. The scrubber turns an error into a message and carries
the message, so `Error.display` is part of what the program computes.

## Main definitions

* `FormatId`, `FormatVersion`: Format family and version inside it.
* `magic`, `headerLen`, `sectionEntryLen`, `fileChecksumLen`: The constants of
  the layout.
* `Error`: The error type, and `Error.display`, its text.
* `Compatibility`, `checkCompatibility`: The version check.

## Theorems

* `fromU16_asU16`: A stored format id decodes to itself.
* `checkCompatibility_one`: Version one of every format is supported.
* `checkCompatibility_ne_one`: No other version is.
-/

namespace SkegHull

open Lib

/-- Top-level format family. -/
inductive FormatId where
  | kv
  | vamana
  | saga
  | kvCache
  deriving DecidableEq, Repr

/-- Raw numeric value as stored on disk. -/
def FormatId.asU16 : FormatId → UInt16
  | .kv => 1
  | .vamana => 2
  | .saga => 3
  | .kvCache => 4

/-- Decode a raw value into a known format. -/
def FormatId.fromU16 (v : UInt16) : Option FormatId :=
  if v = 1 then some .kv
  else if v = 2 then some .vamana
  else if v = 3 then some .saga
  else if v = 4 then some .kvCache
  else none

@[simp] theorem FormatId.fromU16_asU16 (f : FormatId) : fromU16 f.asU16 = some f := by
  cases f <;> rfl

/-- A value that decodes is the one that is stored. -/
theorem FormatId.asU16_of_fromU16 (v : UInt16) (f : FormatId) (h : fromU16 v = some f) :
    f.asU16 = v := by
  unfold fromU16 at h
  split_ifs at h with h1 h2 h3 h4
  all_goals
    rw [Option.some.injEq] at h
    subst h
    symm
    assumption

/-- The known formats have the numbers from one to four. -/
theorem FormatId.fromU16_isSome_iff (v : UInt16) :
    (∃ f, fromU16 v = some f) ↔ 1 ≤ v.toNat ∧ v.toNat ≤ 4 := by
  constructor
  · rintro ⟨f, hf⟩
    rw [← asU16_of_fromU16 v f hf]
    cases f <;> decide
  · rintro ⟨hlow, hhigh⟩
    have hword : ∀ w : UInt16, v.toNat = w.toNat → v = w := fun w => UInt16.toNat_inj.mp
    have hcases : v = 1 ∨ v = 2 ∨ v = 3 ∨ v = 4 := by
      rcases (by omega : v.toNat = 1 ∨ v.toNat = 2 ∨ v.toNat = 3 ∨ v.toNat = 4) with h | h | h | h
      · exact Or.inl (hword 1 h)
      · exact Or.inr (Or.inl (hword 2 h))
      · exact Or.inr (Or.inr (Or.inl (hword 3 h)))
      · exact Or.inr (Or.inr (Or.inr (hword 4 h)))
    rcases hcases with rfl | rfl | rfl | rfl
    · exact ⟨.kv, rfl⟩
    · exact ⟨.vamana, rfl⟩
    · exact ⟨.saga, rfl⟩
    · exact ⟨.kvCache, rfl⟩

/-- The name `Debug` prints. -/
def FormatId.debug : FormatId → String
  | .kv => "Kv"
  | .vamana => "Vamana"
  | .saga => "Saga"
  | .kvCache => "KvCache"

/-- A format family and the version inside it. -/
structure FormatVersion where
  format : FormatId
  version : UInt16
  deriving DecidableEq, Repr

def FormatVersion.debug (v : FormatVersion) : String :=
  "FormatVersion \x7b format: " ++ v.format.debug ++ ", version: " ++ toString v.version ++ " \x7d"

def kvV1 : FormatVersion := ⟨.kv, 1⟩

def vamanaV1 : FormatVersion := ⟨.vamana, 1⟩

def sagaV1 : FormatVersion := ⟨.saga, 1⟩

def kvCacheV1 : FormatVersion := ⟨.kvCache, 1⟩

/-- `SKEGHULL`. -/
def magic : Octets 8 := ⟨[0x53, 0x4b, 0x45, 0x47, 0x48, 0x55, 0x4c, 0x4c], rfl⟩

/-- Header size in bytes. -/
abbrev headerLen : Nat := 64

/-- Section table entry size in bytes. -/
abbrev sectionEntryLen : Nat := 28

/-- Trailing file-level checksum size in bytes. -/
abbrev fileChecksumLen : Nat := 4

/-- What the readers and writers can fail with. -/
inductive Error where
  | io (error : IoError)
  | magicMismatch (found : Octets 8)
  | unknownFormat (formatId : UInt16)
  | unsupportedVersion (format : FormatId) (version : UInt16)
  | sectionChecksumFailed (typeId : UInt16)
  | fileChecksumFailed
  | truncated
  | malformed (text : String)
  | missingSection (typeId : UInt16)
  | formatMismatch (found expected : FormatVersion)
  deriving DecidableEq

/-- One hexadecimal digit. -/
def hexDigit (n : Nat) : Char := Nat.digitChar (n % 16)

/-- A byte array under the two-digit hexadecimal `Debug` format. -/
def debugHex (b : Bytes) : String :=
  "[" ++ ", ".intercalate (b.map fun x =>
    String.ofList [hexDigit (x.toNat / 16), hexDigit x.toNat]) ++ "]"

/-- The text an error displays as. -/
def Error.display : Error → String
  | .io e => s!"I/O error: {e.text}"
  | .magicMismatch found => "magic mismatch: found " ++ debugHex found.val ++ ", expected SKEGHULL"
  | .unknownFormat formatId => s!"unknown format id: {formatId}"
  | .unsupportedVersion format version =>
      "unsupported version: format=" ++ format.debug ++ s!", version={version}"
  | .sectionChecksumFailed typeId => s!"section checksum failed: type_id={typeId}"
  | .fileChecksumFailed => "file checksum failed"
  | .truncated => "file truncated"
  | .malformed text => s!"malformed: {text}"
  | .missingSection typeId => s!"missing required section: type_id={typeId}"
  | .formatMismatch found expected =>
      "format mismatch: file is " ++ found.debug ++ ", caller expected " ++ expected.debug

/-- The error is about the meaning of some bytes, and not about their integrity:
    no checksum failed and nothing was cut off. -/
def Error.Semantic : Error → Prop
  | .malformed _ => True
  | .missingSection _ => True
  | _ => False

/-! ### Compatibility -/

/-- Result of checking a file's declared format against this reader. -/
inductive Compatibility where
  | compatible
  | compatibleWithWarnings (warnings : List String)
  | incompatible (found : FormatVersion) (supported : List FormatVersion)
  deriving DecidableEq

/-- Highest version this reader supports for each format. -/
def highestSupported : FormatId → UInt16
  | .kv => kvV1.version
  | .vamana => vamanaV1.version
  | .saga => sagaV1.version
  | .kvCache => kvCacheV1.version

/-- The pairs this reader supports. -/
def supported : List FormatVersion := [kvV1, vamanaV1, sagaV1, kvCacheV1]

/-- Whether this reader can open a file of the given format and version. -/
def checkCompatibility (found : FormatVersion) : Compatibility :=
  let max := highestSupported found.format
  -- Version zero was never written, and a later one is not known yet.
  if found.version = 0 ∨ max < found.version then .incompatible found supported
  else .compatible

theorem checkCompatibility_one (f : FormatId) : checkCompatibility ⟨f, 1⟩ = .compatible := by
  cases f <;> rfl

theorem checkCompatibility_ne_one (f : FormatId) (v : UInt16) (h : v ≠ 1) :
    checkCompatibility ⟨f, v⟩ = .incompatible ⟨f, v⟩ supported := by
  have hmax : highestSupported f = 1 := by cases f <;> rfl
  unfold checkCompatibility
  rw [hmax]
  refine if_pos ?_
  -- Any version but one is below or above the only one there is.
  by_cases h0 : v = 0
  · exact Or.inl h0
  · right
    rw [UInt16.lt_iff_toNat_lt]
    have h0' : v.toNat ≠ 0 := fun hc => h0 (UInt16.toNat_inj.mp hc)
    have h1' : v.toNat ≠ 1 := fun hc => h (UInt16.toNat_inj.mp hc)
    change 1 < v.toNat
    omega

end SkegHull
