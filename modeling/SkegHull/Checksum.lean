import SkegHull.Lib.Bytes

/-!
# CRC32C

The checksum the format uses comes from another crate, so it is a parameter:
`Crc32cCrate` is what that crate exports, and `Crc32cCrate.Lawful` is the one
thing the streaming code relies on, that feeding a checksum more bytes gives the
checksum of the longer string. Most of the development never asks for it. Any
function would do for the two levels of checks, as long as reader and writer
call the same one.

`castagnoli` is the standard CRC-32C, bit by bit, with the reflected polynomial
and both complements. It inhabits the parameter, and it is the function the
crate computes.

## Main definitions

* `Crc32cCrate`: The two functions the crate exports.
* `Crc32cCrate.Lawful`: Checksums extend.
* `Crc32cBuilder`: The streaming builder.
* `castagnoli`: CRC-32C itself.

## Theorems

* `Crc32cBuilder.fed_update`: Streaming a string in pieces computes the checksum
  of the whole.
* `castagnoli_lawful`: CRC-32C is lawful.
-/

namespace SkegHull

open Lib

/-- What the checksum crate exports. -/
structure Crc32cCrate where
  crc32c : Bytes → UInt32
  crc32cAppend : UInt32 → Bytes → UInt32

/-- A checksum can be extended by more bytes, and starts at zero. -/
structure Crc32cCrate.Lawful (crate : Crc32cCrate) : Prop where
  empty : crate.crc32c [] = 0
  append : ∀ a b, crate.crc32cAppend (crate.crc32c a) b = crate.crc32c (a ++ b)

/-- Streaming builder. -/
structure Crc32cBuilder where
  state : UInt32
  deriving DecidableEq, Repr

namespace Crc32cBuilder

variable (crate : Crc32cCrate)

/-- A fresh builder. -/
def new : Crc32cBuilder := ⟨0⟩

/-- Feed bytes into the builder. -/
def update (b : Crc32cBuilder) (buf : Bytes) : Crc32cBuilder :=
  ⟨crate.crc32cAppend b.state buf⟩

/-- The checksum of what was fed. -/
def finalize (b : Crc32cBuilder) : UInt32 := b.state

/-- The builder has been fed exactly these bytes. -/
def Fed (b : Crc32cBuilder) (bytes : Bytes) : Prop := b.state = crate.crc32c bytes

theorem fed_new (hl : crate.Lawful) : new.Fed crate [] := hl.empty.symm

theorem fed_update (hl : crate.Lawful) (b : Crc32cBuilder) (bytes buf : Bytes)
    (h : b.Fed crate bytes) : (b.update crate buf).Fed crate (bytes ++ buf) := by
  unfold Fed update at *
  -- The state is the checksum of what came before, and checksums extend.
  rw [h]
  exact hl.append bytes buf

end Crc32cBuilder

/-! ### CRC-32C -/

/-- One bit of the reflected shift register. -/
def castagnoliBit (crc : UInt32) : UInt32 :=
  if crc &&& 1 = 1 then (crc >>> 1) ^^^ 0x82F63B78 else crc >>> 1

/-- One byte: eight bits after the byte has been added. -/
def castagnoliByte (crc : UInt32) (b : UInt8) : UInt32 :=
  (List.range 8).foldl (fun c _ => castagnoliBit c) (crc ^^^ b.toUInt32)

/-- CRC-32C, as the crate computes it. -/
def castagnoli : Crc32cCrate where
  crc32c data := ~~~ data.foldl castagnoliByte (~~~ 0)
  crc32cAppend crc data := ~~~ data.foldl castagnoliByte (~~~ crc)

theorem castagnoli_lawful : castagnoli.Lawful where
  empty := rfl
  append a b := by
    -- The complement at the end of one part undoes the one at the start of the next.
    simp only [castagnoli, UInt32.not_not, List.foldl_append]

/-- The check value of the standard. -/
example : castagnoli.crc32c [0x31, 0x32, 0x33, 0x34, 0x35, 0x36, 0x37, 0x38, 0x39]
    = 0xE3069283 := by
  decide +kernel

end SkegHull
