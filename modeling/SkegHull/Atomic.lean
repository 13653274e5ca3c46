import SkegHull.Format
import SkegHull.Lib.Decimal
import SkegHull.Lib.System

/-!
# Atomic File Replacement

A file is replaced by writing the new content to a temp file in the same
directory, synchronising that, and renaming it onto the target. The temp file is
named after the target, the process, the clock, and a counter the threads of a
process share.

`atomicWrite` is the program. The content comes from a `Writer`, which performs
writes on the handle it is given, sees how each of them went, and says whether
it succeeded. The closure that does the work is `replace`, whose failures all go
through the cleanup; the directory is synchronised at the end, and how that went
does not matter to the result.

## Main definitions

* `Writer`: What builds the content.
* `tmpName`: The name of the temp file.
* `atomicWrite`: The program.

## Theorems

* `tmpName_inj`: A temp name determines the process, the clock, and the counter.
* `isName_tmpName`, `tmpName_ne`: It names a file, and not its own target.
-/

namespace SkegHull

open Lib

/-- What builds the content: writes on a handle, and a result that depends on how
    they went. -/
inductive Writer where
  | ret (result : Except Error Unit)
  | write (pos : Nat) (bytes : Bytes) (k : Except IoError Nat → Writer)

variable {δ : Type}

/-- The writes on an open file. -/
def Writer.on (file : Nat) : Writer → Program (Reply (δ := δ)) (Except Error Unit)
  | .ret result => .ret result
  | .write pos bytes k => .op (.write file pos bytes) fun r => (k r).on file

/-- What the writer does next, after these replies. -/
def Writer.after : Writer → List (Except IoError Nat) → Option Writer
  | w, [] => some w
  | .ret _, _ :: _ => none
  | .write _ _ k, r :: rs => (k r).after rs

/-- `.tmp.` -/
def tmpInfix : Bytes := [dot, 0x74, 0x6d, 0x70, dot]

/-- The name of a temp file: `<target>.tmp.<pid>.<nanos>.<counter>`. -/
def tmpName (name : Bytes) (pid : UInt32) (nanos counter : UInt64) : Bytes :=
  name ++ tmpInfix ++ decimal pid.toNat ++ [dot] ++ decimal nanos.toNat ++ [dot]
    ++ decimal counter.toNat

/-- The nanoseconds that go into the name, or zero before the epoch. -/
def nanosOf (time : Option Nat) : UInt64 := (time.map UInt64.ofNat).getD 0

def noParent : Error := .io ⟨.invalidInput, "target has no parent directory"⟩

def noFileName : Error := .io ⟨.invalidInput, "target has no file name"⟩

/-- One system call. -/
def sys (o : Op δ) : Program (@Reply δ) (Reply o) := Program.perform o

/-- A program whose I/O error is passed on. -/
def io {α : Type} (p : Program (@Reply δ) (Except IoError α)) :
    ExceptT Error (Program (@Reply δ)) α :=
  ExceptT.mk ((fun r => r.mapError Error.io) <$> p)

/-- Synchronise a directory, if it can be opened, whatever comes of it. -/
def fsyncDir (dir : Bytes) : Program (@Reply δ) Unit := do
  match ← sys (.openDir dir) with
  | .ok handle =>
      let _ ← sys (.syncAll (.dir handle))
  | .error _ => pure ()

/-- Build the temp file, rename it onto the target, and synchronise the
    directory. -/
def replace (dir tmpPath target : Bytes) (f : Writer) :
    ExceptT Error (Program (@Reply δ)) Unit := do
  let tmp ← io (sys (.createNew tmpPath))
  ExceptT.mk (f.on tmp)
  io (sys (.flush tmp))
  io (sys (.syncAll (.file tmp)))
  io (sys (.rename tmpPath target))
  ExceptT.lift (fsyncDir dir)

/-- Replace a file: the content is built in a temp file, which is renamed onto the
    target, or removed when anything fails. -/
def atomicWrite (target : Bytes) (f : Writer) : Program (@Reply δ) (Except Error Unit) :=
  match Path.parent target with
  | none => pure (.error noParent)
  | some dir => do
      let pid ← sys .processId
      let time ← sys .now
      let counter ← sys .fetchAdd
      match Path.fileName target with
      | none => pure (.error noFileName)
      | some name =>
          let tmpPath := Path.join dir (tmpName name pid (nanosOf time) counter)
          match ← (replace dir tmpPath target f).run with
          | .ok () => pure (.ok ())
          | .error e =>
              let _ ← sys (.removeFile tmpPath)
              pure (.error e)

/-- A temp name determines what it was made of. -/
theorem tmpName_inj (name name' : Bytes) (pid pid' : UInt32)
    (nanos nanos' counter counter' : UInt64)
    (h : tmpName name pid nanos counter = tmpName name' pid' nanos' counter') :
    name = name' ∧ pid = pid' ∧ nanos = nanos' ∧ counter = counter' := by
  have hdot : dot.toNat < 48 := by decide
  -- Each number stands behind a dot, which is no digit, so it can be split off.
  have hsplit : ∀ (n : Bytes) (i : UInt32) (t c : UInt64), tmpName n i t c
      = ((n ++ [dot, 0x74, 0x6d, 0x70] ++ dot :: decimal i.toNat) ++ dot :: decimal t.toNat)
        ++ dot :: decimal c.toNat := by
    intro n i t c
    simp only [tmpName, tmpInfix, List.append_assoc, List.cons_append, List.nil_append]
  rw [hsplit, hsplit] at h
  rcases append_decimal_inj _ _ dot _ _ hdot h with ⟨h, hcounter⟩
  rcases append_decimal_inj _ _ dot _ _ hdot h with ⟨h, hnanos⟩
  rcases append_decimal_inj _ _ dot _ _ hdot h with ⟨h, hpid⟩
  exact ⟨List.append_cancel_right h, UInt32.toNat_inj.mp hpid, UInt64.toNat_inj.mp hnanos,
    UInt64.toNat_inj.mp hcounter⟩

theorem length_tmpName (name : Bytes) (pid : UInt32) (nanos counter : UInt64) :
    name.length < (tmpName name pid nanos counter).length := by
  simp only [tmpName, tmpInfix, List.length_append, List.length_cons, List.length_nil]
  omega

/-- A temp name is not its own target. -/
theorem tmpName_ne (name : Bytes) (pid : UInt32) (nanos counter : UInt64) :
    tmpName name pid nanos counter ≠ name := by
  intro h
  have hlen := length_tmpName name pid nanos counter
  rw [h] at hlen
  exact Nat.lt_irrefl _ hlen

/-- A temp name is the name of a file. -/
theorem isName_tmpName (name : Bytes) (pid : UInt32) (nanos counter : UInt64)
    (h : Path.IsName name) : Path.IsName (tmpName name pid nanos counter) := by
  have hlen : 3 ≤ (tmpName name pid nanos counter).length := by
    simp only [tmpName, tmpInfix, List.length_append, List.length_cons, List.length_nil]
    omega
  -- The excluded names have at most two bytes.
  have hshort : ∀ c : Bytes, c.length < 3 → tmpName name pid nanos counter ≠ c := by
    rintro c hc rfl
    omega
  refine ⟨hshort [] (by decide), hshort curDir (by decide), hshort parentDir (by decide), ?_⟩
  -- The target brings no separator along, and nothing that is added is one.
  have hdec : ∀ n, slash ∉ decimal n := fun n => not_mem_decimal n slash (by decide)
  have hinfix : slash ∉ tmpInfix := by decide
  have hdot : slash ∉ [dot] := by decide
  simp only [tmpName, List.mem_append, h.2.2.2, hinfix, hdec, hdot, or_self, not_false_eq_true]

end SkegHull
