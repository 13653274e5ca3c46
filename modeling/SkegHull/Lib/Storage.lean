import Mathlib.Logic.Function.Basic
import SkegHull.Lib.Bytes

/-!
# Crash-Prone Storage

Directories of names and the files behind them, with the part of both that a
crash leaves alone.

A directory has the entries that are safely stored and the changes that are not
yet: what a program sees is the second applied to the first. A crash keeps any
of the changes, in any order, and loses the others. A file has its content and,
once it was synchronised and as long as nothing wrote to it since, a stable
copy: without one a crash leaves anything behind. A rename is one change, so no
crash shows half of one.

`Dir.Only` is the rule the crash proofs use. It says of one name that the stored
entry and every change that is under way give it values of one kind, so whatever
subset a crash keeps, the value is of that kind.

A directory entry never dangles: `Storage` carries that as a field, and a new
file is numbered past every file the directories mention.

## Main definitions

* `DirOp`, `Dir`: Directory changes, and a directory with its pending ones.
* `Storage`: Directories and files.
* `Storage.create`, `Storage.write`, `Storage.unlink`, `Storage.move`,
  `Storage.syncFile`, `Storage.syncDir`: What a program does to it.
* `Dir.Recovers`, `Storage.Recovers`: What a crash can leave behind.
* `Storage.lose`: The crash that keeps nothing it need not keep.
* `Dir.Only`, `Storage.Only`: One name's values are all of one kind.

## Theorems

* `lookup_create_self`, `lookup_unlink_self`, `lookup_move_dst`: What an
  operation does to its own names, and the rest on the names it leaves alone.
* `Only.create`, `Only.unlink`, `Only.move`, `Only.syncDir`: Operations that keep
  the kind of a name's values.
* `only_syncDir`: Synchronising a directory leaves a name only its value.
* `Only.lookup_of_recovers`: A crash keeps it.
-/

namespace Lib

/-- A change to the entries of a directory. -/
inductive DirOp (ν : Type) where
  | link (name : ν) (file : Nat)
  | unlink (name : ν)
  | rename (src dst : ν) (file : Nat)
  deriving DecidableEq

/-- A directory: the stored entries and the changes that are not stored yet,
    oldest first. -/
structure Dir (ν : Type) where
  durable : ν → Option Nat
  pending : List (DirOp ν)

/-- A file: its content, and what a crash leaves of it. -/
structure FileData where
  content : Bytes
  stable : Option Bytes
  deriving DecidableEq

variable {δ ν : Type} [DecidableEq δ] [DecidableEq ν]

/-- What a change makes of the entries. -/
def DirOp.apply : DirOp ν → (ν → Option Nat) → ν → Option Nat
  | .link name file, e => Function.update e name (some file)
  | .unlink name, e => Function.update e name none
  | .rename src dst file, e => Function.update (Function.update e src none) dst (some file)

/-- What a change makes of one name, if it is about that name. -/
def DirOp.effect (name : ν) : DirOp ν → Option (Option Nat)
  | .link n file => if name = n then some (some file) else none
  | .unlink n => if name = n then some none else none
  | .rename src dst file =>
      if name = dst then some (some file) else if name = src then some none else none

/-- The file that a change mentions. -/
def DirOp.file : DirOp ν → Option Nat
  | .link _ file => some file
  | .unlink _ => none
  | .rename _ _ file => some file

theorem DirOp.apply_eq (o : DirOp ν) (e : ν → Option Nat) (name : ν) :
    o.apply e name = (o.effect name).getD (e name) := by
  cases o with
  | link n file =>
      by_cases h : name = n
      · simp only [apply, effect, h, Function.update_self, if_true, Option.getD_some]
      · simp only [apply, effect, h, Function.update_of_ne h, if_false, Option.getD_none]
  | unlink n =>
      by_cases h : name = n
      · simp only [apply, effect, h, Function.update_self, if_true, Option.getD_some]
      · simp only [apply, effect, h, Function.update_of_ne h, if_false, Option.getD_none]
  | rename src dst file =>
      by_cases h : name = dst
      · simp only [apply, effect, h, Function.update_self, if_true, Option.getD_some]
      -- The target is set last, so the source matters for the other names only.
      · by_cases hs : name = src
        · simp only [apply, effect, hs ▸ h, hs, Function.update_of_ne (hs ▸ h),
            Function.update_self, if_true, if_false, Option.getD_some]
        · simp only [apply, effect, h, hs, Function.update_of_ne h, Function.update_of_ne hs,
            if_false, Option.getD_none]

theorem DirOp.file_of_effect (o : DirOp ν) (name : ν) (file : Nat)
    (h : o.effect name = some (some file)) : o.file = some file := by
  cases o with
  | link n i =>
      by_cases hn : name = n
      · simp only [effect, if_pos hn, Option.some.injEq] at h
        rw [DirOp.file, h]
      · simp only [effect, if_neg hn, reduceCtorEq] at h
  | unlink n =>
      by_cases hn : name = n
      · simp only [effect, if_pos hn, Option.some.injEq, reduceCtorEq] at h
      · simp only [effect, if_neg hn, reduceCtorEq] at h
  | rename src dst i =>
      by_cases hd : name = dst
      · simp only [effect, if_pos hd, Option.some.injEq] at h
        rw [DirOp.file, h]
      · by_cases hs : name = src
        · simp only [effect, if_neg hd, if_pos hs, Option.some.injEq, reduceCtorEq] at h
        · simp only [effect, if_neg hd, if_neg hs, reduceCtorEq] at h

namespace Dir

/-- The entries a program sees. -/
def entry (d : Dir ν) : ν → Option Nat := d.pending.foldl (fun e o => o.apply e) d.durable

/-- A change to the entries. -/
def record (d : Dir ν) (o : DirOp ν) : Dir ν := { d with pending := d.pending ++ [o] }

/-- All changes are stored. -/
def sync (d : Dir ν) : Dir ν := ⟨d.entry, []⟩

/-- The entries a crash can leave: some of the changes, in any order. -/
def Recovers (d : Dir ν) (e : ν → Option Nat) : Prop :=
  ∃ ops : List (DirOp ν), (∀ o ∈ ops, o ∈ d.pending) ∧
    e = ops.foldl (fun e o => o.apply e) d.durable

/-- The stored entry of a name and every change to it satisfy `P`. -/
def Only (d : Dir ν) (name : ν) (P : Option Nat → Prop) : Prop :=
  P (d.durable name) ∧ ∀ o ∈ d.pending, ∀ x, o.effect name = some x → P x

/-- Every file the directory mentions is numbered below `n`. -/
def Below (d : Dir ν) (n : Nat) : Prop :=
  ∀ name, d.Only name fun x => ∀ file, x = some file → file < n

theorem entry_record (d : Dir ν) (o : DirOp ν) (name : ν) :
    (d.record o).entry name = (o.effect name).getD (d.entry name) := by
  rw [entry, record, List.foldl_append, List.foldl_cons, List.foldl_nil, o.apply_eq]
  rfl

@[simp] theorem entry_sync (d : Dir ν) : d.sync.entry = d.entry := rfl

theorem only_foldl {P : Option Nat → Prop} (name : ν) (ops : List (DirOp ν))
    (e : ν → Option Nat) (he : P (e name))
    (hops : ∀ o ∈ ops, ∀ x, o.effect name = some x → P x) :
    P (ops.foldl (fun e o => o.apply e) e name) := by
  induction ops generalizing e with
  | nil => exact he
  | cons o ops ih =>
      refine ih (o.apply e) ?_ fun o' ho' => hops o' (List.mem_cons_of_mem o ho')
      -- The change sets the name to a value of the kind, or leaves it.
      rw [o.apply_eq]
      cases hx : o.effect name with
      | none => exact he
      | some x => exact hops o List.mem_cons_self x hx

theorem Only.recovers {d : Dir ν} {name : ν} {P : Option Nat → Prop} (h : d.Only name P)
    (e : ν → Option Nat) (he : d.Recovers e) : P (e name) := by
  rcases he with ⟨ops, hmem, rfl⟩
  -- What a crash keeps is a subset of the changes, and the kind holds of all.
  exact only_foldl name ops d.durable h.1 fun o ho => h.2 o (hmem o ho)

theorem Only.entry {d : Dir ν} {name : ν} {P : Option Nat → Prop} (h : d.Only name P) :
    P (d.entry name) := only_foldl name d.pending d.durable h.1 h.2

theorem Only.record {d : Dir ν} {name : ν} {P : Option Nat → Prop} (h : d.Only name P)
    (o : DirOp ν) (ho : ∀ x, o.effect name = some x → P x) : (d.record o).Only name P := by
  refine ⟨h.1, fun o' ho' => ?_⟩
  -- The change is an old one or the one that was recorded.
  rcases List.mem_append.mp ho' with ho' | ho'
  · exact h.2 o' ho'
  · rw [List.mem_singleton.mp ho']
    exact ho

theorem Only.sync {d : Dir ν} {name : ν} {P : Option Nat → Prop} (h : d.Only name P) :
    d.sync.Only name P :=
  ⟨h.entry, fun _ ho => absurd ho List.not_mem_nil⟩

theorem Only.mono {d : Dir ν} {name : ν} {P Q : Option Nat → Prop} (h : d.Only name P)
    (hPQ : ∀ x, P x → Q x) : d.Only name Q :=
  ⟨hPQ _ h.1, fun o ho x hx => hPQ x (h.2 o ho x hx)⟩

theorem Below.mono {d : Dir ν} {m n : Nat} (h : d.Below m) (hmn : m ≤ n) : d.Below n :=
  fun name => (h name).mono fun _ hx file hf => Nat.lt_of_lt_of_le (hx file hf) hmn

theorem Below.record {d : Dir ν} {n : Nat} (h : d.Below n) (o : DirOp ν)
    (ho : ∀ file, o.file = some file → file < n) : (d.record o).Below n :=
  fun name => (h name).record o fun _ hx file hf =>
    ho file (o.file_of_effect name file (hf ▸ hx))

theorem Below.sync {d : Dir ν} {n : Nat} (h : d.Below n) : d.sync.Below n :=
  fun name => (h name).sync

end Dir

/-- Directories of names, and the files behind them. -/
structure Storage (δ ν : Type) [DecidableEq ν] where
  dirs : δ → Dir ν
  files : Nat → FileData
  fresh : Nat
  valid : ∀ d, (dirs d).Below fresh

namespace Storage

variable (s : Storage δ ν)

/-- The file behind a name. -/
def lookup (k : δ × ν) : Option Nat := (s.dirs k.1).entry k.2

/-- The content of a file. -/
def content (file : Nat) : Bytes := (s.files file).content

/-- The content behind a name. -/
def read (k : δ × ν) : Option Bytes := (s.lookup k).map s.content

/-- The stored entry of a name and every change to it satisfy `P`. -/
def Only (k : δ × ν) (P : Option Nat → Prop) : Prop := (s.dirs k.1).Only k.2 P

/-- One directory changes. -/
def change (d : δ) (o : DirOp ν) (ho : ∀ file, o.file = some file → file < s.fresh) :
    Storage δ ν where
  dirs := Function.update s.dirs d ((s.dirs d).record o)
  files := s.files
  fresh := s.fresh
  valid := by
    intro d'
    by_cases h : d' = d
    · rw [h, Function.update_self]
      exact (s.valid d).record o ho
    · rw [Function.update_of_ne h]
      exact s.valid d'

/-- A new, empty file, which no name leads to yet. -/
def alloc : Storage δ ν where
  dirs := s.dirs
  files := Function.update s.files s.fresh ⟨[], none⟩
  fresh := s.fresh + 1
  valid := fun d => (s.valid d).mono (Nat.le_succ _)

/-- A new, empty file under a name. -/
def create (k : δ × ν) : Storage δ ν :=
  s.alloc.change k.1 (.link k.2 s.fresh) fun _ h => Option.some.inj h ▸ Nat.lt_succ_self _

/-- Bytes written at a position of a file. -/
def write (file pos : Nat) (bytes : Bytes) : Storage δ ν :=
  -- A write takes the stable copy away: a crash can leave anything behind.
  { s with files := Function.update s.files file ⟨writeAt (s.content file) pos bytes, none⟩ }

/-- A file's content becomes stable. -/
def syncFile (file : Nat) : Storage δ ν :=
  { s with files := Function.update s.files file ⟨s.content file, some (s.content file)⟩ }

/-- A directory's changes become stored. -/
def syncDir (d : δ) : Storage δ ν where
  dirs := Function.update s.dirs d (s.dirs d).sync
  files := s.files
  fresh := s.fresh
  valid := by
    intro d'
    by_cases h : d' = d
    · rw [h, Function.update_self]
      exact (s.valid d).sync
    · rw [Function.update_of_ne h]
      exact s.valid d'

/-- A name goes away. -/
def unlink (k : δ × ν) : Storage δ ν :=
  s.change k.1 (.unlink k.2) fun file h => (Option.some_ne_none file h.symm).elim

/-- A file moves to another name, in place of what was there. Within a directory
    that is one change, and otherwise one in each. -/
def move (src dst : δ × ν) (file : Nat) (hfile : file < s.fresh) : Storage δ ν :=
  -- Two directories do not change together, so a crash may keep one half.
  if src.1 = dst.1 then
    s.change src.1 (.rename src.2 dst.2 file) fun _ h => Option.some.inj h ▸ hfile
  else
    (s.unlink src).change dst.1 (.link dst.2 file) fun _ h => Option.some.inj h ▸ hfile

/-- A file that a name leads to moves to another name. -/
def rename (src dst : δ × ν) : Option (Storage δ ν) :=
  match h : s.lookup src with
  | none => none
  | some file => some (s.move src dst file ((s.valid src.1 src.2).entry file h))

/-- What a crash can leave: entries from each directory, and every stable copy. -/
structure Recovers (r : Storage δ ν) : Prop where
  dirs : ∀ d, (s.dirs d).Recovers (r.dirs d).entry
  files : ∀ file b, (s.files file).stable = some b → r.content file = b

/-- The crash that loses every change that was not stored. -/
def lose : Storage δ ν where
  dirs := fun d => ⟨(s.dirs d).durable, []⟩
  files := fun file => ⟨(s.files file).stable.getD [], (s.files file).stable⟩
  fresh := s.fresh
  valid := fun d name => ⟨(s.valid d name).1, fun _ ho => absurd ho List.not_mem_nil⟩

omit [DecidableEq δ] in
theorem recovers_lose : s.Recovers s.lose where
  dirs := fun _ => ⟨[], fun _ ho => absurd ho List.not_mem_nil, rfl⟩
  files := fun file b h => by
    have hcontent : s.lose.content file = (s.files file).stable.getD [] := rfl
    rw [hcontent, h, Option.getD_some]

/-! ### Names -/

@[simp] theorem dirs_change (d : δ) (o : DirOp ν)
    (ho : ∀ file, o.file = some file → file < s.fresh) :
    (s.change d o ho).dirs = Function.update s.dirs d ((s.dirs d).record o) := rfl

@[simp] theorem dirs_syncDir (d : δ) :
    (s.syncDir d).dirs = Function.update s.dirs d (s.dirs d).sync := rfl

theorem files_move (src dst : δ × ν) (file : Nat) (hfile : file < s.fresh) :
    (s.move src dst file hfile).files = s.files := by
  rw [move]
  split <;> rfl

theorem fresh_move (src dst : δ × ν) (file : Nat) (hfile : file < s.fresh) :
    (s.move src dst file hfile).fresh = s.fresh := by
  rw [move]
  split <;> rfl

omit [DecidableEq δ] in
theorem lookup_lt (k : δ × ν) (file : Nat) (h : s.lookup k = some file) : file < s.fresh :=
  (s.valid k.1 k.2).entry file h

theorem lookup_change (d : δ) (o : DirOp ν) (ho : ∀ file, o.file = some file → file < s.fresh)
    (k : δ × ν) : (s.change d o ho).lookup k
      = if k.1 = d then (o.effect k.2).getD (s.lookup k) else s.lookup k := by
  by_cases h : k.1 = d
  · rw [if_pos h, lookup, dirs_change, h, Function.update_self, Dir.entry_record, lookup, h]
  · rw [if_neg h, lookup, dirs_change, Function.update_of_ne h, lookup]

theorem lookup_create_self (k : δ × ν) : (s.create k).lookup k = some s.fresh := by
  rw [create, lookup_change, if_pos rfl, DirOp.effect, if_pos rfl, Option.getD_some]

theorem lookup_create_of_ne (k k' : δ × ν) (h : k' ≠ k) :
    (s.create k).lookup k' = s.lookup k' := by
  rw [create, lookup_change]
  by_cases hd : k'.1 = k.1
  · have hn : k'.2 ≠ k.2 := fun hn => h (Prod.ext hd hn)
    rw [if_pos hd, DirOp.effect, if_neg hn, Option.getD_none]
    rfl
  · rw [if_neg hd]
    rfl

theorem lookup_unlink_self (k : δ × ν) : (s.unlink k).lookup k = none := by
  rw [unlink, lookup_change, if_pos rfl, DirOp.effect, if_pos rfl, Option.getD_some]

theorem lookup_unlink_of_ne (k k' : δ × ν) (h : k' ≠ k) :
    (s.unlink k).lookup k' = s.lookup k' := by
  rw [unlink, lookup_change]
  by_cases hd : k'.1 = k.1
  · have hn : k'.2 ≠ k.2 := fun hn => h (Prod.ext hd hn)
    rw [if_pos hd, DirOp.effect, if_neg hn, Option.getD_none]
  · rw [if_neg hd]

theorem rename_of_lookup_none (src dst : δ × ν) (h : s.lookup src = none) :
    s.rename src dst = none := by
  unfold rename
  split
  · rfl
  · rename_i file hfile
    rw [h] at hfile
    cases hfile

theorem rename_of_lookup (src dst : δ × ν) (file : Nat) (h : s.lookup src = some file) :
    s.rename src dst = some (s.move src dst file (s.lookup_lt src file h)) := by
  unfold rename
  split
  · rename_i hnone
    rw [h] at hnone
    cases hnone
  · rename_i file' hfile
    rw [h, Option.some.injEq] at hfile
    -- Both proofs that the file is known are the same.
    subst hfile
    rfl

theorem lookup_move_dst (src dst : δ × ν) (file : Nat) (hfile : file < s.fresh) :
    (s.move src dst file hfile).lookup dst = some file := by
  rw [move]
  -- Within a directory the rename sets the target, across two the link does.
  by_cases hd : src.1 = dst.1
  · rw [if_pos hd, lookup_change, if_pos hd.symm, DirOp.effect, if_pos rfl, Option.getD_some]
  · rw [if_neg hd, lookup_change, if_pos rfl, DirOp.effect, if_pos rfl, Option.getD_some]

theorem lookup_move_src (src dst : δ × ν) (file : Nat) (hfile : file < s.fresh)
    (h : src ≠ dst) : (s.move src dst file hfile).lookup src = none := by
  rw [move]
  by_cases hd : src.1 = dst.1
  · have hn : src.2 ≠ dst.2 := fun hn => h (Prod.ext hd hn)
    rw [if_pos hd, lookup_change, if_pos rfl, DirOp.effect, if_neg hn, if_pos rfl,
      Option.getD_some]
  · rw [if_neg hd, lookup_change, if_neg hd, lookup_unlink_self]

theorem lookup_move_of_ne (src dst k : δ × ν) (file : Nat) (hfile : file < s.fresh)
    (hs : k ≠ src) (hd : k ≠ dst) : (s.move src dst file hfile).lookup k = s.lookup k := by
  have hns : k.1 = src.1 → k.2 ≠ src.2 := fun h hn => hs (Prod.ext h hn)
  have hnd : k.1 = dst.1 → k.2 ≠ dst.2 := fun h hn => hd (Prod.ext h hn)
  rw [move]
  -- The name differs from both ends, in whichever directory it is.
  by_cases hsd : src.1 = dst.1
  · rw [if_pos hsd, lookup_change]
    by_cases hk : k.1 = src.1
    · rw [if_pos hk, DirOp.effect, if_neg (hnd (hk.trans hsd)), if_neg (hns hk),
        Option.getD_none]
    · rw [if_neg hk]
  · rw [if_neg hsd, lookup_change, s.lookup_unlink_of_ne src k hs]
    by_cases hk : k.1 = dst.1
    · rw [if_pos hk, DirOp.effect, if_neg (hnd hk), Option.getD_none]
    · rw [if_neg hk]

theorem lookup_syncDir (d : δ) (k : δ × ν) : (s.syncDir d).lookup k = s.lookup k := by
  by_cases h : k.1 = d
  · rw [lookup, dirs_syncDir, h, Function.update_self, Dir.entry_sync, lookup, h]
  · rw [lookup, dirs_syncDir, Function.update_of_ne h, lookup]

/-! ### Kinds of values -/

variable {P : Option Nat → Prop} {k : δ × ν} {s}

omit [DecidableEq δ] in
theorem Only.mono {Q : Option Nat → Prop} (h : s.Only k P) (hPQ : ∀ x, P x → Q x) :
    s.Only k Q := Dir.Only.mono h hPQ

omit [DecidableEq δ] in
theorem Only.lookup (h : s.Only k P) : P (s.lookup k) := Dir.Only.entry h

theorem Only.change (h : s.Only k P) (d : δ) (o : DirOp ν)
    (ho : ∀ file, o.file = some file → file < s.fresh)
    (hP : k.1 = d → ∀ x, o.effect k.2 = some x → P x) : (s.change d o ho).Only k P := by
  -- The name is in the directory that changes, or nothing happens to it.
  by_cases hd : k.1 = d
  · rw [Only, dirs_change, hd, Function.update_self]
    exact Dir.Only.record (hd ▸ h) o (hP hd)
  · rw [Only, dirs_change, Function.update_of_ne hd]
    exact h

theorem Only.create (h : s.Only k P) (k' : δ × ν) (hk : k ≠ k') : (s.create k').Only k P := by
  -- Allocating the file changes no entry.
  have halloc : s.alloc.Only k P := h
  refine halloc.change k'.1 (.link k'.2 s.fresh) _ fun hd x hx => ?_
  rw [DirOp.effect, if_neg fun hn => hk (Prod.ext hd hn)] at hx
  cases hx

theorem Only.unlink (h : s.Only k P) (k' : δ × ν) (hk : k ≠ k') : (s.unlink k').Only k P := by
  refine h.change k'.1 (.unlink k'.2) _ fun hd x hx => ?_
  rw [DirOp.effect, if_neg fun hn => hk (Prod.ext hd hn)] at hx
  cases hx

/-- A move onto the name is of the kind if its file is. -/
theorem Only.move (h : s.Only k P) (src dst : δ × ν) (file : Nat) (hfile : file < s.fresh)
    (hsrc : k ≠ src) (hP : k = dst → P (some file)) : (s.move src dst file hfile).Only k P := by
  rw [Storage.move]
  by_cases hsd : src.1 = dst.1
  · rw [if_pos hsd]
    refine h.change src.1 _ _ fun hd x hx => ?_
    rw [DirOp.effect] at hx
    -- The change sets the name only if the name is the target.
    by_cases hn : k.2 = dst.2
    · rw [if_pos hn, Option.some.injEq] at hx
      exact hx ▸ hP (Prod.ext (hd.trans hsd) hn)
    · rw [if_neg hn, if_neg fun hn => hsrc (Prod.ext hd hn)] at hx
      cases hx
  · rw [if_neg hsd]
    refine (h.unlink src hsrc).change dst.1 _ _ fun hd x hx => ?_
    rw [DirOp.effect] at hx
    by_cases hn : k.2 = dst.2
    · rw [if_pos hn, Option.some.injEq] at hx
      exact hx ▸ hP (Prod.ext hd hn)
    · rw [if_neg hn] at hx
      cases hx

theorem Only.syncDir (h : s.Only k P) (d : δ) : (s.syncDir d).Only k P := by
  by_cases hd : k.1 = d
  · rw [Only, dirs_syncDir, hd, Function.update_self]
    exact Dir.Only.sync (hd ▸ h)
  · rw [Only, dirs_syncDir, Function.update_of_ne hd]
    exact h

/-- After a directory was synchronised, its names have nothing but their values. -/
theorem only_syncDir (h : P (s.lookup k)) : (s.syncDir k.1).Only k P := by
  -- The stored entry is what programs see, and no change is under way.
  rw [Only, dirs_syncDir, Function.update_self]
  exact ⟨h, fun _ ho => absurd ho List.not_mem_nil⟩

omit [DecidableEq δ] in
/-- A crash keeps the kind. -/
theorem Only.lookup_of_recovers (h : s.Only k P) {r : Storage δ ν} (hr : s.Recovers r) :
    P (r.lookup k) := h.recovers _ (hr.dirs k.1)

end Storage

end Lib
