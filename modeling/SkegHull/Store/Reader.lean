import SkegHull.Faults
import SkegHull.Lib.System
import SkegHull.Overwrite

/-!
# Reading a Value from a Path

The functions that read by path, as state machines that make one system call at a time.
All of them open the file first. `read_from_path` then reads to the end of it, through calls
of `read` that may return any number of bytes, be interrupted, or fail. The three mmap
readers of the cache map the file, whose length counts at that moment, may give the kernel
some advice, whose fate does not matter, and copy the mapped bytes. A copy is no single
step either, so the bytes are taken in pieces, each as it is in the file when it is looked
at.

What a file contains is asked for at every step, so that the machine can run while others
write. If nobody does, the machine does what the loop over a `Stream` does
(`reads_of_readToEnd`). What the reader makes of the bytes does not depend on how it got
them (`PathReader.finish`).

Only a name that leads nowhere is not found: another failure has another kind.

## Main definitions

* `Advice`, `ReadMode`: How a file is read once it is open.
* `Reading`, `Reading.next`: Where a reader stands, and its next system call.
* `PathReader`, `PathReader.finish`: The functions, and what they make of the bytes.
* `Saga.readFromPath`, `KvCache.readFromPath`, `KvCache.readFromPathMmap`,
  `KvCache.readFromPathMmapSequential`, `KvCache.readFromPathMmapWillneed`: The functions
  of the source.

## Theorems

* `reads_of_readToEnd`: On a file that nobody writes to, the machine reads what the loop
  over a stream reads.
* `finish_written`: What the functions make of the bytes of a value that round trips.
-/

namespace SkegHull

open Lib

/-- What `madvise` is told about a mapping. -/
inductive Advice where
  | sequential
  | willNeed
  deriving DecidableEq

/-- How a file is read once it is open. -/
inductive ReadMode where
  | plain
  | mapped (advice : Option Advice)
  deriving DecidableEq

/-- Where a reader stands. -/
inductive Reading where
  | start
  | map (file : Nat)
  | advise (file len : Nat) (advice : Advice)
  | read (file : Nat) (got : Bytes)
  | load (file len : Nat) (got : Bytes)
  | done (result : Except IoError Bytes)
  deriving DecidableEq

/-- What a reader does with an open file. -/
def ReadMode.opened (file : Nat) : ReadMode → Reading
  | .plain => .read file []
  | .mapped _ => .map file

/-- What it does with a mapping of this length. -/
def ReadMode.loaded (file len : Nat) : ReadMode → Reading
  | .mapped (some advice) => .advise file len advice
  | _ => .load file len []

namespace Reading

variable {δ : Type}

/-- The bytes that one call takes behind those that were read: some, if any are left. -/
def piece (content got : Bytes) (most : Nat) : Bytes := (content.drop got.length).take (max 1 most)

/-- A system call on a file that is there has failed. -/
def fails (e : IoError) : Option Reading :=
  if e.kind = .notFound then none else some (.done (.error e))

/-- Opening the file. -/
def openFile (mode : ReadMode) (found : Option Nat) : ReadEvent → Option Reading
  | .short _ =>
      match found with
      | none => some (.done (.error notFound))
      | some file => some (mode.opened file)
  | .fail e =>
      match found with
      | none => some (.done (.error e))
      | some _ => fails e

/-- One call of `read`, with a buffer of any size. -/
def readPiece (content : Bytes) (file : Nat) (got : Bytes) : ReadEvent → Option Reading
  | .short most =>
      match piece content got most with
      | [] => some (.done (.ok got))
      | b :: bs => some (.read file (got ++ b :: bs))
  | .fail e => if e.kind = .interrupted then some (.read file got) else fails e

/-- One piece of a mapping. A file that has become shorter than its mapping would be the
    end of the process. -/
def loadPiece (content : Bytes) (file len : Nat) (got : Bytes) : ReadEvent → Option Reading
  | .short most =>
      if content.length < len then none
      else if len ≤ got.length then some (.done (.ok got))
      else some (.load file len (got ++ (piece content got most).take (len - got.length)))
  | .fail _ => none

/-- The next system call of a reader. -/
def next (tree : DirTree δ) (s : Storage δ Bytes) (path : Bytes) (mode : ReadMode) :
    Reading → ReadEvent → Option Reading
  | .start, ev => openFile mode ((tree.resolveFile path).bind s.lookup) ev
  | .map file, .short _ => some (mode.loaded file (s.content file).length)
  | .map _, .fail e => fails e
  -- Advice is best effort.
  | .advise file len _, _ => some (.load file len [])
  | .read file got, ev => readPiece (s.content file) file got ev
  | .load file len got, ev => loadPiece (s.content file) file len got ev
  | .done _, _ => none

/-- A reader that nobody disturbs. -/
def run (tree : DirTree δ) (s : Storage δ Bytes) (path : Bytes) (mode : ReadMode) (q : Reading)
    (events : List ReadEvent) : Option Reading :=
  events.foldlM (next tree s path mode) q

theorem fails_eq_some_iff (e : IoError) (q : Reading) :
    fails e = some q ↔ e.kind ≠ .notFound ∧ q = .done (.error e) := by
  unfold fails
  by_cases h : e.kind = .notFound
  · rw [if_pos h]
    exact ⟨fun hq => absurd hq (Option.some_ne_none q).symm, fun hq => absurd h hq.1⟩
  · rw [if_neg h, Option.some.injEq]
    exact ⟨fun hq => ⟨h, hq.symm⟩, fun hq => hq.2.symm⟩

/-- Nothing is taken only when nothing is left. -/
theorem piece_eq_nil_iff (content got : Bytes) (most : Nat) :
    piece content got most = [] ↔ content.length ≤ got.length := by
  rw [piece, List.take_eq_nil_iff, List.drop_eq_nil_iff]
  constructor
  · rintro (h | h)
    · omega
    · exact h
  · exact Or.inr

/-- What has been read goes on being the first part of the content. -/
theorem append_piece (content got : Bytes) (most n : Nat) (h : got <+: content) :
    got ++ (piece content got most).take n <+: content := by
  rcases h with ⟨rest, rfl⟩
  rw [piece, List.drop_left, List.take_take, List.prefix_append_right_inj]
  exact List.take_prefix _ _

theorem run_cons (tree : DirTree δ) (s : Storage δ Bytes) (path : Bytes) (mode : ReadMode)
    (q q' : Reading) (ev : ReadEvent) (events : List ReadEvent)
    (h : q.next tree s path mode ev = some q') :
    q.run tree s path mode (ev :: events) = q'.run tree s path mode events := by
  rw [run, List.foldlM_cons, h]
  rfl

theorem piece_eq_take (r : Stream) (got : Bytes) (hgot : got.length = r.pos) (k : Nat)
    (hk : 0 < k) : piece r.bytes got k = r.rest.take k := by
  rw [piece, hgot, Nat.max_eq_right hk, Stream.rest]

/-- A call of `read` on a stream that returned bytes is one system call of the machine. -/
theorem next_of_read (tree : DirTree δ) (s : Storage δ Bytes) (path : Bytes) (mode : ReadMode)
    (file : Nat) (r r' : Stream) (got : Bytes) (hbytes : s.content file = r.bytes)
    (hgot : got.length = r.pos) (x : UInt8) (taken : Bytes)
    (h : r.read Stream.chunk = (.ok (x :: taken), r')) :
    ∃ k, (Reading.read file got).next tree s path mode (.short k)
        = some (.read file (got ++ x :: taken)) ∧
      s.content file = r'.bytes ∧ (got ++ x :: taken).length = r'.pos ∧
      ∀ e, r'.Fails e → r.Fails e := by
  rcases r.read_ok r' Stream.chunk _ h with ⟨k, es, hk, _, htaken, rfl, hsuf⟩
  refine ⟨k, ?_, hbytes, ?_, fun e he => he.of_suffix hsuf⟩
  · rw [next, hbytes, readPiece, piece_eq_take r got hgot k (hk (by decide)), ← htaken]
  · rw [List.length_append, hgot]
    rfl

/-- On a file that nobody writes to, the machine reads what the loop over a stream of the same
    bytes reads. -/
theorem reads_of_readToEnd (tree : DirTree δ) (s : Storage δ Bytes) (path : Bytes)
    (mode : ReadMode) (file : Nat) (r : Stream) (got : Bytes) (hbytes : s.content file = r.bytes)
    (hgot : got.length = r.pos) (hkinds : ∀ e, r.Fails e → e.kind ≠ .notFound) :
    ∃ events, (Reading.read file got).run tree s path mode events
      = some (.done (r.readToEnd.1.map fun more => got ++ more)) := by
  fun_induction Stream.readToEnd r generalizing got with
  | case1 r r' h =>
      rcases r.read_ok r' Stream.chunk _ h with ⟨k, es, hk, _, hnil, _, _⟩
      have hstep : (Reading.read file got).next tree s path mode (.short k)
          = some (.done (.ok got)) := by
        rw [next, hbytes, readPiece, piece_eq_take r got hgot k (hk (by decide)), ← hnil]
      refine ⟨[.short k], (run_cons tree s path mode _ _ _ [] hstep).trans ?_⟩
      rw [Except.map, List.append_nil]
      rfl
  | case2 r x taken r' h more r'' hrec ih =>
      rcases next_of_read tree s path mode file r r' got hbytes hgot x taken h with
        ⟨k, hstep, hbytes', hgot', hfails⟩
      rcases ih (got ++ x :: taken) hbytes' hgot' fun e he => hkinds e (hfails e he) with
        ⟨events, hrun⟩
      refine ⟨.short k :: events, (run_cons tree s path mode _ _ _ events hstep).trans ?_⟩
      rw [hrun, hrec, Except.map, Except.map, List.append_assoc]
  | case3 r x taken r' h e r'' hrec ih =>
      rcases next_of_read tree s path mode file r r' got hbytes hgot x taken h with
        ⟨k, hstep, hbytes', hgot', hfails⟩
      rcases ih (got ++ x :: taken) hbytes' hgot' fun e he => hkinds e (hfails e he) with
        ⟨events, hrun⟩
      refine ⟨.short k :: events, (run_cons tree s path mode _ _ _ events hstep).trans ?_⟩
      rw [hrun, hrec, Except.map, Except.map]
  -- An interruption is followed by another call.
  | case4 r e r' h hkind ih =>
      rcases r.read_error r' Stream.chunk e h with ⟨es, hev, rfl⟩
      have hstep : (Reading.read file got).next tree s path mode (.fail e)
          = some (.read file got) := by
        rw [next, readPiece, if_pos hkind]
      rcases ih got hbytes hgot fun e' he => hkinds e' (he.of_suffix (by
        rw [hev]
        exact List.suffix_cons _ _)) with ⟨events, hrun⟩
      exact ⟨.fail e :: events, (run_cons tree s path mode _ _ _ events hstep).trans hrun⟩
  | case5 r e r' h hkind =>
      rcases r.read_error r' Stream.chunk e h with ⟨es, hev, _⟩
      have hfails : r.Fails e := ⟨by rw [hev]; exact List.mem_cons_self, hkind⟩
      have hstep : (Reading.read file got).next tree s path mode (.fail e)
          = some (.done (.error e)) := by
        rw [next, readPiece, if_neg hkind]
        exact (fails_eq_some_iff e _).mpr ⟨hkinds e hfails, rfl⟩
      exact ⟨[.fail e], run_cons tree s path mode _ _ _ [] hstep⟩

end Reading

/-! ### The functions -/

/-- The functions that read a value by its path. -/
inductive PathReader where
  | saga
  | kvCache (mode : ReadMode)
  deriving DecidableEq

/-- `read_mmap_impl`. -/
def readMmapImpl (advice : Option Advice) : PathReader := .kvCache (.mapped advice)

def Saga.readFromPath : PathReader := .saga

def KvCache.readFromPath : PathReader := .kvCache .plain

def KvCache.readFromPathMmap : PathReader := readMmapImpl none

def KvCache.readFromPathMmapSequential : PathReader := readMmapImpl (some .sequential)

def KvCache.readFromPathMmapWillneed : PathReader := readMmapImpl (some .willNeed)

/-- The format of a value's file. -/
def HullValue.version : HullValue → FormatVersion
  | .saga _ => sagaV1
  | .kvCache _ => kvCacheV1

namespace PathReader

/-- How the function reads the file. -/
def mode : PathReader → ReadMode
  | .saga => .plain
  | .kvCache mode => mode

/-- The format it expects. -/
def version : PathReader → FormatVersion
  | .saga => sagaV1
  | .kvCache _ => kvCacheV1

/-- `read_from` of the type it reads. -/
def readFrom (crate : Crc32cCrate) (build : Build) (reader : Stream) :
    PathReader → Outcome Error HullValue
  | .saga => do
      let s ← readSaga crate build reader
      .ok (.saga s)
  | .kvCache _ => do
      let c ← readKvCache crate build reader
      .ok (.kvCache c)

/-- What it returns, when it has got the bytes or has failed to get them. -/
def finish (crate : Crc32cCrate) (build : Build) (reader : PathReader) :
    Except IoError Bytes → Outcome Error HullValue
  | .ok bytes => reader.readFrom crate build (Stream.ofBytes bytes)
  | .error e => .err (.io e)

variable (crate : Crc32cCrate) (build : Build) (reader : PathReader) (v : HullValue)

theorem readKvCache_of_readSaga (r : Stream) (s : Saga) (h : readSaga crate build r = .ok s) :
    readKvCache crate build r = .err (.formatMismatch sagaV1 kvCacheV1) := by
  unfold readSaga at h
  rcases (Outcome.bind_eq_ok_iff _ _ _).mp h with ⟨all, hslurp, h⟩
  rcases (Outcome.bind_eq_ok_iff _ _ _).mp h with ⟨header, hopen, _⟩
  unfold readKvCache
  rw [hslurp, Outcome.ok_bind, openBody_foreign crate build sagaV1 kvCacheV1 all header hopen
    (by decide), Outcome.err_bind]
  rfl

theorem readSaga_of_readKvCache (r : Stream) (c : KvCache)
    (h : readKvCache crate build r = .ok c) :
    readSaga crate build r = .err (.formatMismatch kvCacheV1 sagaV1) := by
  unfold readKvCache at h
  rcases (Outcome.bind_eq_ok_iff _ _ _).mp h with ⟨all, hslurp, h⟩
  rcases (Outcome.bind_eq_ok_iff _ _ _).mp h with ⟨header, hopen, _⟩
  unfold readSaga
  rw [hslurp, Outcome.ok_bind, openBody_foreign crate build kvCacheV1 sagaV1 all header hopen
    (by decide), Outcome.err_bind]
  rfl

/-- The bytes of a value that round trips are read back by the functions of its format, and
    refused for their format by the others. -/
theorem finish_written (hv : v.RoundTrips crate build) :
    reader.finish crate build (.ok (v.written crate build)) =
      if v.version = reader.version then .ok v
      else .err (.formatMismatch v.version reader.version) := by
  have hbenign := v.writeTo_benign crate build _ (Stream.benign_ofBytes [])
  have hread := hv.read
  have hne : sagaV1 ≠ kvCacheV1 := by decide
  cases v with
  | saga s =>
      rw [HullValue.readFrom_saga_iff, readSaga_slurp, slurp_benign _ hbenign] at hread
      have hsaga : readSaga crate build (Stream.ofBytes ((HullValue.saga s).written crate build))
          = .ok s := hread
      cases reader with
      | saga =>
          rw [finish, readFrom, hsaga, HullValue.version, version, if_pos rfl]
          rfl
      | kvCache mode =>
          rw [finish, readFrom, readKvCache_of_readSaga crate build _ s hsaga, HullValue.version,
            version, if_neg hne]
          rfl
  | kvCache c =>
      rw [HullValue.readFrom_kvCache_iff, readKvCache_slurp, slurp_benign _ hbenign] at hread
      have hcache : readKvCache crate build
          (Stream.ofBytes ((HullValue.kvCache c).written crate build)) = .ok c := hread
      cases reader with
      | saga =>
          rw [finish, readFrom, readSaga_of_readKvCache crate build _ c hcache, HullValue.version,
            version, if_neg hne.symm]
          rfl
      | kvCache mode =>
          rw [finish, readFrom, hcache, HullValue.version, version, if_pos rfl]
          rfl

end PathReader

end SkegHull
