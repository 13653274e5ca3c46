import SkegHull.Store.Values

/-!
# Reading a File at Rest

A file that nobody changes, read by its path. Whether it is read with `read` or mapped, with
whatever advice, and in whatever pieces the bytes arrive: the function returns what it makes
of the bytes of the file, or the failure of a system call, and the calls decide which
(`ReadMode.failure`). A function that maps the file passes on a failure to open or to map it.
The plain one passes on a failure to open or to read it, unless that is an interruption. The
advice plays no part: what the system replies to it may be a failure, and is dropped.

All of that can happen with each of the functions, so those that map the file return what the
plain one returns and nothing else.

The plain way is that of the readers on streams. `reads_of_readToEnd` says that the machine
can read what the loop over a stream reads, and `got_at_rest` that nothing else can come of
it.

## Main definitions

* `ReadMode.failure`: The failure that a function passes on when its calls go like this.
* `PathReader.returned`: What it has returned when they have gone like this.
* `PathReader.Returns`: What it can return.

## Theorems

* `run_sees`, `got_at_rest`: What a reader gets of a file at rest.
* `error_iff`: When it fails.
* `exists_run`, `exists_failure`: It can get the bytes, and it can fail.
* `returned_at_rest`: What a function returns, call by call.
* `returned_advised`, `returned_missing`: The advice, and a file that is not there.
* `returns_iff`, `returns_missing_iff`: What a function can return.
* `mapped_agrees`: The functions that map the file agree with the plain one.
-/

namespace SkegHull

open Lib

variable {δ : Type}

/-- The failure that the event is. -/
def failureOf : ReadEvent → Option IoError
  | .short _ => none
  | .fail e => some e

/-- The failure that it is for a loop that retries interruptions. -/
def fatalFailure : ReadEvent → Option IoError
  | .short _ => none
  | .fail e => if e.kind = .interrupted then none else some e

/-- The failure that a function passes on when its system calls go like this: that of opening
    the file, and then of mapping it, or the first of a read that is no interruption. -/
def ReadMode.failure : ReadMode → List ReadEvent → Option IoError
  | _, [] => none
  | .plain, opening :: reads => (failureOf opening).or (reads.findSome? fatalFailure)
  | .mapped _, opening :: calls => (failureOf opening).or (calls.head?.bind failureOf)

namespace Reading

variable {tree : DirTree δ} {s : Storage δ Bytes} {path : Bytes} {mode : ReadMode}
  {k : δ × Bytes} {bytes : Bytes} {q q' : Reading}

theorem run_cons_eq_some_iff (ev : ReadEvent) (events : List ReadEvent) :
    q.run tree s path mode (ev :: events) = some q' ↔
      ∃ u, q.next tree s path mode ev = some u ∧ u.run tree s path mode events = some q' := by
  rw [run, List.foldlM_cons]
  exact Option.bind_eq_some_iff

/-- A reader that is done makes no more system calls. -/
theorem run_done (got : Except IoError Bytes) (events : List ReadEvent)
    (h : (Reading.done got).run tree s path mode events = some q') :
    events = [] ∧ q' = .done got := by
  cases events with
  | nil =>
      cases h
      exact ⟨rfl, rfl⟩
  | cons ev events => cases h

/-- A reader that has opened the file does not learn anything else on the way. -/
theorem run_sees {watch : Option (δ × Bytes)} {v : Option Bytes} (events : List ReadEvent)
    (hsees : q.Sees s watch (some v)) (h : q.run tree s path mode events = some q') :
    q'.Sees s watch (some v) := by
  induction events generalizing q with
  | nil =>
      cases h
      exact hsees
  | cons ev events ih =>
      rcases (run_cons_eq_some_iff ev events).mp h with ⟨u, hstep, hrest⟩
      have hq : q ≠ .start := by
        rintro rfl
        cases hsees
      exact ih (hsees.next hq hstep) hrest

/-- A reader of a file at rest that gets bytes gets those of the file, and is told something
    else than that there is no such file when it gets none. -/
theorem got_at_rest (hk : tree.resolveFile path = some k) (hbytes : s.read k = some bytes)
    (events : List ReadEvent) (got : Except IoError Bytes)
    (h : Reading.start.run tree s path mode events = some (.done got)) :
    got = .ok bytes ∨ ∃ e, e.kind ≠ .notFound ∧ got = .error e := by
  cases events with
  | nil => cases h
  | cons ev events =>
      rcases (run_cons_eq_some_iff ev events).mp h with ⟨u, hstep, hrest⟩
      have hsees : (Reading.done got).Sees s (some k) (some (s.read k)) :=
        run_sees events (sees_open k hk hstep) hrest
      rw [hbytes] at hsees
      cases got with
      | ok got =>
          have heq : some (some bytes) = some (some got) := hsees
          cases heq
          exact Or.inl rfl
      | error e =>
          refine Or.inr ⟨e, fun hkind => ?_, rfl⟩
          have heq : some (some bytes) = some none := hsees hkind k rfl
          cases heq

/-- The failure that ends a run is the one that it returns. -/
theorem failed_iff (failed e : IoError) :
    (.error failed : Except IoError Bytes) = .error e ↔ some failed = some e := by
  rw [Except.error.injEq, Option.some.injEq]

/-- The loop of reads passes on the first failure that is no interruption. -/
theorem error_of_read_iff (file : Nat) (acc : Bytes) (events : List ReadEvent)
    (got : Except IoError Bytes)
    (h : (Reading.read file acc).run tree s path mode events = some (.done got)) (e : IoError) :
    got = .error e ↔ events.findSome? fatalFailure = some e := by
  induction events generalizing acc with
  | nil => cases h
  | cons ev events ih =>
      rcases (run_cons_eq_some_iff ev events).mp h with ⟨u, hstep, hrest⟩
      rw [List.findSome?_cons]
      cases ev with
      | short most =>
          rw [next, readPiece] at hstep
          cases hpiece : piece (s.content file) acc most with
          | nil =>
              rw [hpiece] at hstep
              cases hstep
              rcases run_done _ _ hrest with ⟨rfl, hgot⟩
              cases hgot
              exact ⟨fun he => (by cases he), fun he => (by cases he)⟩
          | cons b bs =>
              rw [hpiece] at hstep
              cases hstep
              exact ih _ hrest
      | fail failed =>
          rw [next, readPiece] at hstep
          by_cases hkind : failed.kind = .interrupted
          · rw [if_pos hkind] at hstep
            cases hstep
            rw [fatalFailure, if_pos hkind]
            exact ih _ hrest
          · rw [if_neg hkind] at hstep
            rcases (fails_eq_some_iff _ _).mp hstep with ⟨_, rfl⟩
            rcases run_done _ _ hrest with ⟨rfl, hgot⟩
            cases hgot
            rw [fatalFailure, if_neg hkind]
            exact failed_iff failed e

/-- Once the file is mapped, nothing fails. -/
theorem ok_of_load (file len : Nat) (acc : Bytes) (events : List ReadEvent)
    (got : Except IoError Bytes)
    (h : (Reading.load file len acc).run tree s path mode events = some (.done got)) :
    ∃ bytes, got = .ok bytes := by
  induction events generalizing acc with
  | nil => cases h
  | cons ev events ih =>
      rcases (run_cons_eq_some_iff ev events).mp h with ⟨u, hstep, hrest⟩
      cases ev with
      | short most =>
          rw [next, loadPiece] at hstep
          by_cases hshort : (s.content file).length < len
          · rw [if_pos hshort] at hstep
            cases hstep
          rw [if_neg hshort] at hstep
          by_cases hfull : len ≤ acc.length
          · rw [if_pos hfull] at hstep
            cases hstep
            rcases run_done _ _ hrest with ⟨_, hgot⟩
            cases hgot
            exact ⟨acc, rfl⟩
          · rw [if_neg hfull] at hstep
            cases hstep
            exact ih _ hrest
      | fail e => cases hstep

/-- Nor does the advice, whatever the reply to it is. -/
theorem ok_of_loaded (file len : Nat) (advice : Option Advice) (events : List ReadEvent)
    (got : Except IoError Bytes)
    (h : ((ReadMode.mapped advice).loaded file len).run tree s path mode events
      = some (.done got)) : ∃ bytes, got = .ok bytes := by
  cases advice with
  | none => exact ok_of_load file len [] events got h
  | some a =>
      cases events with
      | nil => cases h
      | cons reply events =>
          rcases (run_cons_eq_some_iff reply events).mp h with ⟨u, hstep, hrest⟩
          cases hstep
          exact ok_of_load file len [] events got hrest

/-- A mapping is read the same way whatever advice was given for it. -/
theorem run_load_mode (mode' : ReadMode) (file len : Nat) (acc : Bytes)
    (events : List ReadEvent) :
    (Reading.load file len acc).run tree s path mode events
      = (Reading.load file len acc).run tree s path mode' events := by
  induction events generalizing acc with
  | nil => rfl
  | cons ev events ih =>
      have hnext : ∀ m : ReadMode, (Reading.load file len acc).next tree s path m ev
          = loadPiece (s.content file) file len acc ev := fun _ => rfl
      rw [run, run, List.foldlM_cons, List.foldlM_cons, hnext, hnext]
      cases ev with
      | fail e => rfl
      | short most =>
          rw [loadPiece]
          by_cases hshort : (s.content file).length < len
          · rw [if_pos hshort]
            rfl
          rw [if_neg hshort]
          by_cases hfull : len ≤ acc.length
          · rw [if_pos hfull]
            cases events <;> rfl
          · rw [if_neg hfull]
            exact ih _

/-- A reader of a file that is there fails exactly when its calls make it, and with the failure
    of one of them. -/
theorem error_iff (file : Nat) (hfile : (tree.resolveFile path).bind s.lookup = some file)
    (events : List ReadEvent) (got : Except IoError Bytes)
    (h : Reading.start.run tree s path mode events = some (.done got)) (e : IoError) :
    got = .error e ↔ mode.failure events = some e := by
  cases events with
  | nil => cases h
  | cons opening calls =>
      rcases (run_cons_eq_some_iff opening calls).mp h with ⟨u, hstep, hrest⟩
      rw [next, hfile] at hstep
      cases opening with
      | fail failed =>
          rcases (fails_eq_some_iff _ _).mp hstep with ⟨_, rfl⟩
          rcases run_done _ _ hrest with ⟨rfl, hgot⟩
          cases hgot
          cases mode <;> exact failed_iff failed e
      | short most =>
          cases hstep
          cases mode with
          | plain => exact error_of_read_iff file [] calls got hrest e
          | mapped advice =>
              cases calls with
              | nil => cases hrest
              | cons mapping calls =>
                  rcases (run_cons_eq_some_iff mapping calls).mp hrest with ⟨u, hstep, hrest⟩
                  cases mapping with
                  | short most =>
                      cases hstep
                      rcases ok_of_loaded file _ advice calls got hrest with ⟨bytes, rfl⟩
                      exact ⟨fun he => (by cases he), fun he => (by cases he)⟩
                  | fail failed =>
                      rcases (fails_eq_some_iff _ _).mp hstep with ⟨_, rfl⟩
                      rcases run_done _ _ hrest with ⟨rfl, hgot⟩
                      cases hgot
                      exact failed_iff failed e

/-- A mapping of the file is read in one piece, if the system likes. -/
theorem exists_load (file : Nat) (hfile : s.content file = bytes) :
    ∃ events, (Reading.load file bytes.length []).run tree s path mode events
      = some (.done (.ok bytes)) := by
  have hlast : (Reading.load file bytes.length bytes).next tree s path mode (.short 0)
      = some (.done (.ok bytes)) := by
    rw [next, loadPiece, hfile, if_neg (Nat.lt_irrefl _), if_pos (Nat.le_refl _)]
  by_cases hempty : bytes = []
  · subst hempty
    exact ⟨[.short 0], run_cons tree s path mode _ _ _ [] hlast⟩
  · have hlen : ¬ bytes.length ≤ ([] : Bytes).length :=
      fun h => hempty (List.eq_nil_of_length_eq_zero (Nat.le_zero.mp h))
    have hall : (piece bytes [] bytes.length).take (bytes.length - ([] : Bytes).length)
        = bytes := by
      rw [piece, List.length_nil, List.drop_zero, List.take_of_length_le (Nat.le_max_right _ _),
        Nat.sub_zero, List.take_length]
    have hstep : (Reading.load file bytes.length []).next tree s path mode (.short bytes.length)
        = some (.load file bytes.length bytes) := by
      rw [next, loadPiece, hfile, if_neg (Nat.lt_irrefl _), if_neg hlen, hall, List.nil_append]
    exact ⟨[.short bytes.length, .short 0], (run_cons tree s path mode _ _ _ _ hstep).trans
      (run_cons tree s path mode _ _ _ [] hlast)⟩

/-- There is a run that gets the bytes. -/
theorem exists_run (hk : tree.resolveFile path = some k) (hbytes : s.read k = some bytes) :
    ∃ events, Reading.start.run tree s path mode events = some (.done (.ok bytes)) := by
  rcases Option.map_eq_some_iff.mp hbytes with ⟨file, hfile, hcontent⟩
  have hopen : Reading.start.next tree s path mode (.short 0) = some (mode.opened file) := by
    rw [next, hk, Option.bind_some, hfile, openFile]
  cases mode with
  | plain =>
      have hstream := reads_of_readToEnd tree s path .plain file (Stream.ofBytes bytes) []
        hcontent rfl fun e he => absurd he.1 List.not_mem_nil
      rcases (Stream.ofBytes bytes).readToEnd_benign (Stream.benign_ofBytes bytes) with ⟨r, hr⟩
      rcases hstream with ⟨events, hrun⟩
      rw [hr] at hrun
      exact ⟨.short 0 :: events, (run_cons tree s path .plain _ _ _ events hopen).trans hrun⟩
  | mapped advice =>
      have hpieces : ∃ events, (Reading.load file bytes.length []).run tree s path
          (.mapped advice) events = some (.done (.ok bytes)) := exists_load file hcontent
      rcases hpieces with ⟨events, hload⟩
      cases advice with
      | none =>
          have hmap : (Reading.map file).next tree s path (.mapped none) (.short 0)
              = some (.load file bytes.length []) := by
            rw [next, hcontent]
            rfl
          exact ⟨.short 0 :: .short 0 :: events,
            (run_cons tree s path _ _ _ _ _ hopen).trans
              ((run_cons tree s path _ _ _ _ events hmap).trans hload)⟩
      | some a =>
          have hmap : (Reading.map file).next tree s path (.mapped (some a)) (.short 0)
              = some (.advise file bytes.length a) := by
            rw [next, hcontent]
            rfl
          have hadvise : (Reading.advise file bytes.length a).next tree s path (.mapped (some a))
              (.short 0) = some (.load file bytes.length []) := rfl
          exact ⟨.short 0 :: .short 0 :: .short 0 :: events,
            (run_cons tree s path _ _ _ _ _ hopen).trans
              ((run_cons tree s path _ _ _ _ _ hmap).trans
                ((run_cons tree s path _ _ _ _ events hadvise).trans hload))⟩

/-- Opening the file can fail in every way but one. -/
theorem exists_failure (hk : tree.resolveFile path = some k) (hbytes : s.read k = some bytes)
    (e : IoError) (he : e.kind ≠ .notFound) :
    ∃ events, Reading.start.run tree s path mode events = some (.done (.error e)) := by
  rcases Option.map_eq_some_iff.mp hbytes with ⟨file, hfile, _⟩
  have hopen : Reading.start.next tree s path mode (.fail e) = some (.done (.error e)) := by
    rw [next, hk, Option.bind_some, hfile, openFile]
    exact (fails_eq_some_iff e _).mpr ⟨he, rfl⟩
  exact ⟨[.fail e], run_cons tree s path mode _ _ _ [] hopen⟩

end Reading

/-- What the function has returned when its system calls have gone like this and nobody has
    changed the file meanwhile, if it has returned. -/
def PathReader.returned (crate : Crc32cCrate) (build : Build) (tree : DirTree δ)
    (s : Storage δ Bytes) (path : Bytes) (reader : PathReader) (events : List ReadEvent) :
    Option (Outcome Error HullValue) :=
  match Reading.start.run tree s path reader.mode events with
  | some (.done got) => some (reader.finish crate build got)
  | _ => none

/-- The function can return this, when nobody changes the file while it reads. -/
def PathReader.Returns (crate : Crc32cCrate) (build : Build) (tree : DirTree δ)
    (s : Storage δ Bytes) (path : Bytes) (reader : PathReader) (result : Outcome Error HullValue) :
    Prop :=
  ∃ events, reader.returned crate build tree s path events = some result

section

variable (crate : Crc32cCrate) (build : Build) (tree : DirTree δ) (s : Storage δ Bytes)
  (path : Bytes) (reader : PathReader) (result : Outcome Error HullValue)

theorem returned_eq_some_iff (events : List ReadEvent) :
    reader.returned crate build tree s path events = some result ↔
      ∃ got, Reading.start.run tree s path reader.mode events = some (.done got) ∧
        reader.finish crate build got = result := by
  unfold PathReader.returned
  split
  case h_1 got hrun =>
    rw [hrun]
    simp only [Option.some.injEq, Reading.done.injEq, exists_eq_left']
  case h_2 hrun =>
    refine ⟨fun h => (by cases h), ?_⟩
    rintro ⟨got, hdone, _⟩
    exact absurd hdone (hrun got)

/-- It returns what it makes of the bytes, unless one of its calls has failed in a way that it
    passes on. -/
theorem returned_at_rest (k : δ × Bytes) (bytes : Bytes) (hk : tree.resolveFile path = some k)
    (hbytes : s.read k = some bytes) (events : List ReadEvent)
    (h : reader.returned crate build tree s path events = some result) :
    result = (reader.mode.failure events).elim (reader.finish crate build (.ok bytes))
      fun e => .err (.io e) := by
  rcases (returned_eq_some_iff crate build tree s path reader result events).mp h with
    ⟨got, hrun, rfl⟩
  rcases Option.map_eq_some_iff.mp hbytes with ⟨file, hlookup, _⟩
  have hfile : (tree.resolveFile path).bind s.lookup = some file := by
    rw [hk, Option.bind_some, hlookup]
  have herror := Reading.error_iff file hfile events got hrun
  cases hfailure : reader.mode.failure events with
  | some e =>
      rw [(herror e).mpr hfailure]
      rfl
  | none =>
      rcases Reading.got_at_rest hk hbytes events got hrun with rfl | ⟨e, _, rfl⟩
      · rfl
      · have hsome := (herror e).mp rfl
        rw [hfailure] at hsome
        cases hsome

/-- It returns what it makes of the bytes, or an I/O error. -/
theorem returns_iff (k : δ × Bytes) (bytes : Bytes) (hk : tree.resolveFile path = some k)
    (hbytes : s.read k = some bytes) : reader.Returns crate build tree s path result ↔
    reader.finish crate build (.ok bytes) = result ∨
      ∃ e, e.kind ≠ .notFound ∧ .err (.io e) = result := by
  constructor
  · rintro ⟨events, hreturned⟩
    rcases (returned_eq_some_iff crate build tree s path reader result events).mp hreturned with
      ⟨got, hrun, hresult⟩
    rcases Reading.got_at_rest hk hbytes events got hrun with rfl | ⟨e, he, rfl⟩
    · exact Or.inl hresult
    · exact Or.inr ⟨e, he, hresult⟩
  · rintro (hresult | ⟨e, he, hresult⟩)
    · have hrun : ∃ events, Reading.start.run tree s path reader.mode events
          = some (.done (.ok bytes)) := Reading.exists_run hk hbytes
      rcases hrun with ⟨events, hrun⟩
      exact ⟨events, (returned_eq_some_iff crate build tree s path reader result events).mpr
        ⟨.ok bytes, hrun, hresult⟩⟩
    · have hrun : ∃ events, Reading.start.run tree s path reader.mode events
          = some (.done (.error e)) := Reading.exists_failure hk hbytes e he
      rcases hrun with ⟨events, hrun⟩
      exact ⟨events, (returned_eq_some_iff crate build tree s path reader result events).mpr
        ⟨.error e, hrun, hresult⟩⟩

/-- Where there is no file, it returns an I/O error. -/
theorem returns_missing_iff (hnone : (tree.resolveFile path).bind s.lookup = none) :
    reader.Returns crate build tree s path result ↔ ∃ e, .err (.io e) = result := by
  have hopen : ∀ e, Reading.start.next tree s path reader.mode (.fail e)
      = some (.done (.error e)) := by
    intro e
    rw [Reading.next, hnone, Reading.openFile]
  have hfailed : ∀ ev, ∃ e, Reading.start.next tree s path reader.mode ev
      = some (.done (.error e)) := by
    intro ev
    cases ev with
    | short most => exact ⟨notFound, by rw [Reading.next, hnone, Reading.openFile]⟩
    | fail e => exact ⟨e, hopen e⟩
  constructor
  · rintro ⟨events, hreturned⟩
    rcases (returned_eq_some_iff crate build tree s path reader result events).mp hreturned with
      ⟨got, hrun, hresult⟩
    have hdone : ∃ e, got = .error e := by
      cases events with
      | nil => cases hrun
      | cons ev events =>
          rcases hfailed ev with ⟨e, hstep⟩
          rw [Reading.run_cons tree s path _ _ _ ev events hstep] at hrun
          cases (Reading.run_done _ _ hrun).2
          exact ⟨e, rfl⟩
    rcases hdone with ⟨e, rfl⟩
    exact ⟨e, hresult⟩
  · rintro ⟨e, hresult⟩
    exact ⟨[.fail e], (returned_eq_some_iff crate build tree s path reader result _).mpr
      ⟨.error e, Reading.run_cons tree s path _ _ _ _ [] (hopen e), hresult⟩⟩

end

/-- The advice is given and the reply to it dropped: what follows is what follows without
    advice. -/
theorem returned_advised (crate : Crc32cCrate) (build : Build) (tree : DirTree δ)
    (s : Storage δ Bytes) (path : Bytes) (a : Advice) (opened mapped : Nat) (reply : ReadEvent)
    (calls : List ReadEvent) :
    (readMmapImpl (some a)).returned crate build tree s path
        (.short opened :: .short mapped :: reply :: calls)
      = (readMmapImpl none).returned crate build tree s path
        (.short opened :: .short mapped :: calls) := by
  have hrun : Reading.start.run tree s path (.mapped (some a))
        (.short opened :: .short mapped :: reply :: calls)
      = Reading.start.run tree s path (.mapped none)
        (.short opened :: .short mapped :: calls) := by
    simp only [Reading.run, List.foldlM_cons, Reading.next]
    cases (tree.resolveFile path).bind s.lookup with
    | none => rfl
    | some file => exact Reading.run_load_mode (.mapped none) file _ [] calls
  unfold PathReader.returned
  simp only [PathReader.mode, readMmapImpl, hrun]
  rfl

/-- Where there is no file, it does not matter how it would have been read. -/
theorem returned_missing (crate : Crc32cCrate) (build : Build) (tree : DirTree δ)
    (s : Storage δ Bytes) (path : Bytes) (mode : ReadMode)
    (hnone : (tree.resolveFile path).bind s.lookup = none) (events : List ReadEvent) :
    (PathReader.kvCache mode).returned crate build tree s path events
      = KvCache.readFromPath.returned crate build tree s path events := by
  have hrun : Reading.start.run tree s path mode events
      = Reading.start.run tree s path .plain events := by
    cases events with
    | nil => rfl
    | cons opening calls =>
        simp only [Reading.run, List.foldlM_cons, Reading.next, hnone]
        -- A reader that has found no file is done.
        cases opening <;> cases calls <;> rfl
  unfold PathReader.returned
  simp only [PathReader.mode, KvCache.readFromPath, hrun]
  rfl

/-- The functions that map the file agree with the plain one. Of a file that nobody changes
    they all return what the plain one makes of its bytes, unless a call has failed in a way
    that the function passes on, and a failure of the advice is none of these: what a function
    does after it is what it does without advice. Where there is no file they return the same
    whenever their calls go the same way. Taken together the same can be returned by all of
    them. -/
theorem mapped_agrees (crate : Crc32cCrate) (build : Build) (tree : DirTree δ)
    (s : Storage δ Bytes) (path : Bytes) (advice : Option Advice) :
    (∀ k bytes, tree.resolveFile path = some k → s.read k = some bytes → ∀ events result,
      ((readMmapImpl advice).returned crate build tree s path events = some result →
        result = ((ReadMode.mapped advice).failure events).elim
          (KvCache.readFromPath.finish crate build (.ok bytes)) fun e => .err (.io e)) ∧
      (KvCache.readFromPath.returned crate build tree s path events = some result →
        result = (ReadMode.plain.failure events).elim
          (KvCache.readFromPath.finish crate build (.ok bytes)) fun e => .err (.io e))) ∧
    (∀ a opened mapped reply calls,
      (readMmapImpl (some a)).returned crate build tree s path
          (.short opened :: .short mapped :: reply :: calls)
        = (readMmapImpl none).returned crate build tree s path
          (.short opened :: .short mapped :: calls)) ∧
    ((tree.resolveFile path).bind s.lookup = none → ∀ events,
      (readMmapImpl advice).returned crate build tree s path events
        = KvCache.readFromPath.returned crate build tree s path events) ∧
    ∀ result, (readMmapImpl advice).Returns crate build tree s path result ↔
      KvCache.readFromPath.Returns crate build tree s path result := by
  refine ⟨fun k bytes hk hbytes events result =>
    ⟨returned_at_rest crate build tree s path (readMmapImpl advice) result k bytes hk hbytes events,
      returned_at_rest crate build tree s path KvCache.readFromPath result k bytes hk hbytes
        events⟩,
    fun a opened mapped reply calls =>
      returned_advised crate build tree s path a opened mapped reply calls,
    fun hnone => returned_missing crate build tree s path (.mapped advice) hnone,
    fun result => ?_⟩
  cases hfile : (tree.resolveFile path).bind s.lookup with
  | none =>
      rw [returns_missing_iff crate build tree s path _ result hfile,
        returns_missing_iff crate build tree s path _ result hfile]
  | some file =>
      rcases Option.bind_eq_some_iff.mp hfile with ⟨k, hk, hlookup⟩
      have hbytes : s.read k = some (s.content file) := by
        rw [Storage.read, hlookup, Option.map_some]
      rw [returns_iff crate build tree s path _ result k _ hk hbytes,
        returns_iff crate build tree s path _ result k _ hk hbytes]
      -- What the functions make of the bytes does not depend on how they got them.
      exact Iff.rfl

/-- What `madvise` may say. -/
def adviceFailed : IoError := ⟨.other, "Input/output error (os error 5)"⟩

/-- A disk with the cache in `x`. -/
def cacheStorage : Storage Unit Bytes :=
  (sampleMachine.storage.create ((), [0x78])).write sampleMachine.storage.fresh 0
    ((sampleValue true).bytes castagnoli)

/-- The advice fails, and the cache is read all the same. -/
theorem mapped_agrees_sample :
    KvCache.readFromPathMmapSequential.returned castagnoli .release sampleHost.tree cacheStorage
        [0x78] [.short 0, .short 0, .fail adviceFailed, .short 322, .short 0]
      = some (.ok (.kvCache sampleKvCache)) := by
  refine ((mapped_agrees castagnoli .release sampleHost.tree cacheStorage [0x78] none).2.1
    .sequential 0 0 (.fail adviceFailed) [.short 322, .short 0]).trans ?_
  set_option maxRecDepth 4000 in decide +kernel

end SkegHull
