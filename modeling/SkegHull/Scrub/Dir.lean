import SkegHull.Lib.UnixPath
import SkegHull.Scrub

/-!
# Scrubbing a Directory

A pass over a directory lists it, and then goes through the entries one after
another: it asks what the entry is, probes the first bytes of a regular file,
and scrubs the file if they are the magic. Each of these is a question to the
system, and the answers may come from different moments, since other processes
write to the directory in the meantime. The file is opened twice, for the probe
and for the scrub.

`DirPc` is a pass as a state machine with one question for each state, and
`scrubDir` is what a pass computes when all answers come from one system
(`runs_scrubDir`).

## Main definitions

* `FileType`, `DirQuery`: The questions of a pass, and what an entry can be.
* `looksLikeHull`: The probe, given what opening the file returned.
* `scrubDir`: The pass, as a function of the answers.
* `DirPc`, `DirPc.next`: The pass, one question at a time.
* `DirPc.Moves`: What one question and its answer can do to a pass.
* `DirPc.hullFiles`, `DirPc.hullLeft`: The hull files a pass has before it.

## Theorems

* `looksLikeHull_short`: What the probe says when no read fails.
* `moves_next`: Every question is one of the moves.
* `hullLeft_next`: Each hull file is scrubbed once.
* `stepsLeft_next`: Every question brings a pass closer to its end.
* `runs_scrubDir`: A pass over one system returns what `scrubDir` computes.
* `probed_of_iterate`: It scrubs only what its probe has found.
-/

namespace SkegHull

open Lib

/-- What an entry of a directory is. -/
inductive FileType where
  | file
  | dir
  | symlink
  | other
  deriving DecidableEq

/-- The entry is a regular file. -/
def FileType.isFile (ft : FileType) : Bool := ft = .file

/-- What a pass asks the system. The probe and the scrub open the file each on its
    own. -/
inductive DirQuery where
  | readDir (dir : Bytes)
  | fileType (path : Bytes)
  | probe (path : Bytes)
  | scrub (path : Bytes)

/-- What the system answers. An entry of a listing can be an error of its own. -/
abbrev DirQuery.Reply : DirQuery → Type
  | .readDir _ => Except IoError (List (Except IoError Bytes))
  | .fileType _ => Except IoError FileType
  | .probe _ => Except IoError Stream
  | .scrub _ => Except IoError Stream

/-- The answers to all questions. -/
abbrev Answers := (q : DirQuery) → q.Reply

/-- The first eight bytes of the file are the magic. -/
def looksLikeHull (opened : Except IoError Stream) : Bool :=
  match opened with
  | .error _ => false
  | .ok f =>
      match f.readExact 8 with
      | (.error _, _) => false
      | (.ok found, _) => found = magic.val

/-- When no read fails, the probe compares the front of the file. -/
theorem looksLikeHull_short (f : Stream) (hs : f.Short) (hpos : f.pos = 0) :
    looksLikeHull (.ok f) = true ↔ magic.val <+: f.bytes := by
  have hrest : f.rest = f.bytes := by rw [Stream.rest, hpos, List.drop_zero]
  by_cases hlen : 8 ≤ f.rest.length
  · rcases Stream.readExact_benign f 8 hs.benign hlen with ⟨es, _, hread⟩
    simp only [looksLikeHull, hread, decide_eq_true_eq, hrest]
    rw [List.prefix_iff_eq_take, Header.length_magic]
    exact eq_comm
  -- A shorter file has no eight bytes to compare.
  · rcases Stream.readExact_eof f 8 hs.benign (by omega) with ⟨e, f', _, hread⟩
    simp only [looksLikeHull, hread, Bool.false_eq_true, false_iff]
    intro hprefix
    have hle := hprefix.length_le
    rw [Header.length_magic, ← hrest] at hle
    exact hlen hle

theorem looksLikeHull_ofBytes (bytes : Bytes) :
    looksLikeHull (.ok (Stream.ofBytes bytes)) = true ↔ magic.val <+: bytes :=
  looksLikeHull_short _ (Stream.short_ofBytes bytes) rfl

section

variable (crate : Crc32cCrate) (build : Build) (dir : Bytes) (answer : Answers)

/-- What one entry adds to the reports. -/
def scrubEntry (out : List ScrubReport) (entry : Except IoError Bytes) :
    Outcome Empty (List ScrubReport) :=
  match entry with
  | .error _ => .ok out
  | .ok name =>
      let path := Path.join dir name
      match answer (.fileType path) with
      | .error _ => .ok out
      | .ok ft =>
          if !ft.isFile then .ok out
          else if !looksLikeHull (answer (.probe path)) then .ok out
          else do
            let report ← scrubFile crate build path (answer (.scrub path))
            .ok (out ++ [report])

/-- A regular file that starts with the magic adds its report. -/
theorem scrubEntry_hull (out : List ScrubReport) (name : Bytes) (report : ScrubReport)
    (htype : answer (.fileType (Path.join dir name)) = .ok .file)
    (hprobe : looksLikeHull (answer (.probe (Path.join dir name))) = true)
    (hscrub : scrubFile crate build (Path.join dir name) (answer (.scrub (Path.join dir name)))
      = .ok report) :
    scrubEntry crate build dir answer out (.ok name) = .ok (out ++ [report]) := by
  have hfile : FileType.file.isFile = true := rfl
  simp only [scrubEntry, htype, hfile, hprobe, hscrub, Bool.not_true, Bool.false_eq_true, if_false,
    Outcome.ok_bind]

/-- Any other file adds nothing. -/
theorem scrubEntry_foreign (out : List ScrubReport) (name : Bytes)
    (htype : answer (.fileType (Path.join dir name)) = .ok .file)
    (hprobe : looksLikeHull (answer (.probe (Path.join dir name))) = false) :
    scrubEntry crate build dir answer out (.ok name) = .ok out := by
  have hfile : FileType.file.isFile = true := rfl
  simp only [scrubEntry, htype, hfile, hprobe, Bool.not_true, Bool.not_false, Bool.false_eq_true,
    if_false, if_true]

/-- Scrub every hull file in a directory. -/
def scrubDir : Outcome Empty (List ScrubReport) :=
  match answer (.readDir dir) with
  | .error _ => .ok []
  | .ok entries => entries.foldlM (scrubEntry crate build dir answer) []

theorem scrubDir_listed (es : List (Except IoError Bytes)) (h : answer (.readDir dir) = .ok es) :
    scrubDir crate build dir answer = es.foldlM (scrubEntry crate build dir answer) [] := by
  rw [scrubDir, h]

end

/-- Where a pass stands: in front of a question, with the entries behind the one it is
    at, and the reports it has collected. -/
inductive DirPc where
  | list
  | fileType (path : Bytes) (rest : List (Except IoError Bytes)) (out : List ScrubReport)
  | probe (path : Bytes) (rest : List (Except IoError Bytes)) (out : List ScrubReport)
  | scrub (path : Bytes) (rest : List (Except IoError Bytes)) (out : List ScrubReport)
  | done (result : Outcome Empty (List ScrubReport))

namespace DirPc

/-- The head of the loop: entries that could not be read are left out. -/
def entries (dir : Bytes) : List (Except IoError Bytes) → List ScrubReport → DirPc
  | [], out => .done (.ok out)
  | .error _ :: rest, out => entries dir rest out
  | .ok name :: rest, out => .fileType (Path.join dir name) rest out

/-- Where a pass stands behind an entry. -/
def behind (dir : Bytes) (rest : List (Except IoError Bytes)) :
    Outcome Empty (List ScrubReport) → DirPc
  | .ok out => entries dir rest out
  | .err e => nomatch e
  | .panic p => .done (.panic p)

/-- What a pass makes of the answer. -/
def next (crate : Crc32cCrate) (build : Build) (dir : Bytes) (answer : Answers) : DirPc → DirPc
  | .list =>
      match answer (.readDir dir) with
      | .error _ => .done (.ok [])
      | .ok all => entries dir all []
  | .fileType path rest out =>
      match answer (.fileType path) with
      | .error _ => entries dir rest out
      | .ok ft => if !ft.isFile then entries dir rest out else .probe path rest out
  | .probe path rest out =>
      if !looksLikeHull (answer (.probe path)) then entries dir rest out
      else .scrub path rest out
  | .scrub path rest out =>
      match scrubFile crate build path (answer (.scrub path)) with
      | .ok report => entries dir rest (out ++ [report])
      | .err e => nomatch e
      | .panic p => .done (.panic p)
  | .done result => .done result

/-- What one question and its answer can do to a pass. -/
inductive Moves (crate : Crc32cCrate) (build : Build) (dir : Bytes) (answer : Answers) :
    DirPc → DirPc → Prop where
  | unlisted (e : IoError) (h : answer (.readDir dir) = .error e) :
      Moves crate build dir answer .list (.done (.ok []))
  | listed (es : List (Except IoError Bytes)) (h : answer (.readDir dir) = .ok es) :
      Moves crate build dir answer .list (entries dir es [])
  | skip (path : Bytes) (rest : List (Except IoError Bytes)) (out : List ScrubReport)
      (h : ∀ ft, answer (.fileType path) = .ok ft → ft.isFile = false) :
      Moves crate build dir answer (.fileType path rest out) (entries dir rest out)
  | regular (path : Bytes) (rest : List (Except IoError Bytes)) (out : List ScrubReport)
      (ft : FileType) (h : answer (.fileType path) = .ok ft) (hfile : ft.isFile = true) :
      Moves crate build dir answer (.fileType path rest out) (.probe path rest out)
  | foreign (path : Bytes) (rest : List (Except IoError Bytes)) (out : List ScrubReport)
      (h : looksLikeHull (answer (.probe path)) = false) :
      Moves crate build dir answer (.probe path rest out) (entries dir rest out)
  | hull (path : Bytes) (rest : List (Except IoError Bytes)) (out : List ScrubReport)
      (h : looksLikeHull (answer (.probe path)) = true) :
      Moves crate build dir answer (.probe path rest out) (.scrub path rest out)
  | report (path : Bytes) (rest : List (Except IoError Bytes)) (out : List ScrubReport)
      (r : ScrubReport) (h : scrubFile crate build path (answer (.scrub path)) = .ok r) :
      Moves crate build dir answer (.scrub path rest out) (entries dir rest (out ++ [r]))
  | panic (path : Bytes) (rest : List (Except IoError Bytes)) (out : List ScrubReport)
      (p : Panic) (h : scrubFile crate build path (answer (.scrub path)) = .panic p) :
      Moves crate build dir answer (.scrub path rest out) (.done (.panic p))

/-- A pass that is not over makes one of these moves. -/
theorem moves_next (crate : Crc32cCrate) (build : Build) (dir : Bytes) (answer : Answers)
    (pc : DirPc) : (∃ result, pc = .done result) ∨
      Moves crate build dir answer pc (pc.next crate build dir answer) := by
  cases pc with
  | list =>
      refine Or.inr ?_
      cases h : answer (.readDir dir) with
      | error e =>
          simp only [next, h]
          exact .unlisted e h
      | ok es =>
          simp only [next, h]
          exact .listed es h
  | fileType path rest out =>
      refine Or.inr ?_
      cases h : answer (.fileType path) with
      | error e =>
          simp only [next, h]
          exact .skip path rest out fun ft hft => by rw [h] at hft; cases hft
      | ok ft =>
          cases hfile : ft.isFile with
          | false =>
              simp only [next, h, hfile, Bool.not_false, if_true]
              exact .skip path rest out fun ft' hft => by rw [h] at hft; cases hft; exact hfile
          | true =>
              simp only [next, h, hfile, Bool.not_true, Bool.false_eq_true, if_false]
              exact .regular path rest out ft h hfile
  | probe path rest out =>
      refine Or.inr ?_
      cases h : looksLikeHull (answer (.probe path)) with
      | false =>
          simp only [next, h, Bool.not_false, if_true]
          exact .foreign path rest out h
      | true =>
          simp only [next, h, Bool.not_true, Bool.false_eq_true, if_false]
          exact .hull path rest out h
  | scrub path rest out =>
      refine Or.inr ?_
      cases h : scrubFile crate build path (answer (.scrub path)) with
      | ok r =>
          simp only [next, h]
          exact .report path rest out r h
      | err e => exact e.elim
      | panic p =>
          simp only [next, h]
          exact .panic path rest out p h
  | done result => exact Or.inl ⟨result, rfl⟩

section

variable (crate : Crc32cCrate) (build : Build) (dir : Bytes) (answer : Answers)

/-- Undisturbed, a pass deals with an entry in one question, two, or three. -/
theorem runs_entry (name : Bytes) (rest : List (Except IoError Bytes)) (out : List ScrubReport) :
    ∃ n, (next crate build dir answer)^[n] (.fileType (Path.join dir name) rest out)
      = behind dir rest (scrubEntry crate build dir answer out (.ok name)) := by
  cases htype : answer (.fileType (Path.join dir name)) with
  | error e =>
      refine ⟨1, ?_⟩
      simp only [Function.iterate_succ_apply, Function.iterate_zero_apply, next, scrubEntry, htype,
        behind]
  | ok ft =>
      cases hfile : ft.isFile with
      | false =>
          refine ⟨1, ?_⟩
          simp only [Function.iterate_succ_apply, Function.iterate_zero_apply, next, scrubEntry,
            htype, hfile, Bool.not_false, if_true, behind]
      | true =>
          cases hprobe : looksLikeHull (answer (.probe (Path.join dir name))) with
          | false =>
              refine ⟨2, ?_⟩
              simp only [Function.iterate_succ_apply, Function.iterate_zero_apply, next, scrubEntry,
                htype, hfile, hprobe, Bool.not_true, Bool.not_false, Bool.false_eq_true, if_false,
                if_true, behind]
          | true =>
              refine ⟨3, ?_⟩
              simp only [Function.iterate_succ_apply, Function.iterate_zero_apply, next, scrubEntry,
                htype, hfile, hprobe, Bool.not_true, Bool.false_eq_true, if_false]
              cases scrubFile crate build (Path.join dir name)
                (answer (.scrub (Path.join dir name))) with
              | ok report => rfl
              | err e => exact e.elim
              | panic p => rfl

/-- Undisturbed, the loop computes what it computes from the answers. -/
theorem runs_entries (es : List (Except IoError Bytes)) (out : List ScrubReport) :
    ∃ n, (next crate build dir answer)^[n] (entries dir es out)
      = .done (es.foldlM (scrubEntry crate build dir answer) out) := by
  induction es generalizing out with
  | nil => exact ⟨0, rfl⟩
  | cons entry es ih =>
      rw [List.foldlM_cons]
      rcases entry with e | name
      · exact ih out
      · rcases runs_entry crate build dir answer name es out with ⟨n, hn⟩
        rw [entries]
        generalize scrubEntry crate build dir answer out (.ok name) = result at hn
        cases result with
        | ok out' =>
            rcases ih out' with ⟨m, hm⟩
            refine ⟨m + n, ?_⟩
            rw [Function.iterate_add_apply, hn, behind, hm, Outcome.ok_bind]
        | err e => exact e.elim
        | panic p => exact ⟨n, hn⟩

/-- A pass over one system returns what `scrubDir` computes from its answers. -/
theorem runs_scrubDir : ∃ n, (next crate build dir answer)^[n] .list
    = .done (scrubDir crate build dir answer) := by
  cases hlist : answer (.readDir dir) with
  | error e =>
      refine ⟨1, ?_⟩
      simp only [Function.iterate_succ_apply, Function.iterate_zero_apply, next, scrubDir, hlist]
  | ok es =>
      rcases runs_entries crate build dir answer es [] with ⟨n, hn⟩
      refine ⟨n + 1, ?_⟩
      simp only [Function.iterate_succ_apply, next, scrubDir, hlist, hn]

end

/-! ### What a pass has before it -/

/-- The pass is in front of a scrub. -/
def scrubs : DirPc → Bool
  | .scrub _ _ _ => true
  | _ => false

/-- The file is a regular one that starts with the magic. -/
def isHull (answer : Answers) (path : Bytes) : Bool :=
  match answer (.fileType path) with
  | .error _ => false
  | .ok ft => ft.isFile && looksLikeHull (answer (.probe path))

/-- The entry is one of a hull file. -/
def isHullEntry (dir : Bytes) (answer : Answers) : Except IoError Bytes → Bool
  | .error _ => false
  | .ok name => isHull answer (Path.join dir name)

/-- How many of the entries are hull files. -/
def hullFiles (dir : Bytes) (answer : Answers) (es : List (Except IoError Bytes)) : Nat :=
  es.countP (isHullEntry dir answer)

/-- How many hull files a pass has still to scrub. -/
def hullLeft (dir : Bytes) (answer : Answers) : DirPc → Nat
  | .list =>
      match answer (.readDir dir) with
      | .error _ => 0
      | .ok es => hullFiles dir answer es
  | .fileType path rest _ => (isHull answer path).toNat + hullFiles dir answer rest
  | .probe path rest _ =>
      (looksLikeHull (answer (.probe path))).toNat + hullFiles dir answer rest
  | .scrub _ rest _ => 1 + hullFiles dir answer rest
  | .done _ => 0

/-- How many questions a pass has still to ask, at most. -/
def stepsLeft (dir : Bytes) (answer : Answers) : DirPc → Nat
  | .list =>
      match answer (.readDir dir) with
      | .error _ => 1
      | .ok es => 3 * es.length + 1
  | .fileType _ rest _ => 3 * rest.length + 3
  | .probe _ rest _ => 3 * rest.length + 2
  | .scrub _ rest _ => 3 * rest.length + 1
  | .done _ => 0

section

variable (crate : Crc32cCrate) (build : Build) (dir : Bytes) (answer : Answers)

theorem hullFiles_cons (entry : Except IoError Bytes) (es : List (Except IoError Bytes)) :
    hullFiles dir answer (entry :: es)
      = (isHullEntry dir answer entry).toNat + hullFiles dir answer es := by
  rw [hullFiles, List.countP_cons, hullFiles]
  cases isHullEntry dir answer entry with
  | false => exact (Nat.zero_add _).symm
  | true => exact Nat.add_comm _ 1

theorem hullLeft_entries (es : List (Except IoError Bytes)) (out : List ScrubReport) :
    (entries dir es out).hullLeft dir answer = hullFiles dir answer es := by
  induction es with
  | nil => rfl
  | cons entry es ih =>
      rw [hullFiles_cons]
      rcases entry with e | name
      · rw [entries, ih, isHullEntry, Bool.toNat_false, Nat.zero_add]
      · rw [entries, hullLeft, isHullEntry]

theorem stepsLeft_entries (es : List (Except IoError Bytes)) (out : List ScrubReport) :
    (entries dir es out).stepsLeft dir answer ≤ 3 * es.length := by
  induction es with
  | nil => exact Nat.le_refl 0
  | cons entry es ih =>
      rcases entry with e | name
      · rw [entries, List.length_cons]
        omega
      · rw [entries, stepsLeft, List.length_cons]
        omega

/-- Every hull file a pass has before it is scrubbed once. -/
theorem hullLeft_next (hl : crate.Lawful) (pc : DirPc) :
    (pc.next crate build dir answer).hullLeft dir answer + pc.scrubs.toNat
      = pc.hullLeft dir answer := by
  have hentries := hullLeft_entries dir answer
  rcases moves_next crate build dir answer pc with ⟨result, rfl⟩ | hmove
  · rfl
  generalize pc.next crate build dir answer = pc' at hmove
  cases hmove with
  | unlisted e h =>
      rw [hullLeft, hullLeft, h]
      rfl
  | listed es h =>
      rw [hentries, hullLeft, h]
      exact Nat.add_zero _
  | skip path rest out h =>
      have hno : isHull answer path = false := by
        rw [isHull]
        cases htype : answer (.fileType path) with
        | error e => rfl
        | ok ft => exact congrArg (· && _) (h ft htype)
      rw [hentries, hullLeft, hno]
      exact (Nat.zero_add _).symm
  | regular path rest out ft h hfile =>
      have hsame : isHull answer path = looksLikeHull (answer (.probe path)) := by
        rw [isHull, h]
        exact congrArg (· && _) hfile
      rw [hullLeft, hullLeft, hsame]
      exact Nat.add_zero _
  | foreign path rest out h =>
      rw [hentries, hullLeft, h]
      exact (Nat.zero_add _).symm
  | hull path rest out h =>
      rw [hullLeft, hullLeft, h]
      exact Nat.add_zero _
  | report path rest out r h =>
      rw [hentries, hullLeft]
      exact Nat.add_comm _ 1
  -- Scrubbing a file always gives a report.
  | panic path rest out p h =>
      rcases scrubFile_returns crate build hl path (answer (.scrub path)) with ⟨r, hr⟩
      rw [h] at hr
      cases hr

/-- Every question brings a pass closer to its end. -/
theorem stepsLeft_next (pc : DirPc) :
    (∃ result, pc = .done result) ∨
      (pc.next crate build dir answer).stepsLeft dir answer < pc.stepsLeft dir answer := by
  have hentries := stepsLeft_entries dir answer
  rcases moves_next crate build dir answer pc with hdone | hmove
  · exact Or.inl hdone
  refine Or.inr ?_
  generalize pc.next crate build dir answer = pc' at hmove
  cases hmove with
  | unlisted e h =>
      rw [stepsLeft, stepsLeft, h]
      exact Nat.one_pos
  | listed es h =>
      have hrest := hentries es []
      rw [stepsLeft, h]
      exact Nat.lt_succ_of_le hrest
  | skip path rest out h =>
      have hrest := hentries rest out
      rw [stepsLeft]
      omega
  | regular path rest out ft h hfile => exact Nat.lt_succ_self _
  | foreign path rest out h =>
      have hrest := hentries rest out
      rw [stepsLeft]
      omega
  | hull path rest out h => exact Nat.lt_succ_self _
  | report path rest out r h =>
      have hrest := hentries rest (out ++ [r])
      rw [stepsLeft]
      omega
  | panic path rest out p h => exact Nat.succ_pos _

theorem scrubs_entries (es : List (Except IoError Bytes)) (out : List ScrubReport) :
    (entries dir es out).scrubs = false := by
  induction es with
  | nil => rfl
  | cons entry es ih =>
      rcases entry with e | name
      · exact ih
      · rfl

/-- A pass over one system scrubs nothing that its probe has not found. -/
theorem probed_of_iterate (n : Nat) (path : Bytes) (rest : List (Except IoError Bytes))
    (out : List ScrubReport)
    (h : (next crate build dir answer)^[n] .list = .scrub path rest out) :
    looksLikeHull (answer (.probe path)) = true := by
  have hentries : ∀ es out', entries dir es out' ≠ .scrub path rest out := by
    intro es out' heq
    have hno := scrubs_entries dir es out'
    rw [heq] at hno
    cases hno
  cases n with
  | zero => cases h
  | succ n =>
      rw [Function.iterate_succ_apply'] at h
      generalize (next crate build dir answer)^[n] .list = pc at h
      rcases moves_next crate build dir answer pc with ⟨result, rfl⟩ | hmove
      · cases h
      rw [h] at hmove
      generalize hpc' : DirPc.scrub path rest out = pc' at hmove
      -- Of all moves, only that of the probe leads there.
      cases hmove with
      | hull path' rest' out' hprobe =>
          cases hpc'
          exact hprobe
      | listed es hes => exact absurd hpc'.symm (hentries es [])
      | skip path' rest' out' hskip => exact absurd hpc'.symm (hentries rest' out')
      | foreign path' rest' out' hprobe => exact absurd hpc'.symm (hentries rest' out')
      | report path' rest' out' r hr => exact absurd hpc'.symm (hentries rest' _)
      | _ => cases hpc'

end

end DirPc

end SkegHull
