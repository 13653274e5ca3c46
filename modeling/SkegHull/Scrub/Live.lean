import SkegHull.Atomic.Contents
import SkegHull.Atomic.Failure
import SkegHull.Scrub.Agreement
import SkegHull.Scrub.Dir

/-!
# Scrubbing beside Writers

A pass over a directory in which calls of `atomicWrite` are under way. Every
question of the pass is a step of its own, and any number of events of the calls
can come between two of them. The disk is in order: opening a file that is there
works, and no read fails.

A name that is no temp name leads to a complete image or to what was there at the
start, at every moment, so whatever the pass sees there scrubs clean. But the
listing contains the temp files of the calls as well, a temp file starts with the
magic as soon as its first bytes are written, and it may be renamed or removed
between the probe and the scrub. Such a file gives a report that is not clean
(`scrubDir_reports_temp`). A pass that scrubs temp files only when they are
complete, and still there, reports nothing (`scrubDir_beside_writers`).

## Main definitions

* `ValidImage`: What the two writers of the format produce.
* `FileClean`, `ScrubsClean`: A file that scrubs clean.
* `Answered`: What the system answers at one moment.
* `Live`, `Live.Step`: A pass and the calls, and one step of either.
* `TempComplete`, `Settled`: A pass that scrubs a temp file finds it complete.
* `Live.Good`: What the steps preserve.

## Theorems

* `fileClean_of_validImage`: Valid images scrub clean.
* `good_entries`, `good_next`, `good_advance`: Steps preserve `Good`.
* `good_of_reaches`: What holds of every run.
* `scrubDir_beside_writers`: A settled pass reports nothing.
-/

namespace SkegHull

open Lib

/-! ### Clean files -/

section

variable (crate : Crc32cCrate) (build : Build)

/-- The bytes are what one of the writers produces, in some build. -/
def ValidImage (bytes : Bytes) : Prop :=
  (∃ build, ∃ s : Saga, s.container.Fits ∧ sagaImage crate build s = .ok bytes) ∨
    ∃ build, ∃ c : KvCache, c.container.Fits ∧ kvCacheImage crate build c = .ok bytes

/-- The header parses, and every section is clean. -/
def FileClean (bytes : Bytes) : Prop :=
  ∃ header, Header.parse bytes = .ok header ∧ ∀ s ∈ header.sections, s.Clean crate bytes

/-- Scrubbing a file of these bytes gives a clean report. -/
def ScrubsClean (bytes : Bytes) : Prop :=
  ∀ path, ∃ report, scrubFile crate build path (.ok (Stream.ofBytes bytes)) = .ok report ∧
    report.isClean = true

theorem scrubsClean_iff (hl : crate.Lawful) (bytes : Bytes) :
    ScrubsClean crate build bytes ↔ FileClean crate bytes := by
  constructor
  · intro h
    rcases h [] with ⟨report, hrun, hclean⟩
    exact scrubFile_of_clean crate build hl [] (Stream.ofBytes bytes) (Stream.benign_ofBytes bytes)
      report hrun hclean
  · rintro ⟨header, hparse, hall⟩ path
    exact ⟨_, scrubFile_short crate build hl path (Stream.ofBytes bytes)
      (Stream.short_ofBytes bytes) header hparse hall, isClean_cleanReport path header⟩

/-- Images are clean. -/
theorem fileClean_of_validImage (bytes : Bytes) (h : ValidImage crate bytes) :
    FileClean crate bytes := by
  have himage : ∀ ids (c : Container), c.Fits → FileClean crate (c.image crate ids) :=
    fun ids c hf => ⟨_, body_clean crate ids c (toLe (crate.crc32c (c.body crate ids))) hf⟩
  rcases h with ⟨build, s, hf, hs⟩ | ⟨build, c, hf, hc⟩
  · by_cases he : s.Encodable
    · rw [sagaImage_eq crate build s he hf, Outcome.ok.injEq] at hs
      rw [← hs]
      exact himage sagaSectionIds s.container hf
    -- A saga that cannot be encoded has no image.
    · rcases sagaImage_isErr crate build s he with ⟨e, herr⟩
      rw [herr] at hs
      cases hs
  · by_cases hname : c.kvMeta.ShortName
    · rw [kvCacheImage_eq crate build c hname hf, Outcome.ok.injEq] at hc
      rw [← hc]
      exact himage kvSectionIds c.container hf
    · rcases kvCacheImage_isErr crate build c hname with ⟨e, herr⟩
      rw [herr] at hc
      cases hc

end

/-! ### The system -/

variable {π δ ι : Type} [DecidableEq π] [DecidableEq δ] [DecidableEq ι]

/-- Opening a file sees the content it has at that moment. -/
def Opens (host : Host π δ) (s : Storage δ Bytes) (path : Bytes)
    (opened : Except IoError Stream) : Prop :=
  match (host.tree.resolveFile path).bind s.lookup with
  | none => ∃ e, opened = .error e
  | some file => ∃ f, opened = .ok f ∧ f.bytes = s.content file ∧ f.pos = 0 ∧ f.Short

omit [DecidableEq π] [DecidableEq δ] in
/-- What was opened is there. -/
theorem found_of_opens {host : Host π δ} {s : Storage δ Bytes} {path : Bytes} (f : Stream)
    (h : Opens host s path (.ok f)) :
    ∃ k file, host.tree.resolveFile path = some k ∧ s.lookup k = some file ∧
      f.bytes = s.content file ∧ f.pos = 0 ∧ f.Short := by
  unfold Opens at h
  cases hk : host.tree.resolveFile path with
  | none =>
      rw [hk] at h
      rcases h with ⟨e, he⟩
      cases he
  | some k =>
      rw [hk, Option.bind_some] at h
      cases hfile : s.lookup k with
      | none =>
          rw [hfile] at h
          rcases h with ⟨e, he⟩
          cases he
      | some file =>
          rw [hfile] at h
          rcases h with ⟨f', hf, hrest⟩
          cases hf
          exact ⟨k, file, rfl, hfile, hrest⟩

omit [DecidableEq π] [DecidableEq δ] in
/-- What is there can be opened. -/
theorem opened_of_lookup {host : Host π δ} {s : Storage δ Bytes} {path : Bytes}
    {opened : Except IoError Stream} (h : Opens host s path opened) (k : δ × Bytes) (file : Nat)
    (hk : host.tree.resolveFile path = some k) (hfile : s.lookup k = some file) :
    ∃ f, opened = .ok f ∧ f.bytes = s.content file ∧ f.Short := by
  unfold Opens at h
  rw [hk, Option.bind_some, hfile] at h
  rcases h with ⟨f, hf, hbytes, _, hshort⟩
  exact ⟨f, hf, hbytes, hshort⟩

/-- What the system answers at one moment. A listing has names that are there, of files
    or of directories. What an entry is may come from the listing, or from a look at what
    is there by now, so it is left open. -/
structure Answered (host : Host π δ) (dir : Bytes) (s : Storage δ Bytes) (answer : Answers) :
    Prop where
  listed : ∀ es, answer (.readDir dir) = .ok es → ∃ d, host.tree.resolveDir dir = some d ∧
    ∀ name, .ok name ∈ es → Path.IsName name ∧
      (s.lookup (d, name) ≠ none ∨ host.tree.enter d name ≠ none)
  probed : ∀ path, Opens host s path (answer (.probe path))
  scrubbed : ∀ path, Opens host s path (answer (.scrub path))

/-- The calls on a machine, and a pass over one of its directories. -/
structure Live (π δ ι : Type) where
  world : World π δ ι
  pass : DirPc

/-- One event of a call, or one question of the pass. -/
inductive Live.Step (crate : Crc32cCrate) (build : Build) (host : Host π δ) (calls : Calls ι π)
    (dir : Bytes) (allowed : Live π δ ι → Prop) : Live π δ ι → Live π δ ι → Prop where
  | write {l : Live π δ ι} {w : World π δ ι} (i : ι) (c : Choice)
      (h : l.world.step (calls.exec host) i c = some w) :
      Step crate build host calls dir allowed l ⟨w, l.pass⟩
  | scrub {l : Live π δ ι} (answer : Answers) (hallowed : allowed l)
      (h : Answered host dir l.world.shared.storage answer) :
      Step crate build host calls dir allowed l ⟨l.world, l.pass.next crate build dir answer⟩

/-- If the path leads to the temp file of a call, the file is there, and the call's writer
    has returned `Ok`. -/
def TempComplete (host : Host π δ) (calls : Calls ι π) (w : World π δ ι) (path : Bytes) : Prop :=
  ∀ i, ∀ tmp ∈ temps (w.events i), ∀ k, host.tree.resolveFile tmp = some k →
    host.tree.resolveFile path = some k →
    w.shared.storage.lookup k ≠ none ∧
      ∃ bytes, Completed (calls.writer i) (w.events i) bytes

/-- What a pass is about to scrub is no temp file, or a complete one that is still there. -/
def Settled (host : Host π δ) (calls : Calls ι π) (l : Live π δ ι) : Prop :=
  ∀ path rest out, l.pass = .scrub path rest out → TempComplete host calls l.world path

/-! ### What the steps preserve -/

/-- The path leads into the directory. -/
def InDir (host : Host π δ) (dir path : Bytes) : Prop :=
  ∀ k, host.tree.resolveFile path = some k → host.tree.resolveDir dir = some k.1

/-- All names of a listing lead into the directory. -/
def Within (host : Host π δ) (dir : Bytes) (es : List (Except IoError Bytes)) : Prop :=
  ∀ name, .ok name ∈ es → InDir host dir (Path.join dir name)

/-- All reports are clean. -/
def AllClean (out : List ScrubReport) : Prop := ∀ r ∈ out, r.isClean = true

/-- The path leads to a temp file, or to a clean file. -/
def Probed (crate : Crc32cCrate) (host : Host π δ) (w : World π δ ι) (path : Bytes) : Prop :=
  ∃ k, host.tree.resolveFile path = some k ∧
    (IsTemp host w k ∨ ∃ bytes, w.shared.storage.read k = some bytes ∧ FileClean crate bytes)

/-- A pass is in order: it is in the directory, its reports are clean, and what it is about
    to scrub was found by its probe. -/
def DirPc.Good (crate : Crc32cCrate) (host : Host π δ) (dir : Bytes) (w : World π δ ι) :
    DirPc → Prop
  | .list => True
  | .fileType path rest out => InDir host dir path ∧ Within host dir rest ∧ AllClean out
  | .probe path rest out => InDir host dir path ∧ Within host dir rest ∧ AllClean out
  | .scrub path rest out => Probed crate host w path ∧ Within host dir rest ∧ AllClean out
  | .done (.ok out) => AllClean out
  | .done _ => False

section

variable {crate : Crc32cCrate} {build : Build} {host : Host π δ} {calls : Calls ι π} {i : ι}
  {w w' : World π δ ι} {pc pc' : ι → Pc δ} {m₀ : Machine π δ} {dir : Bytes} {answer : Answers}

omit [DecidableEq π] [DecidableEq δ] in
theorem good_entries (es : List (Except IoError Bytes)) (out : List ScrubReport)
    (hin : Within host dir es) (hout : AllClean out) :
    (DirPc.entries dir es out).Good crate host dir w := by
  induction es with
  | nil => exact hout
  | cons entry es ih =>
      have hrest : Within host dir es := fun name hname => hin name (List.mem_cons_of_mem _ hname)
      rcases entry with e | name
      · exact ih hrest
      · exact ⟨hin name List.mem_cons_self, hrest, hout⟩

omit [DecidableEq π] [DecidableEq δ] [DecidableEq ι] in
/-- The names of a listing lead into the directory that was listed. -/
theorem within_of_listed (h : Answered host dir w.shared.storage answer)
    (es : List (Except IoError Bytes)) (hes : answer (.readDir dir) = .ok es) :
    Within host dir es := by
  rcases h.listed es hes with ⟨d, hd, hnames⟩
  intro name hname k hk
  have hdir : host.tree.dirOf dir = some d := by
    rw [DirTree.dirOf]
    by_cases hnil : dir = []
    · rw [hnil] at hd
      cases hd
    · rw [if_neg hnil, hd]
  rw [host.tree.resolveFile_join dir name (hnames name hname).1, hdir] at hk
  rw [hd, ← Option.some.inj hk]

omit [DecidableEq δ] in
/-- What the probe found is a temp file, or clean. -/
theorem probed_of_magic (hl : crate.Lawful) (htracked : Tracked calls w pc)
    (h : Contents host calls m₀ (ValidImage crate) w pc)
    (hnames : NamesApart host calls m₀ w)
    (hclean : ∀ d name bytes, host.tree.resolveDir dir = some d →
      m₀.storage.read (d, name) = some bytes → magic.val <+: bytes → ScrubsClean crate build bytes)
    (path : Bytes) (hin : InDir host dir path)
    (hopen : Opens host w.shared.storage path (answer (.probe path)))
    (hprobe : looksLikeHull (answer (.probe path)) = true) : Probed crate host w path := by
  cases hopened : answer (.probe path) with
  | error e =>
      rw [hopened] at hprobe
      cases hprobe
  | ok f =>
      rw [hopened] at hopen hprobe
      rcases found_of_opens f hopen with ⟨k, file, hk, hfile, hbytes, hpos, hshort⟩
      rw [looksLikeHull_short f hshort hpos, hbytes] at hprobe
      have hread : w.shared.storage.read k = some (w.shared.storage.content file) := by
        rw [Storage.read, hfile, Option.map_some]
      refine ⟨k, hk, ?_⟩
      rcases content_cases htracked h hnames k file hfile with ⟨hold, hsame⟩ | hvalid | htemp
      · -- The file was there at the start, with the magic that the probe has seen.
        refine Or.inr ⟨_, hread, (scrubsClean_iff crate build hl _).mp ?_⟩
        rw [hsame] at hprobe ⊢
        refine hclean k.1 k.2 _ (hin k hk) ?_ hprobe
        rw [Storage.read, hold, Option.map_some]
      · exact Or.inr ⟨_, hread, fileClean_of_validImage crate _ hvalid⟩
      · exact Or.inl htemp

omit [DecidableEq δ] in
/-- A settled pass scrubs what its probe has found, and the report is clean. -/
theorem clean_of_probed (hl : crate.Lawful) (hpid : Function.Injective host.pid)
    (htracked : Tracked calls w pc) (h : Contents host calls m₀ (ValidImage crate) w pc)
    (hnames : NamesApart host calls m₀ w) (path : Bytes) (hprobed : Probed crate host w path)
    (hcomplete : TempComplete host calls w path)
    (hopen : Opens host w.shared.storage path (answer (.scrub path))) (report : ScrubReport)
    (hrun : scrubFile crate build path (answer (.scrub path)) = .ok report) :
    report.isClean = true := by
  rcases hprobed with ⟨k, hk, hbehind⟩
  have hfound : ∃ file, w.shared.storage.lookup k = some file ∧
      FileClean crate (w.shared.storage.content file) := by
    rcases hbehind with ⟨i, tmp, hmem, htmp⟩ | ⟨bytes, hread, hgood⟩
    · rcases hcomplete i tmp hmem k htmp hk with ⟨hsome, bytes, hdone⟩
      rcases Option.ne_none_iff_exists'.mp hsome with ⟨file, hfile⟩
      exact ⟨file, hfile, fileClean_of_validImage crate _
        (content_of_temp hpid htracked h hnames hmem htmp hdone hfile)⟩
    · rcases Option.map_eq_some_iff.mp hread with ⟨file, hfile, rfl⟩
      exact ⟨file, hfile, hgood⟩
  rcases hfound with ⟨file, hfile, header, hparse, hall⟩
  rcases opened_of_lookup hopen k file hk hfile with ⟨f, hf, hbytes, hshort⟩
  rw [← hbytes] at hparse hall
  rw [hf, scrubFile_short crate build hl path f hshort header hparse hall, Outcome.ok.injEq] at hrun
  rw [← hrun]
  exact isClean_cleanReport path header

omit [DecidableEq δ] in
/-- One question of a settled pass. -/
theorem good_next (hl : crate.Lawful) (hpid : Function.Injective host.pid)
    (htracked : Tracked calls w pc) (h : Contents host calls m₀ (ValidImage crate) w pc)
    (hnames : NamesApart host calls m₀ w)
    (hclean : ∀ d name bytes, host.tree.resolveDir dir = some d →
      m₀.storage.read (d, name) = some bytes → magic.val <+: bytes → ScrubsClean crate build bytes)
    (pass : DirPc) (hgood : pass.Good crate host dir w)
    (hsettled : Settled host calls ⟨w, pass⟩)
    (hanswer : Answered host dir w.shared.storage answer) :
    (pass.next crate build dir answer).Good crate host dir w := by
  rcases DirPc.moves_next crate build dir answer pass with ⟨result, rfl⟩ | hmove
  · exact hgood
  generalize pass.next crate build dir answer = pass' at hmove
  cases hmove with
  | unlisted e he => exact fun r hr => absurd hr List.not_mem_nil
  | listed es hes =>
      exact good_entries es [] (within_of_listed hanswer es hes) fun r hr =>
        absurd hr List.not_mem_nil
  | skip path rest out hskip => exact good_entries rest out hgood.2.1 hgood.2.2
  | regular path rest out ft hft hfile => exact hgood
  | foreign path rest out hprobe => exact good_entries rest out hgood.2.1 hgood.2.2
  | hull path rest out hprobe =>
      exact ⟨probed_of_magic hl htracked h hnames hclean path hgood.1 (hanswer.probed path) hprobe,
        hgood.2⟩
  | report path rest out r hr =>
      refine good_entries rest _ hgood.2.1 fun r' hr' => ?_
      rcases List.mem_append.mp hr' with hr' | hr'
      · exact hgood.2.2 r' hr'
      · rw [List.mem_singleton.mp hr']
        exact clean_of_probed hl hpid htracked h hnames path hgood.1 (hsettled path rest out rfl)
          (hanswer.scrubbed path) r hr
  | panic path rest out p hp =>
      rcases scrubFile_returns crate build hl path (answer (.scrub path)) with ⟨report, hreport⟩
      rw [hp] at hreport
      cases hreport

/-- One event of a call. -/
theorem good_advance (hpid : Function.Injective host.pid) (htracked : Tracked calls w pc)
    (h : Contents host calls m₀ (ValidImage crate) w pc)
    (hnames : NamesApart host calls m₀ w') (hadv : Advance host calls i w pc w' pc')
    (pass : DirPc) (hgood : pass.Good crate host dir w) : pass.Good crate host dir w' := by
  cases pass with
  | scrub path rest out =>
      rcases hgood with ⟨⟨k, hk, hbehind⟩, hrest⟩
      refine ⟨⟨k, hk, ?_⟩, hrest⟩
      rcases hbehind with ⟨j, tmp, hmem, htmp⟩ | ⟨bytes, hread, hbytes⟩
      · exact Or.inl ⟨j, tmp, temps_advance hadv j tmp hmem, htmp⟩
      · exact stays_advance (fileClean_of_validImage crate) htracked h hpid hnames hadv k
          bytes hread hbytes
  | done result =>
      cases result with
      | ok out => exact hgood
      | err e => exact e.elim
      | panic p => exact hgood
  | _ => exact hgood

/-- What holds of every run of a pass beside calls. -/
theorem good_of_reaches (hl : crate.Lawful) (hpid : Function.Injective host.pid)
    (hwriters : ∀ i, (calls.writer i).Yields (ValidImage crate) [])
    (hclean : ∀ d name bytes, host.tree.resolveDir dir = some d →
      m₀.storage.read (d, name) = some bytes → magic.val <+: bytes → ScrubsClean crate build bytes)
    (l : Live π δ ι) (hrun : Relation.ReflTransGen (Live.Step crate build host calls dir
      (Settled host calls)) ⟨calls.start m₀, .list⟩ l) :
    ∃ pc, Tracked calls l.world pc ∧ Contents host calls m₀ (ValidImage crate) l.world pc ∧
      (NamesApart host calls m₀ l.world → l.pass.Good crate host dir l.world) := by
  induction hrun with
  | refl =>
      exact ⟨_, ⟨fun i => prog_start _ _, fun i => .start⟩, contents_start hwriters,
        fun _ => trivial⟩
  | tail _ hstep ih =>
      rcases ih with ⟨pc, htracked, hinv, hgood⟩
      cases hstep with
      | write i c hworld =>
          rcases advance_of_step htracked c hworld with ⟨pc', hadv⟩
          refine ⟨pc', tracked_advance htracked hadv, contents_advance hpid htracked hinv hadv,
            fun hnames => ?_⟩
          exact good_advance hpid htracked hinv hnames hadv _ (hgood (hnames.before hadv))
      | scrub answer hsettled hanswer =>
          exact ⟨pc, htracked, hinv, fun hnames =>
            good_next hl hpid htracked hinv hnames hclean _ (hgood hnames) hsettled hanswer⟩

end

/-- A pass over a directory whose hull files scrub clean, beside any number of calls that
    write valid images to wherever and however they like: if it scrubs a temp file only when
    that is complete and still there, it ends with reports that are all clean. -/
theorem scrubDir_beside_writers (crate : Crc32cCrate) (hl : crate.Lawful) (build : Build)
    (host : Host π δ) (hpid : Function.Injective host.pid) (calls : Calls ι π) (m₀ : Machine π δ)
    (dir : Bytes) (hwriters : ∀ i, (calls.writer i).Yields (ValidImage crate) [])
    (hclean : ∀ d name bytes, host.tree.resolveDir dir = some d →
      m₀.storage.read (d, name) = some bytes → magic.val <+: bytes → ScrubsClean crate build bytes)
    (l : Live π δ ι) (hrun : Relation.ReflTransGen (Live.Step crate build host calls dir
      (Settled host calls)) ⟨calls.start m₀, .list⟩ l)
    (hnames : NamesApart host calls m₀ l.world) (result : Outcome Empty (List ScrubReport))
    (hdone : l.pass = .done result) :
    ∃ reports, result = .ok reports ∧ ∀ r ∈ reports, r.isClean = true := by
  rcases good_of_reaches hl hpid hwriters hclean l hrun with ⟨pc, _, _, hgood⟩
  have hpass := hgood hnames
  rw [hdone] at hpass
  cases result with
  | ok reports => exact ⟨reports, rfl, hpass⟩
  | err e => exact e.elim
  | panic p => exact hpass.elim

/-! ### A pass beside one call -/

section

variable (crate : Crc32cCrate) (build : Build) {host : Host π δ} (calls : Calls ι π) {dir : Bytes}
  (allowed : Live π δ ι → Prop)

/-- The calls go on while the pass waits. -/
theorem Live.reaches_write (pass : DirPc) (w w' : World π δ ι)
    (h : w.Reaches (calls.exec host) (fun _ _ => True) w') :
    Relation.ReflTransGen (Live.Step crate build host calls dir allowed) ⟨w, pass⟩ ⟨w', pass⟩ := by
  induction h with
  | refl => exact .refl
  | tail _ hlast ih =>
      rcases hlast with ⟨i, c, _, hlast⟩
      exact ih.tail (.write i c hlast)

/-- The pass goes from its start to its end while the calls wait. -/
theorem Live.reaches_scrubDir (answer : Answers) (w : World π δ ι)
    (hanswer : Answered host dir w.shared.storage answer)
    (hallowed : ∀ n, allowed ⟨w, (DirPc.next crate build dir answer)^[n] .list⟩) :
    Relation.ReflTransGen (Live.Step crate build host calls dir allowed) ⟨w, .list⟩
      ⟨w, .done (scrubDir crate build dir answer)⟩ := by
  rcases DirPc.runs_scrubDir crate build dir answer with ⟨n, hn⟩
  rw [← hn]
  clear hn
  induction n with
  | zero => exact .refl
  | succ n ih =>
      rw [Function.iterate_succ_apply']
      exact ih.tail (.scrub answer (hallowed n) hanswer)

end

section

variable (host : Host π δ) (s : Storage δ Bytes) (path : Bytes)

/-- Opening a file of a disk in order. -/
def openFile : Except IoError Stream :=
  match (host.tree.resolveFile path).bind s.lookup with
  | none => .error notFound
  | some file => .ok (Stream.ofBytes (s.content file))

/-- The answers of a system in order whose directory has these names, all of regular
    files. -/
def answersOf (names : List Bytes) : Answers
  | .readDir _ => .ok (names.map .ok)
  | .fileType _ => .ok .file
  | .probe path => openFile host s path
  | .scrub path => openFile host s path

omit [DecidableEq π] [DecidableEq δ] in
theorem openFile_eq (k : δ × Bytes) (file : Nat) (hk : host.tree.resolveFile path = some k)
    (hfile : s.lookup k = some file) :
    openFile host s path = .ok (Stream.ofBytes (s.content file)) := by
  rw [openFile, hk, Option.bind_some, hfile]

omit [DecidableEq π] [DecidableEq δ] in
theorem opens_openFile : Opens host s path (openFile host s path) := by
  unfold Opens openFile
  cases (host.tree.resolveFile path).bind s.lookup with
  | none => exact ⟨_, rfl⟩
  | some file => exact ⟨_, rfl, rfl, rfl, Stream.short_ofBytes _⟩

omit [DecidableEq π] [DecidableEq δ] in
theorem answered_answersOf (dir : Bytes) (d : δ) (names : List Bytes)
    (hdir : host.tree.resolveDir dir = some d)
    (hnames : ∀ name ∈ names, Path.IsName name ∧ s.lookup (d, name) ≠ none) :
    Answered host dir s (answersOf host s names) where
  listed := by
    intro es hes
    refine ⟨d, hdir, fun name hname => ?_⟩
    rw [← Except.ok.inj hes] at hname
    rcases List.mem_map.mp hname with ⟨name', hmem, heq⟩
    rw [← Except.ok.inj heq]
    exact ⟨(hnames name' hmem).1, Or.inl (hnames name' hmem).2⟩
  probed := opens_openFile host s
  scrubbed := opens_openFile host s

end

/-- A writer goes on only if all bytes of a write have been taken. -/
def onWhole (len : Nat) (next : Writer) : Except IoError Nat → Writer
  | .error e => .ret (.error (.io e))
  | .ok count => if count = len then next else .ret (.error (.malformed "short write"))

/-- A writer that writes a file in two pieces. -/
def writeInTwo (first second : Bytes) : Writer :=
  .write 0 first (onWhole first.length
    (.write first.length second (onWhole second.length (.ret (.ok ())))))

theorem yields_onWhole (P : Bytes → Prop) (pos : Nat) (bytes content : Bytes) (next : Writer)
    (h : next.Yields P (writeAt content pos bytes)) :
    (Writer.write pos bytes (onWhole bytes.length next)).Yields P content := by
  refine ⟨fun _ => trivial, fun count _ => ?_⟩
  by_cases hcount : count = bytes.length
  · rw [onWhole, if_pos hcount, hcount, List.take_length]
    exact h
  · rw [onWhole, if_neg hcount]
    trivial

theorem yields_writeInTwo (P : Bytes → Prop) (first second : Bytes) (h : P (first ++ second)) :
    (writeInTwo first second).Yields P [] := by
  refine yields_onWhole P 0 first [] _ ?_
  refine yields_onWhole P first.length second _ (.ret (.ok ())) ?_
  have hboth := writeAt_writeAt [] first second 0
  rw [Nat.zero_add, writeAt_nil_zero (first ++ second)] at hboth
  rw [hboth]
  exact h

theorem sampleSagaFile_valid : ValidImage castagnoli sampleSagaFile :=
  Or.inl ⟨.release, sampleSaga, sampleSaga_fits, sagaImage_eq castagnoli .release sampleSaga
    sampleSaga_encodable sampleSaga_fits⟩

/-- One call on `x`, whose writer first writes the magic of the sample file, and then the
    rest of it. -/
def pieceCalls : Calls Unit Unit where
  proc := fun _ => ()
  target := fun _ => [0x78]
  writer := fun _ => writeInTwo magic.val (sampleSagaFile.drop 8)

theorem pieceCalls_yields (i : Unit) :
    (pieceCalls.writer i).Yields (ValidImage castagnoli) [] := by
  have hpieces : magic.val ++ sampleSagaFile.drop 8 = sampleSagaFile := by
    rcases Container.magic_prefix_image castagnoli sagaSectionIds sampleSaga.container with
      ⟨rest, hrest⟩
    rw [sampleSagaFile, ← hrest, List.drop_left' Header.length_magic]
  refine yields_writeInTwo _ magic.val _ ?_
  rw [hpieces]
  exact sampleSagaFile_valid

/-- The temp name of the call, when the clock says `9`. -/
def pieceName : Bytes := tmpName [0x78] 7 9 0

/-- There was a complete file `x`, and the call has just created its temp file. -/
def emptyTempWorld : World Unit Unit Unit :=
  ((pieceCalls.start (machineWith [0x78] sampleSagaFile)).run (pieceCalls.exec sampleHost)
    [((), .proceed), ((), .clock (some 9)), ((), .proceed), ((), .proceed)]).get (by decide)

/-- The directory was empty, and the call has written eight bytes. -/
def partialWorld : World Unit Unit Unit :=
  ((pieceCalls.start sampleMachine).run (pieceCalls.exec sampleHost)
    [((), .proceed), ((), .clock (some 9)), ((), .proceed), ((), .proceed),
      ((), .wrote 8)]).get (by decide)

theorem emptyTempWorld_reached : (pieceCalls.start (machineWith [0x78] sampleSagaFile)).Reaches
    (pieceCalls.exec sampleHost) (fun _ _ => True) emptyTempWorld :=
  Pool.reaches_of_run _ _ _ (Option.some_get _).symm

theorem partialWorld_reached : (pieceCalls.start sampleMachine).Reaches
    (pieceCalls.exec sampleHost) (fun _ _ => True) partialWorld :=
  Pool.reaches_of_run _ _ _ (Option.some_get _).symm

/-- The names are apart when the call's temp name was free at the start. -/
theorem pieceCalls_namesApart (m₀ : Machine Unit Unit) (w : World Unit Unit Unit)
    (hfew : (issued pieceCalls w ()).length < 2 ^ 64)
    (htemps : temps (w.events ()) = [Path.join [] pieceName])
    (hfree : m₀.storage.lookup ((), pieceName) = none) :
    NamesApart sampleHost pieceCalls m₀ w where
  few := fun _ => hfew
  absent := by
    intro i path k hmem hk
    rw [htemps, List.mem_singleton] at hmem
    rw [hmem] at hk
    rw [← Option.some.inj hk]
    exact hfree
  target := by
    intro i j path k hmem hk htarget
    rw [htemps, List.mem_singleton] at hmem
    rw [hmem, ← htarget] at hk
    have hne : sampleHost.tree.resolveFile (Path.join [] pieceName)
        ≠ sampleHost.tree.resolveFile [0x78] := by decide
    exact hne hk

def emptyTempAnswers : Answers :=
  answersOf sampleHost emptyTempWorld.shared.storage [[0x78], pieceName]

def partialAnswers : Answers := answersOf sampleHost partialWorld.shared.storage [pieceName]

theorem emptyTempWorld_temps : temps (emptyTempWorld.events ()) = [Path.join [] pieceName] := by
  decide

theorem looksLikeHull_nil : looksLikeHull (.ok (Stream.ofBytes [])) = false := by
  rw [Bool.eq_false_iff]
  intro hprobe
  cases List.prefix_nil.mp ((looksLikeHull_ofBytes []).mp hprobe)

/-- The temp file is empty, so the pass does not come to scrub it. -/
theorem emptyTempWorld_settled (n : Nat) : Settled sampleHost pieceCalls
    ⟨emptyTempWorld, (DirPc.next castagnoli .release [0x2e] emptyTempAnswers)^[n] .list⟩ := by
  intro path rest out hpass i tmp hmem k htmp hk
  have hprobe := DirPc.probed_of_iterate castagnoli .release [0x2e] emptyTempAnswers n path rest
    out hpass
  have hname : tmp = Path.join [] pieceName := by
    rw [← List.mem_singleton, ← emptyTempWorld_temps]
    exact hmem
  rw [hname] at htmp
  rw [← htmp] at hk
  have hempty : emptyTempAnswers (.probe path) = .ok (Stream.ofBytes []) :=
    openFile_eq sampleHost emptyTempWorld.shared.storage path ((), pieceName) 1 hk (by decide)
  rw [hempty, looksLikeHull_nil] at hprobe
  cases hprobe

theorem emptyTempWorld_answered :
    Answered sampleHost [0x2e] emptyTempWorld.shared.storage emptyTempAnswers := by
  refine answered_answersOf sampleHost _ [0x2e] () _ rfl ?_
  decide

/-- Of the two entries of the directory, the pass scrubs the first. -/
theorem scrubDir_emptyTempAnswers : ∃ report,
    scrubDir castagnoli .release [0x2e] emptyTempAnswers = .ok [report] := by
  rcases scrubFile_returns castagnoli .release castagnoli_lawful (Path.join [0x2e] [0x78])
    (.ok (Stream.ofBytes sampleSagaFile)) with ⟨report, hreport⟩
  have hmagic := (looksLikeHull_ofBytes sampleSagaFile).mpr
    (Container.magic_prefix_image castagnoli sagaSectionIds sampleSaga.container)
  have hx := scrubEntry_hull castagnoli .release [0x2e] emptyTempAnswers [] [0x78] report rfl
    (by rw [← hmagic]; rfl) (by rw [← hreport]; rfl)
  have htemp := scrubEntry_foreign castagnoli .release [0x2e] emptyTempAnswers [report] pieceName
    rfl (by rw [← looksLikeHull_nil]; rfl)
  refine ⟨report, ?_⟩
  rw [scrubDir_listed castagnoli .release [0x2e] emptyTempAnswers _ rfl, List.map_cons,
    List.map_singleton, List.foldlM_cons, hx, Outcome.ok_bind, List.nil_append, List.foldlM_cons,
    htemp, Outcome.ok_bind]
  rfl

/-- The only file of the start is an image. -/
theorem machineWith_clean (d : Unit) (name bytes : Bytes)
    (hread : (machineWith [0x78] sampleSagaFile).storage.read (d, name) = some bytes) :
    ScrubsClean castagnoli .release bytes := by
  rcases Option.map_eq_some_iff.mp hread with ⟨file, _, rfl⟩
  exact (scrubsClean_iff castagnoli .release castagnoli_lawful sampleSagaFile).mpr
    (fileClean_of_validImage castagnoli sampleSagaFile sampleSagaFile_valid)

/-- The pass scrubs the file `x`, and not the empty temp file. -/
theorem scrubDir_beside_writers_sample :
    emptyTempWorld.shared.storage.read ((), pieceName) = some [] ∧
    ∃ report, scrubDir castagnoli .release [0x2e] emptyTempAnswers = .ok [report] ∧
      report.isClean = true := by
  refine ⟨by decide, ?_⟩
  rcases scrubDir_emptyTempAnswers with ⟨report, hpass⟩
  have hrun := (Live.reaches_write castagnoli .release pieceCalls _ .list _ _
    emptyTempWorld_reached).trans
      (Live.reaches_scrubDir castagnoli .release pieceCalls (Settled sampleHost pieceCalls)
        emptyTempAnswers _ emptyTempWorld_answered emptyTempWorld_settled)
  rcases scrubDir_beside_writers castagnoli castagnoli_lawful .release sampleHost
    (fun _ _ _ => rfl) pieceCalls _ [0x2e] pieceCalls_yields
    (fun d name bytes _ hread _ => machineWith_clean d name bytes hread) _ hrun
    (pieceCalls_namesApart _ _ (by decide) emptyTempWorld_temps (by decide)) _ rfl with
    ⟨reports, hreports, hall⟩
  rw [hpass, Outcome.ok.injEq] at hreports
  refine ⟨report, hpass, hall report ?_⟩
  rw [← hreports]
  exact List.mem_singleton_self report

/-- The directory was empty, and the call writes a valid image. But the pass finds its temp
    file when only the magic has been written, and reports it. -/
theorem scrubDir_reports_temp :
    (∀ i, (pieceCalls.writer i).Yields (ValidImage castagnoli) []) ∧
    (∀ k, sampleMachine.storage.lookup k = none) ∧
    NamesApart sampleHost pieceCalls sampleMachine partialWorld ∧
    ∃ report, Relation.ReflTransGen
        (Live.Step castagnoli .release sampleHost pieceCalls [0x2e] fun _ => True)
        ⟨pieceCalls.start sampleMachine, .list⟩ ⟨partialWorld, .done (.ok [report])⟩ ∧
      report.isClean = false := by
  refine ⟨pieceCalls_yields, fun _ => rfl,
    pieceCalls_namesApart _ _ (by decide) (by decide) (by decide), ?_⟩
  have hprobe := (looksLikeHull_ofBytes magic.val).mpr (List.prefix_refl magic.val)
  rcases scrubFile_returns castagnoli .release castagnoli_lawful (Path.join [0x2e] pieceName)
    (.ok (Stream.ofBytes magic.val)) with ⟨report, hreport⟩
  have hpass : scrubDir castagnoli .release [0x2e] partialAnswers = .ok [report] := by
    have hentry := scrubEntry_hull castagnoli .release [0x2e] partialAnswers [] pieceName report rfl
      (by rw [← hprobe]; rfl) (by rw [← hreport]; rfl)
    rw [scrubDir_listed castagnoli .release [0x2e] partialAnswers _ rfl, List.map_singleton,
      List.foldlM_cons, hentry, Outcome.ok_bind]
    rfl
  have hanswer : Answered sampleHost [0x2e] partialWorld.shared.storage partialAnswers := by
    refine answered_answersOf sampleHost _ [0x2e] () _ rfl ?_
    decide
  refine ⟨report, ?_, ?_⟩
  · rw [← hpass]
    exact (Live.reaches_write castagnoli .release pieceCalls _ .list _ _ partialWorld_reached).trans
      (Live.reaches_scrubDir castagnoli .release pieceCalls _ partialAnswers _ hanswer
        fun _ => trivial)
  -- Eight bytes are no header.
  · by_contra hclean
    rcases scrubFile_of_clean castagnoli .release castagnoli_lawful _ _ (Stream.benign_ofBytes _)
      report hreport (Bool.eq_true_of_not_eq_false hclean) with ⟨header, hparse, _⟩
    have hshort : Header.parse magic.val = .err .truncated := rfl
    rw [Stream.ofBytes, hshort] at hparse
    cases hparse

end SkegHull
