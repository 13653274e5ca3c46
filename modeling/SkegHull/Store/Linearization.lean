import SkegHull.Lib.Cells
import SkegHull.Store.Commits
import SkegHull.Store.Reader
import SkegHull.Store.Value

/-!
# Writers and Readers Together

Any number of calls of `atomicWrite` and any number of readers, in any processes, in any
order of their system calls and with a failure wherever one can happen. From the outside
they are jobs and observers of atomic cells, one cell for each place of a directory: a call
sets its cell when it renames its file, and a reader looks into its cell when it opens the
file. All that happens before and after that is invisible. What a reader has opened is
frozen, so it reads the bytes that were there when it opened the file, however long it
takes, and a mapping of the file does not change under it either.

`Represents` relates the system to the cells, and every step of the system is one step of
the cells or none (`represents_advance`, `represents_next`). So a run of the system is a run
of the cells, and what is known of the cells is known of the system: readers see the
commits in one order, none that was made before they began is missing, and none is made up.

Temp names are no cells. A reader that opens the temp file of a call may find anything.

## Main definitions

* `Readers`: What is read, and how.
* `Store`, `Store.step`: Calls and readers on one machine, and one step of either.
* `cellPlan`: The cells that calls set and readers look into.
* `Apart`: What is assumed of the names.
* `Reading.Sees`, `Represents`: How the system represents the cells.
* `SameResults`: What that says about results.

## Theorems

* `represents_advance`, `represents_next`: One step.
* `simulate`: A run.
* `store_refines`: Every run is a run of the cells, with the same results.
* `read_between`: What a reader returns was there while it ran.
* `opened_stable`: A file that a reader has opened does not change.
-/

namespace SkegHull

open Lib

/-! ### The system -/

/-- What is read, and how. -/
structure Readers (ρ : Type) where
  path : ρ → Bytes
  mode : ρ → ReadMode

/-- The calls on a machine, and the readers of its files. -/
structure Store (π δ ι ρ : Type) where
  world : World π δ ι
  readers : ρ → Reading

variable {π δ ι ρ : Type} [DecidableEq π] [DecidableEq δ] [DecidableEq ι] [DecidableEq ρ]

namespace Store

/-- Nobody has begun. -/
def start (calls : Calls ι π) (m : Machine π δ) : Store π δ ι ρ := ⟨calls.start m, fun _ => .start⟩

/-- One event of a call, or one system call of a reader. -/
def step (host : Host π δ) (calls : Calls ι π) (rd : Readers ρ) (l : Store π δ ι ρ) :
    ι × Choice ⊕ ρ × ReadEvent → Option (Store π δ ι ρ)
  | .inl (i, c) => (l.world.step (calls.exec host) i c).map fun w => ⟨w, l.readers⟩
  | .inr (r, ev) =>
      ((l.readers r).next host.tree l.world.shared.storage (rd.path r) (rd.mode r) ev).map
        fun q => ⟨l.world, Function.update l.readers r q⟩

/-- A schedule of steps. -/
def run (host : Host π δ) (calls : Calls ι π) (rd : Readers ρ) (l : Store π δ ι ρ)
    (schedule : List (ι × Choice ⊕ ρ × ReadEvent)) : Option (Store π δ ι ρ) :=
  schedule.foldlM (step host calls rd) l

/-- The states that steps lead to. -/
def Reaches (host : Host π δ) (calls : Calls ι π) (rd : Readers ρ) :
    Store π δ ι ρ → Store π δ ι ρ → Prop :=
  Relation.ReflTransGen fun l l' => ∃ move, l.step host calls rd move = some l'

/-- A schedule that runs reaches its end. -/
theorem reaches_of_run (host : Host π δ) (calls : Calls ι π) (rd : Readers ρ)
    (schedule : List (ι × Choice ⊕ ρ × ReadEvent)) (l l' : Store π δ ι ρ)
    (h : l.run host calls rd schedule = some l') : l.Reaches host calls rd l' := by
  induction schedule generalizing l with
  | nil =>
      cases h
      exact .refl
  | cons move schedule ih =>
      rw [run, List.foldlM_cons] at h
      rcases Option.bind_eq_some_iff.mp h with ⟨u, hstep, hrest⟩
      exact .head ⟨move, hstep⟩ (ih u hrest)

end Store

/-- The cells: a call sets the place of its target, a reader looks where its path leads. -/
def cellPlan (host : Host π δ) (calls : Calls ι π) (rd : Readers ρ) (content : ι → Bytes) :
    Plan (δ × Bytes) Bytes ι ρ where
  place := fun i => host.tree.resolveFile (calls.target i)
  value := content
  watch := fun r => host.tree.resolveFile (rd.path r)

/-- What is assumed of a run: the names of the calls are apart, and nobody reads a temp
    file. -/
structure Apart (host : Host π δ) (calls : Calls ι π) (rd : Readers ρ) (m₀ : Machine π δ)
    (w : World π δ ι) : Prop where
  names : NamesApart host calls m₀ w
  readers : ∀ r k, host.tree.resolveFile (rd.path r) = some k → ¬ IsTemp host w k

/-! ### One reader -/

/-- The file that a reader has open. -/
def Reading.file : Reading → Option Nat
  | .map file | .advise file _ _ | .read file _ | .load file _ _ => some file
  | .start | .done _ => none

/-- What a reader that stands here has seen in its cell, which `watch` is. -/
def Reading.Sees (s : Storage δ Bytes) (watch : Option (δ × Bytes))
    (seen : Option (Option Bytes)) : Reading → Prop
  | .start => seen = none
  | .map file => seen = some (some (s.content file))
  | .advise file len _ => seen = some (some (s.content file)) ∧ len = (s.content file).length
  | .read file got => seen = some (some (s.content file)) ∧ got <+: s.content file
  | .load file len got => seen = some (some (s.content file)) ∧
      len = (s.content file).length ∧ got <+: s.content file
  | .done (.ok bytes) => seen = some (some bytes)
  | .done (.error e) => e.kind = .notFound → ∀ k, watch = some k → seen = some none

namespace Reading

variable {s s' : Storage δ Bytes} {watch : Option (δ × Bytes)} {seen : Option (Option Bytes)}
  {q q' : Reading} {tree : DirTree δ} {path : Bytes} {mode : ReadMode} {ev : ReadEvent}

omit [DecidableEq δ] in
/-- What a reader has seen stays as long as its file does. -/
theorem Sees.mono (h : q.Sees s watch seen)
    (hkeep : ∀ file, q.file = some file → s'.content file = s.content file) :
    q.Sees s' watch seen := by
  cases q with
  | start => exact h
  | done result =>
      cases result with
      | ok bytes => exact h
      | error e => exact h
  | _ =>
      simp only [Sees, hkeep _ rfl]
      exact h

omit [DecidableEq δ] in
/-- A failure on a file that is there says nothing about what was seen. -/
theorem sees_fails (e : IoError) (h : fails e = some q) : q.Sees s watch seen := by
  rcases (fails_eq_some_iff e q).mp h with ⟨hkind, rfl⟩
  exact fun hfound => absurd hfound hkind

omit [DecidableEq δ] in
/-- Opening a file is to look into its cell, whatever comes of it. -/
theorem sees_open (k : δ × Bytes) (hk : tree.resolveFile path = some k)
    (h : Reading.start.next tree s path mode ev = some q) :
    q.Sees s watch (some (s.read k)) := by
  have hopen : openFile mode (s.lookup k) ev = some q := by
    rw [next, hk, Option.bind_some] at h
    exact h
  cases hfile : s.lookup k with
  | none =>
      have hnone : s.read k = none := by rw [Storage.read, hfile, Option.map_none]
      rw [hfile] at hopen
      rw [hnone]
      cases ev with
      | short most =>
          cases hopen
          exact fun _ _ _ => rfl
      | fail e =>
          cases hopen
          exact fun _ _ _ => rfl
  | some file =>
      have hsome : s.read k = some (s.content file) := by rw [Storage.read, hfile, Option.map_some]
      rw [hfile] at hopen
      rw [hsome]
      cases ev with
      | short most =>
          cases hopen
          cases mode with
          | plain => exact ⟨rfl, List.nil_prefix⟩
          | mapped advice => exact rfl
      | fail e => exact sees_fails e hopen

omit [DecidableEq δ] in
/-- After that a reader learns nothing new. -/
theorem Sees.next (hsees : q.Sees s watch seen) (hq : q ≠ .start)
    (h : q.next tree s path mode ev = some q') : q'.Sees s watch seen := by
  cases q with
  | start => exact absurd rfl hq
  | map file =>
      cases ev with
      | short most =>
          cases h
          rcases mode with _ | _ | advice
          · exact ⟨hsees, rfl, List.nil_prefix⟩
          · exact ⟨hsees, rfl, List.nil_prefix⟩
          · exact ⟨hsees, rfl⟩
      | fail e => exact sees_fails e h
  | advise file len advice =>
      cases h
      exact ⟨hsees.1, hsees.2, List.nil_prefix⟩
  | read file got =>
      rcases hsees with ⟨hseen, hgot⟩
      cases ev with
      | short most =>
          have hmore := append_piece (s.content file) got most
            (piece (s.content file) got most).length hgot
          rw [List.take_length] at hmore
          rw [Reading.next, readPiece] at h
          cases hpiece : piece (s.content file) got most with
          -- Nothing is left, so all of the content has been read.
          | nil =>
              rw [hpiece] at h
              cases h
              have hall := (piece_eq_nil_iff _ got most).mp hpiece
              rw [Sees, hseen, hgot.eq_of_length_le hall]
          | cons b bs =>
              rw [hpiece] at h hmore
              cases h
              exact ⟨hseen, hmore⟩
      | fail e =>
          rw [Reading.next, readPiece] at h
          by_cases hkind : e.kind = .interrupted
          · rw [if_pos hkind] at h
            cases h
            exact ⟨hseen, hgot⟩
          · rw [if_neg hkind] at h
            exact sees_fails e h
  | load file len got =>
      rcases hsees with ⟨hseen, hlen, hgot⟩
      cases ev with
      | short most =>
          rw [Reading.next, loadPiece, if_neg (by omega)] at h
          by_cases hall : len ≤ got.length
          · rw [if_pos hall] at h
            cases h
            rw [Sees, hseen, hgot.eq_of_length_le (hlen ▸ hall)]
          · rw [if_neg hall] at h
            cases h
            exact ⟨hseen, hlen, append_piece (s.content file) got most _ hgot⟩
      | fail e => cases h
  | done result => cases h

theorem file_fails (e : IoError) (h : fails e = some q) : q.file = none := by
  rcases (fails_eq_some_iff e q).mp h with ⟨_, rfl⟩
  rfl

omit [DecidableEq δ] in
/-- A reader keeps its file, or has just found it under its path. -/
theorem file_next (h : q.next tree s path mode ev = some q') (file : Nat)
    (hfile : q'.file = some file) :
    q.file = some file ∨ ∃ k, tree.resolveFile path = some k ∧ s.lookup k = some file := by
  have hfails : ∀ e, fails e = some q' → q.file = some file := by
    intro e he
    rw [file_fails e he] at hfile
    cases hfile
  cases q with
  | start =>
      rw [next] at h
      cases hfound : (tree.resolveFile path).bind s.lookup with
      | none =>
          rw [hfound] at h
          cases ev with
          | short most =>
              cases h
              cases hfile
          | fail e =>
              cases h
              cases hfile
      | some found =>
          rw [hfound] at h
          cases ev with
          | short most =>
              cases h
              rcases Option.bind_eq_some_iff.mp hfound with ⟨k, hk, hlookup⟩
              have heq : found = file := by
                cases mode with
                | plain => exact Option.some.inj hfile
                | mapped advice => exact Option.some.inj hfile
              exact Or.inr ⟨k, hk, heq ▸ hlookup⟩
          | fail e => exact Or.inl (hfails e h)
  | map own =>
      cases ev with
      | short most =>
          cases h
          rcases mode with _ | _ | advice
          · exact Or.inl hfile
          · exact Or.inl hfile
          · exact Or.inl hfile
      | fail e => exact Or.inl (hfails e h)
  | advise own len advice =>
      cases h
      exact Or.inl hfile
  | read own got =>
      rw [next] at h
      cases ev with
      | short most =>
          rw [readPiece] at h
          split at h
          · cases h
            cases hfile
          · cases h
            exact Or.inl hfile
      | fail e =>
          rw [readPiece] at h
          split at h
          · cases h
            exact Or.inl hfile
          · exact Or.inl (hfails e h)
  | load own len got =>
      rw [next] at h
      cases ev with
      | short most =>
          rw [loadPiece] at h
          split at h
          · cases h
          · split at h
            · cases h
              cases hfile
            · cases h
              exact Or.inl hfile
      | fail e => cases h
  | done result => cases h

end Reading

/-! ### One step -/

/-- The cells are what the system looks like from the outside. -/
structure Represents (host : Host π δ) (rd : Readers ρ) (l : Store π δ ι ρ)
    (c : Cells (δ × Bytes) Bytes ι ρ) : Prop where
  commits : c.commits = commits l.world
  holds : ∀ k, ¬ IsTemp host l.world k → l.world.shared.storage.read k = c.holds k
  readers : ∀ r, (l.readers r).Sees l.world.shared.storage
    (host.tree.resolveFile (rd.path r)) (c.seen r)

/-- Every file that a reader has open is frozen. -/
def OpenedFrozen (m₀ : Machine π δ) (pc : ι → Pc δ) (readers : ρ → Reading) : Prop :=
  ∀ r file, (readers r).file = some file → Frozen m₀ pc file

section

variable {host : Host π δ} {calls : Calls ι π} {rd : Readers ρ} {m₀ : Machine π δ}
  {content : ι → Bytes} {l l' : Store π δ ι ρ} {pc pc' : ι → Pc δ} {i : ι} {w w' : World π δ ι}
  {c : Cells (δ × Bytes) Bytes ι ρ}

omit [DecidableEq ρ] in
theorem Apart.before (h : Apart host calls rd m₀ w') (hadv : Advance host calls i w pc w' pc') :
    Apart host calls rd m₀ w where
  names := h.names.before hadv
  readers := fun r k hk htemp => h.readers r k hk (isTemp_advance hadv htemp)

omit [DecidableEq π] [DecidableEq δ] [DecidableEq ρ] in
theorem represents_start : Represents host rd (Store.start calls m₀ : Store π δ ι ρ)
    (Cells.start m₀.storage.read) where
  commits := rfl
  holds := fun _ _ => rfl
  readers := fun _ => rfl

/-- An event of a call is a commit, or cannot be seen. -/
theorem represents_advance (hwriters : WritesContent calls content) (htracked : Tracked calls w pc)
    (hinv : Contents host calls m₀ (fun _ => True) w pc)
    (hadv : Advance host calls i w pc w' pc') (hnames : NamesApart host calls m₀ w')
    (hrun : (calls.start m₀ : World π δ ι).Reaches (calls.exec host) (fun _ _ => True) w')
    {readers : ρ → Reading} (hopened : OpenedFrozen m₀ pc readers)
    (h : Represents host rd ⟨w, readers⟩ c) :
    ∃ c', Cells.Reaches (cellPlan host calls rd content) c c' ∧
      Represents host rd ⟨w', readers⟩ c' := by
  -- The readers go on seeing what they have seen.
  have hreaders : ∀ r, (readers r).Sees w'.shared.storage
      (host.tree.resolveFile (rd.path r)) (c.seen r) := fun r =>
    (h.readers r).mono fun file hfile =>
      (frozen_advance hinv.consistent.files hadv (hopened r file hfile)).2
  have hbefore : ∀ k, ¬ IsTemp host w' k → w.shared.storage.read k = c.holds k :=
    fun k hk => h.holds k fun htemp => hk (isTemp_advance hadv htemp)
  have hcommits : c.commits = commits w := h.commits
  rcases commit_advance hwriters htracked hinv hadv hnames hrun with
    ⟨hsame, hread⟩ | ⟨k, hk, hnew, hone, hread, hother⟩
  · exact ⟨c, .refl, ⟨hcommits.trans hsame.symm, fun k hk => (hread k hk).trans (hbefore k hk),
      hreaders⟩⟩
  · refine ⟨_, .single (.commit i k hk (by rw [hcommits]; exact hnew)), ⟨?_, fun k' hk' => ?_,
      hreaders⟩⟩
    · exact (congrArg (fun is => is ++ [i]) hcommits).trans hone.symm
    · by_cases hkk : k' = k
      · subst hkk
        simp only [Function.update_self]
        exact hread
      · simp only [Function.update_of_ne hkk]
        exact (hother k' hkk hk').trans (hbefore k' hk')

/-- A system call of a reader is a look into its cell, or cannot be seen. -/
theorem represents_next (hapart : Apart host calls rd m₀ l.world) (h : Represents host rd l c)
    (r : ρ) (ev : ReadEvent) (q : Reading)
    (hstep : (l.readers r).next host.tree l.world.shared.storage (rd.path r) (rd.mode r) ev
      = some q) :
    ∃ c', Cells.Reaches (cellPlan host calls rd content) c c' ∧
      Represents host rd ⟨l.world, Function.update l.readers r q⟩ c' := by
  have hsees := h.readers r
  -- A step that the cells do not make leaves the other readers alone.
  have hquiet : q.Sees l.world.shared.storage (host.tree.resolveFile (rd.path r)) (c.seen r) →
      Represents host rd ⟨l.world, Function.update l.readers r q⟩ c := by
    intro hq
    refine ⟨h.commits, h.holds, fun r' => ?_⟩
    by_cases hr : r' = r
    · subst hr
      simp only [Function.update_self]
      exact hq
    · simp only [Function.update_of_ne hr]
      exact h.readers r'
  by_cases hstart : l.readers r = .start
  · rw [hstart] at hstep hsees
    have hunseen : c.seen r = none := hsees
    cases hk : host.tree.resolveFile (rd.path r) with
    -- The path leads nowhere, so there is no cell to look into.
    | none =>
        refine ⟨c, .refl, hquiet ?_⟩
        rw [Reading.next, hk, Option.bind_none] at hstep
        cases ev with
        | short most =>
            cases hstep
            exact fun _ k hk' => absurd (hk.symm.trans hk') (Option.some_ne_none k).symm
        | fail e =>
            cases hstep
            exact fun _ k hk' => absurd (hk.symm.trans hk') (Option.some_ne_none k).symm
    | some k =>
        have hq : q.Sees l.world.shared.storage (host.tree.resolveFile (rd.path r))
            (some (l.world.shared.storage.read k)) := Reading.sees_open k hk hstep
        rw [h.holds k (hapart.readers r k hk)] at hq
        refine ⟨_, .single (.look r k hk hunseen), h.commits, h.holds, fun r' => ?_⟩
        by_cases hr : r' = r
        · subst hr
          simp only [Function.update_self]
          exact hq
        · simp only [Function.update_of_ne hr]
          exact h.readers r'
  · exact ⟨c, .refl, hquiet (hsees.next hstart hstep)⟩

omit [DecidableEq δ] in
/-- What a reader opens is frozen, since it is no temp file. -/
theorem openedFrozen_next (htracked : Tracked calls l.world pc)
    (hinv : Contents host calls m₀ (fun _ => True) l.world pc)
    (hapart : Apart host calls rd m₀ l.world) (h : OpenedFrozen m₀ pc l.readers) (r : ρ)
    (ev : ReadEvent) (q : Reading)
    (hstep : (l.readers r).next host.tree l.world.shared.storage (rd.path r) (rd.mode r) ev
      = some q) : OpenedFrozen m₀ pc (Function.update l.readers r q) := by
  intro r' file hfile
  by_cases hr : r' = r
  · subst hr
    rw [Function.update_self] at hfile
    rcases Reading.file_next hstep file hfile with hown | ⟨k, hk, hlookup⟩
    · exact h r' file hown
    · exact frozen_of_lookup htracked (hinv.explained hapart.names) (hapart.readers r' k hk) file
        hlookup
  · rw [Function.update_of_ne hr] at hfile
    exact h r' file hfile

/-! ### A run -/

/-- What holds of every state of the system. -/
structure Store.Good (host : Host π δ) (calls : Calls ι π) (rd : Readers ρ) (m₀ : Machine π δ)
    (l : Store π δ ι ρ) (pc : ι → Pc δ) : Prop where
  reached : (calls.start m₀ : World π δ ι).Reaches (calls.exec host) (fun _ _ => True) l.world
  tracked : Tracked calls l.world pc
  contents : Contents host calls m₀ (fun _ => True) l.world pc
  opened : Apart host calls rd m₀ l.world → OpenedFrozen m₀ pc l.readers

omit [DecidableEq ρ] in
theorem good_start : (Store.start calls m₀ : Store π δ ι ρ).Good host calls rd m₀
    fun i => .start (calls.target i) where
  reached := .refl
  tracked := ⟨fun _ => prog_start _ _, fun _ => .start⟩
  contents := contents_start fun i => (calls.writer i).yields_true []
  opened := fun _ _ _ hfile => by cases hfile

/-- What a run does from one state to another. -/
structure Simulated (host : Host π δ) (calls : Calls ι π) (rd : Readers ρ) (m₀ : Machine π δ)
    (l : Store π δ ι ρ) (pc : ι → Pc δ) (l' : Store π δ ι ρ) (pc' : ι → Pc δ) : Prop where
  good : l'.Good host calls rd m₀ pc'
  apart : Apart host calls rd m₀ l'.world → Apart host calls rd m₀ l.world
  frozen : ∀ file, Frozen m₀ pc file → Frozen m₀ pc' file ∧
    l'.world.shared.storage.content file = l.world.shared.storage.content file
  cells : ∀ content, WritesContent calls content → Apart host calls rd m₀ l'.world →
    ∀ c, Represents host rd l c → ∃ c', Cells.Reaches (cellPlan host calls rd content) c c' ∧
      Represents host rd l' c'

theorem Simulated.trans {u : Store π δ ι ρ} {q : ι → Pc δ}
    (h : Simulated host calls rd m₀ l pc u q) (h' : Simulated host calls rd m₀ u q l' pc') :
    Simulated host calls rd m₀ l pc l' pc' where
  good := h'.good
  apart := fun hapart => h.apart (h'.apart hapart)
  frozen := fun file hfile =>
    have hu := h.frozen file hfile
    have hl := h'.frozen file hu.1
    ⟨hl.1, hl.2.trans hu.2⟩
  cells := by
    intro content hwriters hapart c hc
    rcases h.cells content hwriters (h'.apart hapart) c hc with ⟨c', hreach, hrep⟩
    rcases h'.cells content hwriters hapart c' hrep with ⟨c'', hreach', hrep'⟩
    exact ⟨c'', hreach.trans hreach', hrep'⟩

theorem simulate_step (hpid : Function.Injective host.pid) (hgood : l.Good host calls rd m₀ pc)
    (move : ι × Choice ⊕ ρ × ReadEvent) (hstep : l.step host calls rd move = some l') :
    ∃ pc', Simulated host calls rd m₀ l pc l' pc' := by
  rcases move with ⟨i, ch⟩ | ⟨r, ev⟩
  · rcases Option.map_eq_some_iff.mp hstep with ⟨w, hevent, rfl⟩
    rcases advance_of_step hgood.tracked ch hevent with ⟨pc', hadv⟩
    have hreached : (calls.start m₀ : World π δ ι).Reaches (calls.exec host) (fun _ _ => True) w :=
      hgood.reached.tail ⟨i, ch, trivial, hevent⟩
    have hfrozen : ∀ file, Frozen m₀ pc file → Frozen m₀ pc' file ∧
        w.shared.storage.content file = l.world.shared.storage.content file :=
      fun file hfile => frozen_advance hgood.contents.consistent.files hadv hfile
    exact ⟨pc', {
      good := ⟨hreached, tracked_advance hgood.tracked hadv,
        contents_advance hpid hgood.tracked hgood.contents hadv,
        fun hapart r file hfile =>
          (hfrozen file (hgood.opened (hapart.before hadv) r file hfile)).1⟩
      apart := fun hapart => hapart.before hadv
      frozen := hfrozen
      cells := fun content hwriters hapart c hc => represents_advance hwriters hgood.tracked
        hgood.contents hadv hapart.names hreached (hgood.opened (hapart.before hadv)) hc }⟩
  · rcases Option.map_eq_some_iff.mp hstep with ⟨q, hnext, rfl⟩
    exact ⟨pc, {
      good := ⟨hgood.reached, hgood.tracked, hgood.contents, fun hapart =>
        openedFrozen_next hgood.tracked hgood.contents hapart (hgood.opened hapart) r ev q hnext⟩
      apart := fun hapart => hapart
      frozen := fun file hfile => ⟨hfile, rfl⟩
      cells := fun _ _ hapart _ hc =>
        have hbefore : Apart host calls rd m₀ l.world := hapart
        represents_next hbefore hc r ev q hnext }⟩

/-- A run of the system is a run of the cells. -/
theorem simulate (hpid : Function.Injective host.pid) (hgood : l.Good host calls rd m₀ pc)
    (hrun : l.Reaches host calls rd l') : ∃ pc', Simulated host calls rd m₀ l pc l' pc' := by
  induction hrun with
  | refl =>
      exact ⟨pc, hgood, fun hapart => hapart, fun file hfile => ⟨hfile, rfl⟩,
        fun _ _ _ c hc => ⟨c, .refl, hc⟩⟩
  | tail _ hlast ih =>
      rcases hlast with ⟨move, hstep⟩
      rcases ih with ⟨q, hsim⟩
      rcases simulate_step hpid hsim.good move hstep with ⟨q', hsim'⟩
      exact ⟨q', hsim.trans hsim'⟩

/-- The calls keep to their protocol, whatever the readers do. -/
theorem tracked_of_reaches (hpid : Function.Injective host.pid)
    (hrun : (Store.start calls m₀).Reaches host calls rd l) : ∃ pc, Tracked calls l.world pc := by
  rcases simulate hpid good_start hrun with ⟨pc, hsim⟩
  exact ⟨pc, hsim.good.tracked⟩

end

/-! ### What holds of every run -/

/-- The results of the calls and of the readers are those of the cells. -/
structure SameResults (host : Host π δ) (rd : Readers ρ) (l : Store π δ ι ρ)
    (c : Cells (δ × Bytes) Bytes ι ρ) : Prop where
  commits : c.commits = commits l.world
  holds : ∀ k, ¬ IsTemp host l.world k → l.world.shared.storage.read k = c.holds k
  idle : ∀ i, l.world.events i = [] → i ∉ c.commits
  ok : ∀ i, l.world.prog i = .ret (.ok ()) → i ∈ c.commits
  err : ∀ i e, l.world.prog i = .ret (.error e) → i ∉ c.commits
  unread : ∀ r, l.readers r = .start → c.seen r = none
  read : ∀ r bytes, l.readers r = .done (.ok bytes) → c.seen r = some (some bytes)
  missing : ∀ r e k, l.readers r = .done (.error e) → e.kind = .notFound →
    host.tree.resolveFile (rd.path r) = some k → c.seen r = some none

omit [DecidableEq π] [DecidableEq δ] [DecidableEq ρ] in
theorem sameResults_of_represents {host : Host π δ} {calls : Calls ι π} {rd : Readers ρ}
    {l : Store π δ ι ρ} {pc : ι → Pc δ} {c : Cells (δ × Bytes) Bytes ι ρ}
    (htracked : Tracked calls l.world pc) (h : Represents host rd l c) :
    SameResults host rd l c where
  commits := h.commits
  holds := h.holds
  idle := fun i hi => h.commits ▸ (commits_of_result htracked).1 hi
  ok := fun i hi => h.commits ▸ (commits_of_result htracked).2.1 hi
  err := fun i e hi => h.commits ▸ (commits_of_result htracked).2.2 e hi
  unread := by
    intro r hr
    have hsees := h.readers r
    rw [hr] at hsees
    exact hsees
  read := by
    intro r bytes hr
    have hsees := h.readers r
    rw [hr] at hsees
    exact hsees
  missing := by
    intro r e k hr hkind hk
    have hsees := h.readers r
    rw [hr] at hsees
    exact hsees hkind k hk

/-- However the system calls of any number of writers and readers are ordered, and wherever
    they fail: what happens is a run of atomic cells in which every call sets its cell once
    and every reader looks into its cell once, and all results are those of the cells. -/
theorem store_refines (host : Host π δ) (calls : Calls ι π) (rd : Readers ρ) (m₀ : Machine π δ)
    (content : ι → Bytes) (hpid : Function.Injective host.pid)
    (hwriters : WritesContent calls content) (l : Store π δ ι ρ)
    (hrun : (Store.start calls m₀).Reaches host calls rd l)
    (hapart : Apart host calls rd m₀ l.world) :
    ∃ c, Cells.Reaches (cellPlan host calls rd content) (Cells.start m₀.storage.read) c ∧
      SameResults host rd l c := by
  rcases simulate hpid good_start hrun with ⟨pc, hsim⟩
  rcases hsim.cells content hwriters hapart _ represents_start with ⟨c, hreach, hrep⟩
  exact ⟨c, hreach, sameResults_of_represents hsim.good.tracked hrep⟩

/-- Two calls on `x`, which write it in one piece and in two. -/
def storeCalls : Calls Bool Unit where
  proc := fun _ => ()
  target := fun _ => [0x78]
  writer := fun
    | true => writeAll 3 0 [1, 2, 3]
    | false => writeAll 3 0 [4, 5]

def storeContent : Bool → Bytes
  | true => [1, 2, 3]
  | false => [4, 5]

theorem storeCalls_write : WritesContent storeCalls storeContent := by
  intro i
  cases i
  · exact writeAll_yields 3 0 [4, 5] [] rfl
  · exact writeAll_yields 3 0 [1, 2, 3] [] rfl

/-- A reader of `x`, which maps it. -/
def storeReaders : Readers Unit := ⟨fun _ => [0x78], fun _ => .mapped (some .sequential)⟩

/-- Up to the rename of the call that is the first to make one. -/
def commitFirst : List (Bool × Choice ⊕ Unit × ReadEvent) :=
  (sampleSchedule.take 13).map .inl

/-- The reader opens the file and maps it. -/
def openAndMap : List (Bool × Choice ⊕ Unit × ReadEvent) :=
  [.inr ((), .short 0), .inr ((), .short 0)]

/-- The other call renames its own file, and the reader takes the bytes in two pieces. -/
def commitAndLoad : List (Bool × Choice ⊕ Unit × ReadEvent) :=
  (sampleSchedule.drop 13).map .inl ++
    [.inr ((), .fail interruption), .inr ((), .short 2), .inr ((), .short 9), .inr ((), .short 0)]

def firstStore : Store Unit Unit Bool Unit :=
  ((Store.start storeCalls sampleMachine).run sampleHost storeCalls storeReaders commitFirst).get
    (by decide +kernel)

def openStore : Store Unit Unit Bool Unit :=
  (firstStore.run sampleHost storeCalls storeReaders openAndMap).get (by decide +kernel)

def lastStore : Store Unit Unit Bool Unit :=
  (openStore.run sampleHost storeCalls storeReaders commitAndLoad).get (by decide +kernel)

theorem firstStore_reached : (Store.start storeCalls sampleMachine).Reaches sampleHost storeCalls
    storeReaders firstStore :=
  Store.reaches_of_run sampleHost storeCalls storeReaders commitFirst _ _ (Option.some_get _).symm

theorem openStore_reached : firstStore.Reaches sampleHost storeCalls storeReaders openStore :=
  Store.reaches_of_run sampleHost storeCalls storeReaders openAndMap _ _ (Option.some_get _).symm

theorem lastStore_reached : openStore.Reaches sampleHost storeCalls storeReaders lastStore :=
  Store.reaches_of_run sampleHost storeCalls storeReaders commitAndLoad _ _
    (Option.some_get _).symm

/-- Calls on `x` and readers of it have their names apart as long as no temp path leads there. -/
theorem sample_apart {ρ : Type} (calls : Calls Bool Unit) (rd : Readers ρ)
    (htarget : ∀ i, sampleHost.tree.resolveFile (calls.target i) = some ((), [0x78]))
    (hpath : ∀ r, sampleHost.tree.resolveFile (rd.path r) = some ((), [0x78]))
    (w : World Unit Unit Bool) (hfew : (issued calls w ()).length < 2 ^ 64)
    (htemps : ∀ i, ∀ tmp ∈ temps (w.events i),
      sampleHost.tree.resolveFile tmp ≠ some ((), [0x78])) :
    Apart sampleHost calls rd sampleMachine w where
  names :=
    { few := fun _ => hfew
      absent := fun _ _ _ _ _ => rfl
      target := fun i j tmp k hmem hk hj =>
        htemps i tmp hmem (hk.trans (hj.symm.trans (htarget j))) }
  readers := by
    rintro r k hk ⟨i, tmp, hmem, htmp⟩
    exact htemps i tmp hmem (htmp.trans (hk.symm.trans (hpath r)))

/-- The run ends with the content that was written last, while the reader returns what was
    there when it opened the file. -/
theorem store_refines_sample :
    lastStore.world.shared.storage.read ((), [0x78]) = some [4, 5] ∧
    lastStore.readers () = .done (.ok [1, 2, 3]) ∧
    ∃ c, Cells.Reaches (cellPlan sampleHost storeCalls storeReaders storeContent)
        (Cells.start sampleMachine.storage.read) c ∧
      SameResults sampleHost storeReaders lastStore c :=
  ⟨by decide +kernel, by decide +kernel,
    store_refines sampleHost storeCalls storeReaders sampleMachine storeContent
      (fun _ _ _ => rfl) storeCalls_write lastStore
      (firstStore_reached.trans (openStore_reached.trans lastStore_reached))
      (sample_apart storeCalls storeReaders (fun _ => rfl) (fun _ => rfl) lastStore.world
        (by decide +kernel) (by decide +kernel))⟩

/-- A reader that has yet to begin in one state and is done in a later one. What it returns is
    what its file contained after some of the commits, all that had been made by the first of
    the states and none that had not been made by the second. If it was told that there is no
    such file, there was none then. -/
theorem read_between (host : Host π δ) (calls : Calls ι π) (rd : Readers ρ)
    (m₀ : Machine π δ) (content : ι → Bytes) (hpid : Function.Injective host.pid)
    (hwriters : WritesContent calls content) (l₀ l : Store π δ ι ρ)
    (hbefore : (Store.start calls m₀).Reaches host calls rd l₀)
    (hrun : l₀.Reaches host calls rd l) (hapart : Apart host calls rd m₀ l.world) (r : ρ)
    (hstart : l₀.readers r = .start) :
    (∀ bytes, l.readers r = .done (.ok bytes) → ∃ k jobs,
      host.tree.resolveFile (rd.path r) = some k ∧
      commits l₀.world <+: jobs ∧ jobs <+: commits l.world ∧
      (cellPlan host calls rd content).after m₀.storage.read k jobs = some bytes) ∧
    (∀ e, l.readers r = .done (.error e) → e.kind = .notFound →
      ∀ k, host.tree.resolveFile (rd.path r) = some k → m₀.storage.read k = none ∧
        ∀ i ∈ commits l₀.world, host.tree.resolveFile (calls.target i) ≠ some k) := by
  rcases simulate hpid good_start hbefore with ⟨pc₀, hsim₀⟩
  rcases simulate hpid hsim₀.good hrun with ⟨pc, hsim⟩
  rcases hsim₀.cells content hwriters (hsim.apart hapart) _ represents_start with
    ⟨c₀, hreach₀, hrep₀⟩
  rcases hsim.cells content hwriters hapart c₀ hrep₀ with ⟨c, hreach, hrep⟩
  have hsame₀ := sameResults_of_represents hsim₀.good.tracked hrep₀
  have hsame := sameResults_of_represents hsim.good.tracked hrep
  -- The reader looks into its cell between the two states.
  have hlook := fun v => Cells.look_between (Cells.valid_of_reaches hreach₀) hreach r v
    (hsame₀.unread r hstart)
  rw [hsame₀.commits, hsame.commits] at hlook
  refine ⟨fun bytes hdone => ?_, fun e hdone hkind k hk => ?_⟩
  · rcases hlook _ (hsame.read r bytes hdone) with ⟨k, jobs, hk, hfirst, hlast, hv⟩
    exact ⟨k, jobs, hk, hfirst, hlast, hv.symm⟩
  · rcases hlook _ (hsame.missing r e k hdone hkind hk) with ⟨k', jobs, hk', hfirst, _, hv⟩
    have hkk : k' = k := Option.some.inj (hk'.symm.trans hk)
    subst hkk
    rcases (Plan.after_eq_none_iff _ _ _ _).mp hv.symm with ⟨hempty, hnone⟩
    exact ⟨hempty, fun i hi => hnone i (hfirst.subset hi)⟩

/-- A file that a reader has open does not change from then on, not even after the reader is
    done: whatever the calls do, they do to other files. -/
theorem opened_stable (host : Host π δ) (calls : Calls ι π) (rd : Readers ρ)
    (m₀ : Machine π δ) (hpid : Function.Injective host.pid) (l₀ l : Store π δ ι ρ)
    (hbefore : (Store.start calls m₀).Reaches host calls rd l₀)
    (hrun : l₀.Reaches host calls rd l) (hapart : Apart host calls rd m₀ l₀.world) (r : ρ)
    (file : Nat) (hopen : (l₀.readers r).file = some file) :
    l.world.shared.storage.content file = l₀.world.shared.storage.content file := by
  rcases simulate hpid good_start hbefore with ⟨pc₀, hsim₀⟩
  rcases simulate hpid hsim₀.good hrun with ⟨pc, hsim⟩
  exact (hsim.frozen file (hsim₀.good.opened hapart r file hopen)).2

/-- The mapped file has another one in its place by now, and is what it was. -/
theorem opened_stable_sample :
    lastStore.world.shared.storage.lookup ((), [0x78]) = some 0 ∧
    (openStore.readers ()).file = some 1 ∧
    lastStore.world.shared.storage.content 1 = openStore.world.shared.storage.content 1 :=
  ⟨by decide +kernel, by decide +kernel,
    opened_stable sampleHost storeCalls storeReaders sampleMachine (fun _ _ _ => rfl) openStore
      lastStore (firstStore_reached.trans openStore_reached) lastStore_reached
      (sample_apart storeCalls storeReaders (fun _ => rfl) (fun _ => rfl) openStore.world
        (by decide +kernel) (by decide +kernel)) () 1
      (by decide +kernel)⟩

end SkegHull
