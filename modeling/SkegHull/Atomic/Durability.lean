import SkegHull.Atomic.Crash

/-!
# Durability

What `Ok` says about the disk. A call that returned `Ok` has renamed its file
onto the target, and the rename survives a crash once the directory that
contains the target was synchronised. The call synchronises the directory that
it can open under the parent of its target, and what becomes of that does not
show in the result.

The parent is empty for a bare file name. The file then lands in the current
directory, but the empty path cannot be opened, so nothing is synchronised and a
crash can undo the rename (`atomicWrite_not_durable`). In every other case the
parent leads to the directory the file is in, and `Ok` means durable, provided
that directories can be opened and synchronised at all.

## Main definitions

* `DirsWork`: Directories can be opened and synchronised.
* `Undisturbed`: No other call touches the names of this one.
* `Durable`: The directory was synchronised, and every crash keeps the content.
* `Pc.Ended`: How the history of a call ends.
* `Kept`: The call's file stays under its names.

## Theorems

* `ended_of_trace`: A call that returned `Ok` ends in one of two ways.
* `syncDir_of_trace`: What a call synchronises, it has opened.
* `kept_advance`, `enduring_of_reaches`: Events and runs preserve `Kept`.
* `resolveDir_dirPath`: Where a parent leads that is not empty.
* `syncedAfterRename_of_ok`: What `Ok` says about the directory then.
* `atomicWrite_durable_iff`: `Ok` means durable, except for a bare file name.
-/

namespace SkegHull

open Lib

variable {π δ ι : Type} [DecidableEq π] [DecidableEq δ] [DecidableEq ι]

/-- Whether an event speaks for the file system: a directory that exists can be
    opened, and an open one can be synchronised. -/
def dirWorks (tree : DirTree δ) : Event (@Reply δ) → Bool
  | ⟨.openDir path, .error _⟩ => (tree.resolveDir path).isNone
  | ⟨.syncAll (.dir _), .error _⟩ => false
  | _ => true

/-- Directories can be opened and synchronised, as far as a history shows. -/
def DirsWork (host : Host π δ) (es : List (Event (@Reply δ))) : Prop :=
  ∀ e ∈ es, dirWorks host.tree e = true

instance (host : Host π δ) (es : List (Event (@Reply δ))) : Decidable (DirsWork host es) :=
  inferInstanceAs (Decidable (∀ e ∈ es, dirWorks host.tree e = true))

/-- No other call touches the target of this one, or its temp file. -/
def Undisturbed (host : Host π δ) (calls : Calls ι π) (w : World π δ ι) (i : ι) : Prop :=
  ∀ j, j ≠ i → ∀ e ∈ w.events j, ∀ path ∈ e.1.paths, ∀ k, host.tree.resolveFile path = some k →
    host.tree.resolveFile (calls.target i) ≠ some k ∧
      ∀ tmp ∈ temps (w.events i), host.tree.resolveFile tmp ≠ some k

/-- The directory that contains the target was synchronised after the rename. -/
def SyncedAfterRename (host : Host π δ) (target : Bytes) (es : List (Event (@Reply δ))) : Prop :=
  ∃ k tmp pre mid post, host.tree.resolveFile target = some k ∧
    es = pre ++ ⟨.rename tmp target, .ok ()⟩ :: (mid ++ ⟨.syncAll (.dir k.1), .ok ()⟩ :: post)

/-- The directory was synchronised after the rename, and whatever a crash does, the
    target has the content that this call wrote, unless another call touched it. -/
structure Durable (host : Host π δ) (calls : Calls ι π) (w : World π δ ι) (i : ι) : Prop where
  synced : SyncedAfterRename host (calls.target i) (w.events i)
  survives : Undisturbed host calls w i → ∀ k r, host.tree.resolveFile (calls.target i) = some k →
    w.shared.storage.Recovers r → r.read k = some (written (w.events i))

omit [DecidableEq π] [DecidableEq δ] in
theorem SyncedAfterRename.mem {host : Host π δ} {target : Bytes} {es : List (Event (@Reply δ))}
    (h : SyncedAfterRename host target es) :
    ∃ k, host.tree.resolveFile target = some k ∧ ⟨.syncAll (.dir k.1), .ok ()⟩ ∈ es := by
  rcases h with ⟨k, tmp, pre, mid, post, hk, rfl⟩
  refine ⟨k, hk, List.mem_append_right _ (List.mem_cons_of_mem _ ?_)⟩
  exact List.mem_append_right _ List.mem_cons_self

/-! ### How a history ends -/

/-- How the history of a call ends that has renamed its file. -/
def Pc.Ended (target : Bytes) (es : List (Event (@Reply δ))) : Pc δ → Prop
  | .openDir tmp _ => ∃ pre, es = pre ++ [⟨.rename tmp target, .ok ()⟩]
  | .syncDir tmp _ dir => ∃ pre, es = pre ++ [⟨.rename tmp target, .ok ()⟩,
      ⟨.openDir (dirPath target), .ok dir⟩]
  | .done tmp _ (.ok _) => ∃ pre t, tmp = some t ∧
      ((∃ e, es = pre ++ [⟨.rename t target, .ok ()⟩, ⟨.openDir (dirPath target), .error e⟩]) ∨
      ∃ dir r, es = pre ++ [⟨.rename t target, .ok ()⟩, ⟨.openDir (dirPath target), .ok dir⟩,
        ⟨.syncAll (.dir dir), r⟩])
  | _ => True

section

variable {target : Bytes} {f : Writer} {es : List (Event (@Reply δ))} {pc : Pc δ}

omit [DecidableEq δ]

theorem ended_of_trace (h : Trace target f es pc) : pc.Ended target es := by
  induction h with
  | start =>
      rcases Pc.start_cases target with h | h
      · rw [h]; trivial
      · rw [h]; trivial
  | @next es pc pc' e _ hnext ih =>
      -- The events behind the rename are in a fixed order, so the state tells the last of them.
      cases hnext with
      | fetchAdd pid time counter =>
          rw [Pc.named]
          cases Path.fileName target <;> trivial
      | createOk tmp file => rcases f with ⟨_ | _⟩ | _ <;> trivial
      | write tmp file pos bytes k r => rcases k r with ⟨_ | _⟩ | _ <;> trivial
      | renameOk tmp file => exact ⟨es, rfl⟩
      | openDirOk tmp file dir =>
          rcases ih with ⟨pre, rfl⟩
          exact ⟨pre, by rw [List.append_assoc]; rfl⟩
      | openDirErr tmp file e =>
          rcases ih with ⟨pre, rfl⟩
          exact ⟨pre, tmp, rfl, Or.inl ⟨e, by rw [List.append_assoc]; rfl⟩⟩
      | syncDir tmp file dir r =>
          rcases ih with ⟨pre, rfl⟩
          exact ⟨pre, tmp, rfl, Or.inr ⟨dir, r, by rw [List.append_assoc]; rfl⟩⟩
      | _ => trivial

/-- What a call synchronises, it has opened, and nothing comes after that. -/
theorem syncDir_of_trace (h : Trace target f es pc) (d : δ) (r : Except IoError Unit)
    (hmem : ⟨.syncAll (.dir d), r⟩ ∈ es) :
    ⟨.openDir (dirPath target), .ok d⟩ ∈ es ∧ ∃ tmp file, pc = .done tmp file (.ok ()) := by
  induction h with
  | start => cases hmem
  | next before hnext ih =>
      rcases List.mem_append.mp hmem with hmem | hmem
      -- A call that has synchronised a directory is done, and has no event left.
      · rcases (ih hmem).2 with ⟨tmp, file, rfl⟩
        cases hnext
      · cases List.mem_singleton.mp hmem
        cases hnext with
        | syncDir tmp file =>
            rcases ended_of_trace before with ⟨pre, rfl⟩
            refine ⟨List.mem_append_left _ (List.mem_append_right _ ?_), _, _, rfl⟩
            exact List.mem_cons_of_mem _ List.mem_cons_self

end

/-! ### What a call keeps -/

/-- The call finds its file under its temp name until it renames it and under its
    target from then on, and so does a crash once the directory was synchronised. -/
structure Kept (host : Host π δ) (i : ι) (k : δ × Bytes) (w : World π δ ι) (pc : ι → Pc δ) :
    Prop where
  held : ∀ tmp file, (pc i).held = some (tmp, file) →
    ∃ a, host.tree.resolveFile tmp = some a ∧ w.shared.storage.lookup a = some file
  moved : ∀ file, (pc i).moved = some file → w.shared.storage.lookup k = some file
  synced : ⟨.syncAll (.dir k.1), .ok ()⟩ ∈ w.events i → ∀ file, (pc i).moved = some file →
    w.shared.storage.Only k fun x => x = some file

section

variable {host : Host π δ} {calls : Calls ι π} {i j : ι} {w w' : World π δ ι} {pc pc' : ι → Pc δ}
  {m₀ : Machine π δ} {k : δ × Bytes}

omit [DecidableEq π] [DecidableEq δ] in
theorem kept_start (htarget : host.tree.resolveFile (calls.target i) = some k) :
    Kept host i k (calls.start m₀ : World π δ ι) fun i => .start (calls.target i) := by
  have hbegin : (Pc.start (calls.target i) : Pc δ) = .begin := by
    rw [Pc.start, (locate_target htarget).1]
  refine ⟨fun tmp file h => ?_, fun file h => ?_, fun h => ?_⟩
  · rw [hbegin] at h
    cases h
  · rw [hbegin] at h
    cases h
  · cases h

theorem Undisturbed.before (h : Undisturbed host calls w' i)
    (hadv : Advance host calls j w pc w' pc') : Undisturbed host calls w i := by
  intro l hl e he path hpath k hk
  rcases h l hl e (mem_events_advance hadv l e he) path hpath k hk with ⟨htarget, htmp⟩
  exact ⟨htarget, fun tmp hmem => htmp tmp (temps_advance hadv i tmp hmem)⟩

/-- An event of the call itself. -/
theorem kept_own (htarget : host.tree.resolveFile (calls.target i) = some k)
    (htracked : Tracked calls w pc) (h : Kept host i k w pc)
    (hadv : Advance host calls i w pc w' pc') : Kept host i k w' pc' := by
  cases hadv with
  | @mk q q' o r m c hq hexec hnext =>
      subst hq
      have heffect := nameEffect hexec hnext
      refine ⟨fun tmp file hheld => ?_, fun file hmoved => ?_, fun hmem file hmoved => ?_⟩
      · rw [Function.update_self] at hheld
        exact heffect.held h.held tmp file hheld
      · rw [Function.update_self] at hmoved
        generalize hq : pc i = q at heffect
        cases heffect with
        | keep hlookup _ _ hsame =>
            exact (hlookup k).trans (h.moved file (by rw [hq, ← hsame, hmoved]))
        | create tmp a w' =>
            rw [Pc.moved_writing] at hmoved
            cases hmoved
        | unlink => cases hmoved
        | move tmp a b f f' ha hb hfile hm =>
            -- The call moves its own file onto the target.
            rw [htarget, Option.some.injEq] at hb
            have hown := eq_of_held (h.held tmp f (by rw [hq]; rfl)) ha hfile
            rw [hm, hb]
            exact (Storage.lookup_move_dst _ a b f' _).trans ((congrArg some hown).trans hmoved)
      · rw [Pool.events_append_self] at hmem
        rw [Function.update_self] at hmoved
        rcases List.mem_append.mp hmem with hmem | hmem
        · -- Nothing comes after the directory was synchronised.
          rcases (syncDir_of_trace (htracked.trace i) k.1 _ hmem).2 with ⟨t, f, hdone⟩
          rw [hdone] at hnext
          cases hnext
        · cases List.mem_singleton.mp hmem
          generalize hq : pc i = q at hnext
          cases hnext with
          | syncDir tmp f =>
              rcases Machine.exec_syncDir host _ _ m c k.1 _ hexec with ⟨_, he, _⟩ | ⟨_, rfl⟩
              · cases he
              -- What is in a synchronised directory is what a crash leaves.
              · exact Storage.only_syncDir (h.moved file (by rw [hq]; exact hmoved))

/-- An event of another call, which leaves both names alone. -/
theorem kept_other (htarget : host.tree.resolveFile (calls.target i) = some k)
    (htracked : Tracked calls w pc) (hund : Undisturbed host calls w' i) (hji : j ≠ i)
    (h : Kept host i k w pc) (hadv : Advance host calls j w pc w' pc') :
    Kept host i k w' pc' := by
  cases hadv with
  | @mk q q' o r m c hq hexec hnext =>
      subst hq
      have hin : (⟨o, r⟩ : Event (@Reply δ)) ∈
          (⟨m, Function.update w.prog j (q'.prog (calls.target j) (calls.writer j)),
            w.log ++ [(j, ⟨o, r⟩)]⟩ : World π δ ι).events j := by
        rw [Pool.events_append_self]
        exact List.mem_append_right _ List.mem_cons_self
      have hsame := Pool.events_append_of_ne w m
        (Function.update w.prog j (q'.prog (calls.target j) (calls.writer j))) j i ⟨o, r⟩
        (Ne.symm hji)
      have hpc : Function.update pc j q' i = pc i := Function.update_of_ne (Ne.symm hji) _ _
      have hframe := Machine.exec_frame host _ _ m c o r hexec k fun path hpath hk =>
        (hund j hji _ hin path hpath k hk).1 htarget
      refine ⟨fun tmp file hheld => ?_, fun file hmoved => ?_, fun hmem file hmoved => ?_⟩
      · rw [hpc] at hheld
        rcases h.held tmp file hheld with ⟨a, ha, hfile⟩
        refine ⟨a, ha, Eq.trans ?_ hfile⟩
        refine (Machine.exec_frame host _ _ m c o r hexec a fun path hpath hk => ?_).1
        refine (hund j hji _ hin path hpath a hk).2 tmp ?_ ha
        rw [hsame]
        exact tried_mem htracked (Pc.tried_of_held _ tmp file hheld)
      · rw [hpc] at hmoved
        exact hframe.1.trans (h.moved file hmoved)
      · rw [hpc] at hmoved
        rw [hsame] at hmem
        exact hframe.2 _ (h.synced hmem file hmoved)

theorem kept_advance (htarget : host.tree.resolveFile (calls.target i) = some k)
    (htracked : Tracked calls w pc) (hund : Undisturbed host calls w' i)
    (h : Kept host i k w pc) (hadv : Advance host calls j w pc w' pc') :
    Kept host i k w' pc' := by
  by_cases hji : j = i
  · subst hji
    exact kept_own htarget htracked h hadv
  · exact kept_other htarget htracked hund hji h hadv

/-- What every event preserves. -/
structure Enduring (host : Host π δ) (calls : Calls ι π) (m₀ : Machine π δ) (i : ι)
    (w : World π δ ι) (pc : ι → Pc δ) : Prop where
  files : Files m₀ w pc
  kept : ∀ k, host.tree.resolveFile (calls.target i) = some k → Undisturbed host calls w i →
    Kept host i k w pc

theorem enduring_of_reaches
    (h : (calls.start m₀ : World π δ ι).Reaches (calls.exec host) (fun _ _ => True) w) (i : ι) :
    ∃ pc, Tracked calls w pc ∧ Enduring host calls m₀ i w pc := by
  have hstart : Enduring host calls m₀ i (calls.start m₀ : World π δ ι)
      fun i => .start (calls.target i) :=
    ⟨files_start calls m₀, fun k htarget _ => kept_start htarget⟩
  refine reaches_induction hstart ?_ h
  intro w w' pc pc' j _ htracked hinv hadv
  refine ⟨files_advance htracked hinv.files hadv, fun k htarget hund => ?_⟩
  exact kept_advance htarget htracked hund (hinv.kept k htarget (hund.before hadv)) hadv

/-- A call that renamed its file had a target that leads somewhere. -/
theorem located_of_renamed
    (h : (calls.start m₀ : World π δ ι).Reaches (calls.exec host) (fun _ _ => True) w)
    (src dst : Bytes) (hmem : ⟨.rename src dst, .ok ()⟩ ∈ w.events i) :
    ∃ k, host.tree.resolveFile dst = some k := by
  rcases Pool.exec_of_mem h i _ hmem with ⟨m, m', c, hexec⟩
  rcases Machine.exec_rename host _ m m' c src dst _ hexec with
    ⟨_, he, _⟩ | ⟨_, k, _, _, hk, _⟩
  · cases he
  · exact ⟨k, hk⟩

/-- A directory that was opened is the one its path leads to. -/
theorem resolveDir_of_opened
    (h : (calls.start m₀ : World π δ ι).Reaches (calls.exec host) (fun _ _ => True) w)
    (path : Bytes) (d : δ) (hmem : ⟨.openDir path, .ok d⟩ ∈ w.events i) :
    host.tree.resolveDir path = some d := by
  rcases Pool.exec_of_mem h i _ hmem with ⟨m, m', c, hexec⟩
  exact (Machine.exec_openDir host _ m m' c path _ hexec).2 d rfl

omit [DecidableEq π] [DecidableEq δ] [DecidableEq ι] in
/-- A parent that is not empty leads to the directory the target is in. -/
theorem resolveDir_dirPath {target : Bytes} (hk : host.tree.resolveFile target = some k)
    (hparent : Path.parent target ≠ some []) :
    host.tree.resolveDir (dirPath target) = some k.1 := by
  rcases locate_target hk with ⟨hdir, _, hof⟩
  rw [DirTree.dirOf, if_neg fun h => hparent (by rw [hdir, h])] at hof
  exact hof

/-- A call that returned `Ok` synchronised the directory of its target, if its parent
    is not empty. -/
theorem syncedAfterRename_of_ok
    (h : (calls.start m₀ : World π δ ι).Reaches (calls.exec host) (fun _ _ => True) w)
    (htracked : Tracked calls w pc) (hret : w.prog i = .ret (.ok ()))
    (hdirs : DirsWork host (w.events i)) (hparent : Path.parent (calls.target i) ≠ some []) :
    SyncedAfterRename host (calls.target i) (w.events i) := by
  rcases htracked.done hret with ⟨t, file, hdone⟩
  have hended := ended_of_trace (htracked.trace i)
  rw [hdone] at hended
  rcases hended with ⟨pre, tmp, _, ⟨e, hes⟩ | ⟨d, r, hes⟩⟩
  · -- The directory could not be opened, though it exists.
    have hrename : ⟨.rename tmp (calls.target i), .ok ()⟩ ∈ w.events i := by
      rw [hes]
      exact List.mem_append_right _ List.mem_cons_self
    have hopen : ⟨.openDir (dirPath (calls.target i)), .error e⟩ ∈ w.events i := by
      rw [hes]
      exact List.mem_append_right _ (List.mem_cons_of_mem _ List.mem_cons_self)
    rcases located_of_renamed h _ _ hrename with ⟨k, hk⟩
    have hnone := hdirs _ hopen
    rw [dirWorks, resolveDir_dirPath hk hparent] at hnone
    cases hnone
  · have hrename : ⟨.rename tmp (calls.target i), .ok ()⟩ ∈ w.events i := by
      rw [hes]
      exact List.mem_append_right _ List.mem_cons_self
    have hopen : ⟨.openDir (dirPath (calls.target i)), .ok d⟩ ∈ w.events i := by
      rw [hes]
      exact List.mem_append_right _ (List.mem_cons_of_mem _ List.mem_cons_self)
    have hsync : ⟨.syncAll (.dir d), r⟩ ∈ w.events i := by
      rw [hes]
      exact List.mem_append_right _
        (List.mem_cons_of_mem _ (List.mem_cons_of_mem _ List.mem_cons_self))
    rcases located_of_renamed h _ _ hrename with ⟨k, hk⟩
    have hd := resolveDir_of_opened h _ d hopen
    rw [resolveDir_dirPath hk hparent, Option.some.injEq] at hd
    cases r with
    | ok _ => exact ⟨k, tmp, pre, [_], [], hk, by rw [hes, hd]; rfl⟩
    | error e => cases hdirs _ hsync

end

/-- `Ok` means durable exactly when the parent of the target is not the empty path,
    that is, when the target is not a bare file name: then the directory that contains
    the target was synchronised after the rename, and every later crash keeps the content
    unless another call touches it. Otherwise it was not synchronised. -/
theorem atomicWrite_durable_iff (host : Host π δ) (calls : Calls ι π) (m₀ : Machine π δ)
    (w : World π δ ι) (i : ι)
    (hrun : (calls.start m₀).Reaches (calls.exec host) (fun _ _ => True) w)
    (hret : w.prog i = .ret (.ok ())) (hdirs : DirsWork host (w.events i)) :
    Durable host calls w i ↔ Path.parent (calls.target i) ≠ some [] := by
  rcases enduring_of_reaches hrun i with ⟨pc, htracked, hinv⟩
  constructor
  · intro hdurable hparent
    rcases hdurable.synced.mem with ⟨k, _, hsync⟩
    -- It would have opened the empty path.
    have hopen := resolveDir_of_opened hrun _ k.1
      (syncDir_of_trace (htracked.trace i) k.1 _ hsync).1
    rw [dirPath, hparent] at hopen
    cases hopen
  · intro hparent
    have hsynced := syncedAfterRename_of_ok hrun htracked hret hdirs hparent
    refine ⟨hsynced, fun hund k r hk hr => ?_⟩
    rcases hsynced.mem with ⟨k', hk', hsync⟩
    rw [hk, Option.some.injEq] at hk'
    subst hk'
    rcases htracked.done hret with ⟨t, f, hdone⟩
    rcases done_ok_of_trace (htracked.trace i) t f hdone with ⟨_, file, _, rfl⟩
    have hmoved : (pc i).moved = some file := by rw [hdone]; rfl
    -- The crash keeps the entry, and with it the content the file was synchronised with.
    have honly := (hinv.kept k hk hund).synced hsync file hmoved
    have hstable := hinv.files.stable i file (Pc.synced_of_moved _ file hmoved)
    rw [Storage.read, honly.lookup_of_recovers hr, Option.map_some, hr.files file _ hstable]

/-- One call that writes three bytes. -/
def soloCalls (target : Bytes) : Calls Unit Unit where
  proc := fun _ => ()
  target := fun _ => target
  writer := fun _ => .write 0 [1, 2, 3] fun _ => .ret (.ok ())

/-- Nothing fails that need not. -/
def soloSchedule (n : Nat) : List (Unit × Choice) :=
  [((), .proceed), ((), .clock none), ((), .proceed), ((), .proceed), ((), .wrote 3)]
    ++ List.replicate n ((), .proceed)

/-- The call on `./x`, up to its return. -/
def dottedWorld : World Unit Unit Unit :=
  (((soloCalls [0x2e, 0x2f, 0x78]).start durableMachine).run
    ((soloCalls [0x2e, 0x2f, 0x78]).exec sampleHost) (soloSchedule 5)).get (by decide)

/-- The call on `x`, up to its return. -/
def bareWorld : World Unit Unit Unit :=
  (((soloCalls [0x78]).start durableMachine).run
    ((soloCalls [0x78]).exec sampleHost) (soloSchedule 4)).get (by decide)

/-- The content that the call wrote to `./x` survives a crash that loses what it
    can. -/
theorem atomicWrite_durable_iff_dotted :
    dottedWorld.shared.storage.lose.read ((), [0x78]) = some [1, 2, 3] ∧
      (Durable sampleHost (soloCalls [0x2e, 0x2f, 0x78]) dottedWorld () ↔
        Path.parent [0x2e, 0x2f, 0x78] ≠ some []) :=
  ⟨by decide, atomicWrite_durable_iff sampleHost (soloCalls [0x2e, 0x2f, 0x78]) durableMachine
    dottedWorld () (Pool.reaches_of_run (soloSchedule 5) _ _ (Option.some_get _).symm) rfl
    (by decide)⟩

/-- The call on the bare name `x` returns `Ok` where directories can be opened and
    synchronised, and a crash brings back what the file held before. -/
theorem atomicWrite_not_durable :
    ((soloCalls [0x78]).start durableMachine).Reaches ((soloCalls [0x78]).exec sampleHost)
      (fun _ _ => True) bareWorld ∧
    bareWorld.prog () = .ret (.ok ()) ∧ DirsWork sampleHost (bareWorld.events ()) ∧
    durableMachine.storage.read ((), [0x78]) = some [9] ∧
    bareWorld.shared.storage.read ((), [0x78]) = some [1, 2, 3] ∧
    bareWorld.shared.storage.Recovers bareWorld.shared.storage.lose ∧
    bareWorld.shared.storage.lose.read ((), [0x78]) = some [9] ∧
    ¬ Durable sampleHost (soloCalls [0x78]) bareWorld () := by
  refine ⟨Pool.reaches_of_run (soloSchedule 4) _ _ (Option.some_get _).symm, rfl, by decide,
    by decide, by decide, Storage.recovers_lose _, by decide, fun hdurable => ?_⟩
  have hund : Undisturbed sampleHost (soloCalls [0x78]) bareWorld () :=
    fun j hj => absurd rfl hj
  have hread := hdurable.survives hund ((), [0x78]) _ (by decide) (Storage.recovers_lose _)
  revert hread
  decide

end SkegHull
