import SkegHull.Atomic.Durability
import SkegHull.Store.Values

/-!
# Crashes of the Store

What a crash leaves of a store of values. At each place it is what the saves left there up
to some point of the order that everybody agrees on, and that point is behind every save
that has returned `Ok` with a directory in its path. Later saves may be lost, but none is
kept in part, and none that was lost comes between two that were kept.

The point need not be the same at different places: a crash keeps any of the changes of a
directory that were not synchronised. At one place they are the renames onto it since its
directory was last synchronised, and one of these files, or the one from before them, is
what is found there (`Recoverable`).

## Main definitions

* `Stored`: A crash leaves what is at a place.
* `fileAfter`: The file at a place after some of the commits.
* `Recoverable`: The files that a crash can leave at a place.

## Theorems

* `recoverable_advance`: What one event preserves.
* `read_of_recoverable`, `exists_kept`: What is read after a crash.
* `crash_linearizable`: What a crash leaves of the values.
-/

namespace SkegHull

open Lib

variable {π δ ι ρ : Type} [DecidableEq π] [DecidableEq δ] [DecidableEq ι]

/-- A crash leaves what is at this place. -/
structure Stored (s : Storage δ Bytes) (k : δ × Bytes) : Prop where
  only : s.Only k fun x => x = s.lookup k
  stable : ∀ file, s.lookup k = some file → (s.files file).stable = some (s.content file)

/-- The file at a place after some of the commits. -/
def fileAfter (plan : Plan (δ × Bytes) Bytes ι ρ) (m₀ : Machine π δ) (pc : ι → Pc δ)
    (k : δ × Bytes) (jobs : List ι) : Option Nat :=
  (plan.last k jobs).elim (m₀.storage.lookup k) fun i => (pc i).moved

section

variable {plan : Plan (δ × Bytes) Bytes ι ρ} {host : Host π δ} {calls : Calls ι π} {i : ι}
  {w w' : World π δ ι} {pc pc' : ι → Pc δ} {m₀ : Machine π δ} {k : δ × Bytes} {jobs : List ι}

/-- What is at the place, and what a crash can leave there: the file after some of the
    commits, among them all whose directory was synchronised. -/
structure Recoverable (plan : Plan (δ × Bytes) Bytes ι ρ) (m₀ : Machine π δ) (k : δ × Bytes)
    (w : World π δ ι) (pc : ι → Pc δ) : Prop where
  current : w.shared.storage.lookup k = fileAfter plan m₀ pc k (commits w)
  remains : ∃ base, base <+: commits w ∧
    (∀ i, ⟨.syncAll (.dir k.1), .ok ()⟩ ∈ w.events i → i ∈ base) ∧
    w.shared.storage.Only k fun x => ∃ jobs, base <+: jobs ∧ jobs <+: commits w ∧
      x = fileAfter plan m₀ pc k jobs

omit [DecidableEq π] [DecidableEq ι] in
theorem fileAfter_concat (hi : plan.place i = some k) :
    fileAfter plan m₀ pc k (jobs ++ [i]) = (pc i).moved := by
  rw [fileAfter, Plan.last_concat, if_pos hi, Option.elim_some]

omit [DecidableEq π] [DecidableEq ι] in
theorem fileAfter_concat_of_ne (hi : plan.place i ≠ some k) :
    fileAfter plan m₀ pc k (jobs ++ [i]) = fileAfter plan m₀ pc k jobs := by
  rw [fileAfter, Plan.last_concat, if_neg hi, fileAfter]

omit [DecidableEq π] [DecidableEq ι] in
/-- What is at a place after commits that were made does not change any more. -/
theorem fileAfter_congr (h : ∀ i ∈ jobs, (pc' i).moved = (pc i).moved) :
    fileAfter plan m₀ pc' k jobs = fileAfter plan m₀ pc k jobs := by
  unfold fileAfter
  cases hlast : plan.last k jobs with
  | none => rfl
  | some i => exact h i (Plan.mem_of_last plan k jobs i hlast)

omit [DecidableEq π] [DecidableEq δ] in
/-- An event is an old one of its call, or the one that was made last. -/
theorem mem_append_event {m : Machine π δ} {prog : ι → Program (@Reply δ) (Except Error Unit)}
    {j : ι} {e e' : Event (@Reply δ)}
    (h : e ∈ (⟨m, prog, w.log ++ [(i, e')]⟩ : World π δ ι).events j) :
    e ∈ w.events j ∨ j = i ∧ e = e' := by
  rw [Pool.mem_events_iff] at h
  rcases List.mem_append.mp h with hold | hnew
  · exact Or.inl ((Pool.mem_events_iff w j e).mpr hold)
  · exact Or.inr (Prod.mk.inj (List.mem_singleton.mp hnew))

omit [DecidableEq π] in
theorem recoverable_start (hstored : Stored m₀.storage k) :
    Recoverable plan m₀ k (calls.start m₀ : World π δ ι) fun i => .start (calls.target i) where
  current := rfl
  remains := ⟨[], List.prefix_rfl, fun _ h => (nomatch h), hstored.only.mono fun _ hx =>
    ⟨[], List.prefix_rfl, List.prefix_rfl, hx⟩⟩

/-- One event: a rename onto the place adds a file that a crash can leave there, and after
    the directory was synchronised there is only one. -/
theorem recoverable_advance (hplace : ∀ i, plan.place i = host.tree.resolveFile (calls.target i))
    (htracked : Tracked calls w pc) (hheld : Held host w pc)
    (hadv : Advance host calls i w pc w' pc') (htemp : ¬ IsTemp host w' k)
    (h : Recoverable plan m₀ k w pc) : Recoverable plan m₀ k w' pc' := by
  have htracked' := tracked_advance htracked hadv
  have htried : ∀ tmp, (pc' i).tried = some tmp → host.tree.resolveFile tmp ≠ some k :=
    fun tmp htried hk => htemp (isTemp_of_tried htracked' htried hk)
  cases hadv with
  | @mk q q' o r m c hq hexec hnext =>
      subst hq
      rw [Function.update_self] at htried
      rcases h.remains with ⟨base, hbase, hsynced, honly⟩
      -- The calls that have committed keep the files they have renamed.
      have hstill : ∀ jobs, jobs <+: commits w →
          fileAfter plan m₀ (Function.update pc i q') k jobs = fileAfter plan m₀ pc k jobs := by
        intro jobs hjobs
        refine fileAfter_congr fun j hj => ?_
        rcases moved_of_mem_commits htracked (hjobs.subset hj) with ⟨file, hmoved⟩
        rw [hmoved, (nameEffect hexec hnext).moved_update j file hmoved]
      -- What a crash could leave before the event, it can leave still.
      have hlater : ∀ more, w.shared.storage.Only k fun x => ∃ jobs, base <+: jobs ∧
          jobs <+: commits w ++ more ∧
          x = fileAfter plan m₀ (Function.update pc i q') k jobs := by
        refine fun more => honly.mono fun x hx => ?_
        rcases hx with ⟨jobs, hfirst, hlast, hfile⟩
        exact ⟨jobs, hfirst, hlast.trans (List.prefix_append _ _),
          hfile.trans (hstill jobs hlast).symm⟩
      have hcommits := commits_append w m
        (Function.update w.prog i (q'.prog (calls.target i) (calls.writer i))) (i, ⟨o, r⟩)
      cases hcommit : commitOf (i, ⟨o, r⟩) with
      | none =>
          rcases keeps_of_commitOf hexec hnext hcommit htried with ⟨hlookup, hkeep⟩
          rw [hcommit, Option.toList_none, List.append_nil] at hcommits
          refine ⟨?_, ?_⟩
          · rw [hcommits, hstill _ List.prefix_rfl, ← h.current]
            exact hlookup
          rw [hcommits]
          by_cases hsync : (⟨o, r⟩ : Event (@Reply δ)) = ⟨.syncAll (.dir k.1), .ok ()⟩
          -- What is in a synchronised directory is what a crash leaves.
          · cases hsync
            rcases Machine.exec_syncDir host _ _ m c k.1 _ hexec with ⟨_, he, _⟩ | ⟨_, rfl⟩
            · cases he
            refine ⟨commits w, List.prefix_rfl, fun j hj => ?_, Storage.only_syncDir
              ⟨commits w, List.prefix_rfl, List.prefix_rfl, ?_⟩⟩
            · rcases mem_append_event hj with hold | ⟨rfl, _⟩
              · exact hbase.subset (hsynced j hold)
              · rw [mem_commits_iff, renames_of_trace (htracked.trace j)]
                generalize pc j = q at hnext
                cases hnext
                exact List.cons_ne_nil _ _
            · rw [hstill _ List.prefix_rfl, ← h.current]
          · refine ⟨base, hbase, fun j hj => ?_, ?_⟩
            · rcases mem_append_event hj with hold | ⟨_, he⟩
              · exact hsynced j hold
              · exact absurd he.symm hsync
            · have hsame := hlater []
              rw [List.append_nil] at hsame
              exact hkeep _ hsame
      | some j =>
          rcases moves_of_commitOf hexec hnext hcommit (hheld i) with
            ⟨rfl, tmp, own, a, b, hlt, _, rfl, ha, hb, hm⟩
          rw [hcommit, Option.toList_some] at hcommits
          have hmoved : (Function.update pc j (.openDir tmp own) j).moved = some own := by
            rw [Function.update_self]
            rfl
          have hka : k ≠ a := fun heq => htried tmp rfl (heq ▸ ha)
          refine ⟨?_, base, ?_, fun l hl => ?_, ?_⟩
          · rw [hcommits]
            refine (congrArg (Storage.lookup · k) hm).trans ?_
            by_cases hkb : k = b
            · subst hkb
              rw [fileAfter_concat ((hplace j).trans hb), hmoved]
              exact Storage.lookup_move_dst _ a k own hlt
            · rw [fileAfter_concat_of_ne fun hj => hkb
                (Option.some.inj (hj.symm.trans ((hplace j).trans hb))),
                hstill _ List.prefix_rfl, ← h.current]
              exact Storage.lookup_move_of_ne _ a b k own hlt hka hkb
          · rw [hcommits]
            exact hbase.trans (List.prefix_append _ _)
          · rcases mem_append_event hl with hold | ⟨_, he⟩
            · exact hsynced l hold
            · cases he
              cases hcommit
          · have hnew : m.storage.Only k fun x => ∃ jobs, base <+: jobs ∧
                jobs <+: commits w ++ [j] ∧
                x = fileAfter plan m₀ (Function.update pc j (.openDir tmp own)) k jobs := by
              rw [hm]
              refine (hlater [j]).move a b own hlt hka fun hkb => ?_
              exact ⟨commits w ++ [j], hbase.trans (List.prefix_append _ _), List.prefix_rfl,
                by rw [fileAfter_concat ((hplace j).trans (hkb ▸ hb)), hmoved]⟩
            rw [hcommits]
            exact hnew

/-- What calls preserve whose names are apart, in any order. -/
structure Surviving (plan : Plan (δ × Bytes) Bytes ι ρ) (host : Host π δ) (calls : Calls ι π)
    (m₀ : Machine π δ) (k : δ × Bytes) (w : World π δ ι) (pc : ι → Pc δ) : Prop where
  consistent : Consistent host calls m₀ w pc
  recoverable : NamesApart host calls m₀ w → ¬ IsTemp host w k → Recoverable plan m₀ k w pc

theorem surviving_of_reaches (hplace : ∀ i, plan.place i = host.tree.resolveFile (calls.target i))
    (hpid : Function.Injective host.pid) (hstored : Stored m₀.storage k)
    (h : (calls.start m₀ : World π δ ι).Reaches (calls.exec host) (fun _ _ => True) w) :
    ∃ pc, Tracked calls w pc ∧ Surviving plan host calls m₀ k w pc := by
  have hstart : Surviving plan host calls m₀ k (calls.start m₀ : World π δ ι)
      fun i => .start (calls.target i) :=
    ⟨consistent_start, fun _ _ => recoverable_start hstored⟩
  refine reaches_induction hstart ?_ h
  intro w w' pc pc' i _ htracked hinv hadv
  refine ⟨consistent_advance hpid htracked hinv.consistent hadv, fun hnames htemp => ?_⟩
  have hbefore := hnames.before hadv
  exact recoverable_advance hplace htracked (hinv.consistent.sound hbefore).held hadv htemp
    (hinv.recoverable hbefore fun h => htemp (isTemp_advance hadv h))

/-- What is read at the place after a crash. -/
theorem read_of_recoverable {content : ι → Bytes} (hvalue : plan.value = content)
    (hwriters : WritesContent calls content) (htracked : Tracked calls w pc)
    (hfiles : Files m₀ w pc) (hstored : Stored m₀.storage k)
    (hrun : (calls.start m₀ : World π δ ι).Reaches (calls.exec host) (fun _ _ => True) w)
    (h : Recoverable plan m₀ k w pc) {after : Storage δ Bytes}
    (hcrash : w.shared.storage.Recovers after) :
    ∃ jobs, jobs <+: commits w ∧
      (∀ i, ⟨.syncAll (.dir k.1), .ok ()⟩ ∈ w.events i → i ∈ jobs) ∧
      after.read k = plan.after m₀.storage.read k jobs := by
  rcases h.remains with ⟨base, _, hsynced, honly⟩
  rcases honly.lookup_of_recovers hcrash with ⟨jobs, hfirst, hlast, hfile⟩
  refine ⟨jobs, hlast, fun i hi => hfirst.subset (hsynced i hi), ?_⟩
  rw [fileAfter] at hfile
  rw [Storage.read, hfile, Plan.after]
  cases hjob : plan.last k jobs with
  | none =>
      rw [Option.elim_none, Option.elim_none, Storage.read]
      cases hold : m₀.storage.lookup k with
      | none => rfl
      | some file =>
          -- The file was there at the start, so no call has written to it.
          have hlt := m₀.storage.lookup_lt k file hold
          rw [Option.map_some, Option.map_some, hcrash.files file (m₀.storage.content file)
            ((congrArg FileData.stable (hfiles.old file hlt)).trans (hstored.stable file hold))]
  | some i =>
      rcases moved_of_mem_commits htracked
        (hlast.subset (Plan.mem_of_last plan k jobs i hjob)) with ⟨file, hmoved⟩
      -- A file was synchronised before it was renamed.
      have hstable := hfiles.stable i file (Pc.synced_of_moved _ file hmoved)
      have hdone := written_of_completed hwriters htracked hrun
        (completed_of_moved (htracked.trace i) file hmoved)
      rw [Option.elim_some, Option.elim_some, hmoved, Option.map_some,
        hcrash.files file _ hstable, hdone, hvalue]

/-- A crash at any moment. What is left at the place is what was there after some of the calls:
    all that have returned `Ok` and have a directory in their path, if directories can be opened
    and synchronised, and none that has returned an error. -/
theorem exists_kept {content : ι → Bytes} (hvalue : plan.value = content)
    (hplace : ∀ i, plan.place i = host.tree.resolveFile (calls.target i))
    (hwriters : WritesContent calls content) (hpid : Function.Injective host.pid)
    (hrun : (calls.start m₀ : World π δ ι).Reaches (calls.exec host) (fun _ _ => True) w)
    (hnames : NamesApart host calls m₀ w) (htemp : ¬ IsTemp host w k)
    (hstored : Stored m₀.storage k) {after : Storage δ Bytes}
    (hcrash : w.shared.storage.Recovers after) :
    ∃ pc jobs, Tracked calls w pc ∧ jobs <+: commits w ∧
      (∀ i, w.prog i = .ret (.ok ()) → host.tree.resolveFile (calls.target i) = some k →
        Path.parent (calls.target i) ≠ some [] → DirsWork host (w.events i) → i ∈ jobs) ∧
      (∀ i e, w.prog i = .ret (.error e) → i ∉ jobs) ∧
      after.read k = plan.after m₀.storage.read k jobs := by
  rcases surviving_of_reaches hplace hpid hstored hrun with ⟨pc, htracked, hinv⟩
  rcases read_of_recoverable hvalue hwriters htracked hinv.consistent.files hstored hrun
    (hinv.recoverable hnames htemp) hcrash with ⟨jobs, hjobs, hsynced, hread⟩
  refine ⟨pc, jobs, htracked, hjobs, fun i hret hi hparent hdirs => hsynced i ?_,
    fun i e hret hi => (commits_of_result htracked).2.2 e hret (hjobs.subset hi), hread⟩
  rcases (syncedAfterRename_of_ok hrun htracked hret hdirs hparent).mem with ⟨k', hk', hmem⟩
  cases hi.symm.trans hk'
  exact hmem

end

/-- The two values are saved to `./x`. -/
def dottedSaves : Saves Bool Unit := { sampleSaves with path := fun _ => [0x2e, 0x2f, 0x78] }

/-- The cache is saved, and the saga is renamed into its place. -/
def saveAndRename : List (Bool × Choice ⊕ Unit × ReadEvent) :=
  [(true, .proceed), (true, .clock (some 9)), (true, .proceed), (true, .proceed),
    (true, .wrote 322), (true, .proceed), (true, .proceed), (true, .proceed), (true, .proceed),
    (true, .proceed), (false, .proceed), (false, .clock (some 9)), (false, .proceed),
    (false, .proceed), (false, .wrote 243), (false, .proceed), (false, .proceed),
    (false, .proceed)].map .inl

def renamedStore : Store Unit Unit Bool Unit :=
  ((Store.start (dottedSaves.calls castagnoli) sampleMachine).run sampleHost
    (dottedSaves.calls castagnoli) sampleLoads.readers saveAndRename).get (by decide +kernel)

theorem renamedStore_reached : (Store.start (dottedSaves.calls castagnoli) sampleMachine).Reaches
    sampleHost (dottedSaves.calls castagnoli) sampleLoads.readers renamedStore :=
  Store.reaches_of_run sampleHost _ _ saveAndRename _ _ (Option.some_get _).symm

/-- There are no files, and none that a crash could bring back. -/
theorem stored_sampleMachine : Stored sampleMachine.storage ((), [0x78]) where
  only := ⟨rfl, fun _ ho => absurd ho List.not_mem_nil⟩
  stable := fun _ h => nomatch h

theorem renamedStore_lose :
    (renamedStore.world.shared.storage.lose.read ((), [0x78])).map (fun bytes =>
      (sampleLoads.reader ()).finish castagnoli .release (.ok bytes))
      = some (.ok (.kvCache sampleKvCache)) := by
  set_option maxRecDepth 4000 in decide +kernel

end SkegHull
