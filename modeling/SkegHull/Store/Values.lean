import SkegHull.Store.Linearization

/-!
# A Store of Values

Directories of hull files as their users see them. Values are saved with `write_to_path`
and loaded with the functions that read by path, in any processes and in any order of
their system calls. A load that gets its file returns what its reader makes of the image of
the value that was saved there last, for one order of the saves that everybody agrees on.
For a value that round trips this is the value, or a format mismatch when it is of the other
format. A cache whose blob does not have the size of its shape can be saved, and is refused
when it is loaded.

So no load returns a mixture of two values, or one that was refused or that failed to be
saved, and a save that has returned `Ok` is seen by every load that begins after that, until
another save takes its place.

## Main definitions

* `Saves`, `Loads`: The calls of the functions.
* `Saves.calls`, `Loads.readers`: What they are made of.
* `PathReader.sees`: What a function that reads by path is to return for a value that round
  trips.
* `Loads.result`, `Loads.expected`: What a load has returned, and what it is to return.

## Theorems

* `finish_bytes`: What a load makes of the bytes of a value that round trips.
* `Loads.expected_eq_sees`: So that is what a load is to return for it.
* `image_ok_of_mem_commits`: No refused value is committed.
* `map_finish_after`: What a load makes of what the saves leave.
* `load_linearizable`: What a load returns.
-/

namespace SkegHull

open Lib

/-- Calls of `write_to_path`. -/
structure Saves (ι π : Type) where
  proc : ι → π
  build : ι → Build
  turns : ι → Nat
  value : ι → Storable
  path : ι → Bytes

/-- What a function that reads by path is to return for a value that round trips. -/
def PathReader.sees (reader : PathReader) (v : HullValue) : Outcome Error HullValue :=
  if v.version = reader.version then .ok v else .err (.formatMismatch v.version reader.version)

/-- Calls of the functions that read by path. -/
structure Loads (ρ : Type) where
  build : ρ → Build
  reader : ρ → PathReader
  path : ρ → Bytes

variable {π δ ι ρ : Type}

namespace Saves

variable (crate : Crc32cCrate) (saves : Saves ι π)

/-- The calls of `atomicWrite` that they make. -/
def calls : Calls ι π where
  proc := saves.proc
  target := saves.path
  writer := fun i => (saves.value i).writer crate (saves.build i) (saves.turns i)

/-- What the files are to contain. -/
def content (i : ι) : Bytes := (saves.value i).bytes crate

theorem writesContent : WritesContent (saves.calls crate) (saves.content crate) :=
  fun i => (saves.value i).writer_yields crate (saves.build i) (saves.turns i)

theorem prog_start (m : Machine π δ) (i : ι) : ((saves.calls crate).start m).prog i
    = (saves.value i).writeToPath crate (saves.build i) (saves.turns i) (saves.path i) := rfl

end Saves

namespace Loads

variable (crate : Crc32cCrate) (loads : Loads ρ)

/-- How the files are read. -/
def readers : Readers ρ := ⟨loads.path, fun r => (loads.reader r).mode⟩

/-- What a load has returned, if it has. -/
def result (l : Store π δ ι ρ) (r : ρ) : Option (Outcome Error HullValue) :=
  match l.readers r with
  | .done got => some ((loads.reader r).finish crate (loads.build r) got)
  | _ => none

/-- What a load is to return when this is the last save at its place, and the file there
    contained this at the start: what its reader makes of the image that was saved, or of the
    bytes at the start. Without either there is no file. -/
def expected (saves : Saves ι π) (r : ρ) (initial : Option Bytes) :
    Option ι → Option (Outcome Error HullValue)
  | none => initial.map fun bytes => (loads.reader r).finish crate (loads.build r) (.ok bytes)
  | some i => some ((loads.reader r).finish crate (loads.build r) (.ok (saves.content crate i)))

theorem result_eq_some_iff (l : Store π δ ι ρ) (r : ρ) (result : Outcome Error HullValue) :
    loads.result crate l r = some result ↔ ∃ got, l.readers r = .done got ∧
      result = (loads.reader r).finish crate (loads.build r) got := by
  unfold Loads.result
  cases l.readers r with
  | done got => simp only [Option.some.injEq, Reading.done.injEq, exists_eq_left', eq_comm]
  | _ => simp only [reduceCtorEq, false_and, exists_false]

end Loads

/-- The bytes of a stored value are read back by the functions of its format, and refused for
    their format by the others. -/
theorem finish_bytes (crate : Crc32cCrate) (build : Build) (reader : PathReader) (v : Storable)
    (hv : v.value.RoundTrips crate build) :
    reader.finish crate build (.ok (v.bytes crate)) = reader.sees v.value := by
  rw [← v.written_eq crate build]
  exact PathReader.finish_written crate build reader v.value hv

/-- When the value of the last save round trips, a load is to return it, or to say that it is
    of the other format. -/
theorem Loads.expected_eq_sees (crate : Crc32cCrate) (loads : Loads ρ) (saves : Saves ι π) (r : ρ)
    (initial : Option Bytes) (i : ι)
    (hv : (saves.value i).value.RoundTrips crate (loads.build r)) :
    loads.expected crate saves r initial (some i)
      = some ((loads.reader r).sees (saves.value i).value) := by
  rw [Loads.expected, Saves.content, finish_bytes crate _ _ _ hv]

variable [DecidableEq π] [DecidableEq δ] [DecidableEq ι] [DecidableEq ρ]

/-- The places that saves set and loads look into. -/
def savePlan (crate : Crc32cCrate) (host : Host π δ) (saves : Saves ι π) (loads : Loads ρ) :
    Plan (δ × Bytes) Bytes ι ρ :=
  cellPlan host (saves.calls crate) loads.readers (saves.content crate)

omit [DecidableEq π] [DecidableEq δ] in
/-- Only a save whose value was accepted is ever committed. -/
theorem image_ok_of_mem_commits (crate : Crc32cCrate) (saves : Saves ι π) {w : World π δ ι}
    {pc : ι → Pc δ} (htracked : Tracked (saves.calls crate) w pc) (i : ι) (h : i ∈ commits w)
    (e : Error) : (saves.value i).value.image crate (saves.build i) ≠ .err e := by
  intro himage
  have hdone : ((saves.value i).writer crate (saves.build i) (saves.turns i)).after
      (replies (w.events i)) = some (.ret (.ok ())) := (completed_of_mem_commits htracked h).2.1
  rw [Storable.writer_refused _ _ _ _ e himage] at hdone
  cases hrs : replies (w.events i) with
  | nil =>
      rw [hrs] at hdone
      cases hdone
  | cons r rs =>
      rw [hrs] at hdone
      cases hdone

omit [DecidableEq π] [DecidableEq ι] [DecidableEq ρ] in
/-- What a load makes of what is there after some of the commits is what it is to return. -/
theorem map_finish_after (crate : Crc32cCrate) (host : Host π δ) (saves : Saves ι π)
    (loads : Loads ρ) (r : ρ) (init : δ × Bytes → Option Bytes) (k : δ × Bytes) (jobs : List ι) :
    ((savePlan crate host saves loads).after init k jobs).map
        (fun bytes => (loads.reader r).finish crate (loads.build r) (.ok bytes)) =
      loads.expected crate saves r (init k) ((savePlan crate host saves loads).last k jobs) := by
  rw [Plan.after]
  cases (savePlan crate host saves loads).last k jobs <;> rfl

/-- A load that has yet to begin in one state and has returned in a later one. It returns what
    it is to return after some of the saves: all that had returned `Ok` by the first of the
    states, none that had returned an error by the second, none of a refused value, and always
    in the order in which they are committed. This is the value of the last of them, if it
    round trips. Or the load returns an I/O error. If that is for want of the file, no save had
    been committed there when the load began. -/
theorem load_linearizable (crate : Crc32cCrate) (host : Host π δ) (saves : Saves ι π)
    (loads : Loads ρ) (m₀ : Machine π δ) (hpid : Function.Injective host.pid)
    (l₀ l : Store π δ ι ρ)
    (hbefore : (Store.start (saves.calls crate) m₀).Reaches host (saves.calls crate)
      loads.readers l₀)
    (hrun : l₀.Reaches host (saves.calls crate) loads.readers l)
    (hapart : Apart host (saves.calls crate) loads.readers m₀ l.world) (r : ρ)
    (hstart : l₀.readers r = .start) (result : Outcome Error HullValue)
    (hresult : loads.result crate l r = some result) :
    (∀ i, l₀.world.prog i = .ret (.ok ()) → i ∈ commits l₀.world) ∧
    (∀ i e, l.world.prog i = .ret (.error e) → i ∉ commits l.world) ∧
    (∀ i ∈ commits l.world, ∀ e, (saves.value i).value.image crate (saves.build i) ≠ .err e) ∧
    (∀ initial i, (saves.value i).value.RoundTrips crate (loads.build r) →
      loads.expected crate saves r initial (some i)
        = some ((loads.reader r).sees (saves.value i).value)) ∧
    ((∃ k jobs, host.tree.resolveFile (loads.path r) = some k ∧
      commits l₀.world <+: jobs ∧ jobs <+: commits l.world ∧
      loads.expected crate saves r (m₀.storage.read k)
        ((savePlan crate host saves loads).last k jobs) = some result) ∨
    ∃ e, result = .err (.io e) ∧ (e.kind = .notFound →
      ∀ k, host.tree.resolveFile (loads.path r) = some k → m₀.storage.read k = none ∧
        ∀ i ∈ commits l₀.world, host.tree.resolveFile (saves.path i) ≠ some k)) := by
  rcases (loads.result_eq_some_iff crate l r result).mp hresult with ⟨got, hdone, rfl⟩
  rcases tracked_of_reaches hpid hbefore with ⟨pc₀, htracked₀⟩
  rcases tracked_of_reaches hpid (hbefore.trans hrun) with ⟨pc, htracked⟩
  refine ⟨fun i => (commits_of_result htracked₀).2.1, fun i => (commits_of_result htracked).2.2,
    image_ok_of_mem_commits crate saves htracked, loads.expected_eq_sees crate saves r, ?_⟩
  have hread := read_between host (saves.calls crate) loads.readers m₀ (saves.content crate)
    hpid (saves.writesContent crate) l₀ l hbefore hrun hapart r hstart
  cases got with
  | ok bytes =>
      rcases hread.1 bytes hdone with ⟨k, jobs, hk, hfirst, hlast, hafter⟩
      refine Or.inl ⟨k, jobs, hk, hfirst, hlast, ?_⟩
      rw [← map_finish_after crate host saves loads r _ k jobs, savePlan, hafter]
      rfl
  | error e => exact Or.inr ⟨e, rfl, fun hkind k hk => hread.2 e hdone hkind k hk⟩

/-- A cache and a saga. -/
def sampleValue : Bool → Storable
  | true => ⟨.kvCache sampleKvCache, sampleKvCache_fits⟩
  | false => ⟨.saga sampleSaga, sampleSaga_fits⟩

/-- Both are saved to `x`. -/
def sampleSaves : Saves Bool Unit where
  proc := fun _ => ()
  build := fun _ => .release
  turns := fun _ => 3
  value := sampleValue
  path := fun _ => [0x78]

/-- A load of a cache from there. -/
def sampleLoads : Loads Unit where
  build := fun _ => .release
  reader := fun _ => KvCache.readFromPathMmapSequential
  path := fun _ => [0x78]

/-- The cache is saved first. -/
def saveFirst : List (Bool × Choice ⊕ Unit × ReadEvent) :=
  [(false, .proceed), (true, .proceed), (false, .clock (some 9)), (true, .clock (some 9)),
    (false, .proceed), (true, .proceed), (false, .proceed), (true, .proceed),
    (true, .wrote 322), (true, .proceed), (true, .proceed), (false, .wrote 100),
    (true, .proceed)].map .inl

/-- The load opens it, the saga takes its place, and the load reads the cache. -/
def saveAndLoad : List (Bool × Choice ⊕ Unit × ReadEvent) :=
  [.inr ((), .short 0), .inr ((), .short 0)] ++
    [(true, .proceed), (false, .wrote 143), (false, .proceed), (false, .proceed),
      (false, .proceed)].map .inl ++
    [.inr ((), .short 0), .inr ((), .short 200), .inr ((), .short 200), .inr ((), .short 0)]

def savedStore : Store Unit Unit Bool Unit :=
  ((Store.start (sampleSaves.calls castagnoli) sampleMachine).run sampleHost
    (sampleSaves.calls castagnoli) sampleLoads.readers saveFirst).get (by decide +kernel)

def loadedStore : Store Unit Unit Bool Unit :=
  (savedStore.run sampleHost (sampleSaves.calls castagnoli) sampleLoads.readers saveAndLoad).get
    (by decide +kernel)

theorem savedStore_reached : (Store.start (sampleSaves.calls castagnoli) sampleMachine).Reaches
    sampleHost (sampleSaves.calls castagnoli) sampleLoads.readers savedStore :=
  Store.reaches_of_run sampleHost _ _ saveFirst _ _ (Option.some_get _).symm

theorem loadedStore_reached : savedStore.Reaches sampleHost (sampleSaves.calls castagnoli)
    sampleLoads.readers loadedStore :=
  Store.reaches_of_run sampleHost _ _ saveAndLoad _ _ (Option.some_get _).symm

theorem loadedStore_result :
    sampleLoads.result castagnoli loadedStore () = some (.ok (.kvCache sampleKvCache)) := by
  set_option maxRecDepth 4000 in decide +kernel

/-- The load returns the cache, though the saga has taken its place when it reads it. -/
theorem load_linearizable_sample :
    commits savedStore.world = [true] ∧ commits loadedStore.world = [true, false] ∧
    sampleLoads.expected castagnoli sampleSaves () none (some true)
      = some (.ok (.kvCache sampleKvCache)) ∧
    ∃ jobs, commits savedStore.world <+: jobs ∧ jobs <+: commits loadedStore.world ∧
      sampleLoads.expected castagnoli sampleSaves ()
        (sampleMachine.storage.read ((), [0x78]))
        ((savePlan castagnoli sampleHost sampleSaves sampleLoads).last ((), [0x78]) jobs)
        = some (.ok (.kvCache sampleKvCache)) := by
  rcases load_linearizable castagnoli sampleHost sampleSaves sampleLoads sampleMachine
    (fun _ _ _ => rfl) savedStore loadedStore savedStore_reached loadedStore_reached
    (sample_apart (sampleSaves.calls castagnoli) sampleLoads.readers (fun _ => rfl) (fun _ => rfl)
      loadedStore.world (by decide +kernel) (by decide +kernel)) () (by decide +kernel) _
    loadedStore_result with ⟨_, _, _, hround, hload⟩
  refine ⟨by decide +kernel, by decide +kernel, hround none true roundTrips_sampleKvCache, ?_⟩
  rcases hload with ⟨k, jobs, hk, hfirst, hlast, hexpected⟩ | ⟨e, he, _⟩
  · cases hk
    exact ⟨jobs, hfirst, hlast, hexpected⟩
  · cases he

end SkegHull
