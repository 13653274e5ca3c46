import SkegHull.Atomic.Durability

/-!
# Failed Calls

What a call that returns an error leaves behind, when only that call runs. Up to
its rename a call touches one name, that of its temp file, and its cleanup
removes whatever is under it. So a failed call whose cleanup went through leaves
every other name as it was, and nothing under that one.

The cleanup also runs when the temp file could not be created, and then what is
under the name is not the call's. That is why a failed call leaves the
directories as they were exactly when there was no file under its temp name at
the start (`failed_unchanged_iff`); otherwise the call fails, and takes the
other file with it (`failed_removes_taken`).

The temp name is determined before the call: by the target, the process, the
clock, and the counter (`tmpPath`).

## Main definitions

* `readings`, `CleanupWorks`: What the clock said, and that no cleanup failed.
* `tmpPath`, `TempAbsent`: The temp path a call will use, and that it is free.
* `Pc.Made`: A state's temp path is that one.
* `Untouched`: Nothing but the temp name has changed before the rename.
* `Failing`: What the events of a call that runs alone preserve.

## Theorems

* `made_next`, `untouched_next`: What one event preserves.
* `failing_of_reaches`: What holds of every run of one call.
* `failed_unchanged_iff`: When a failed call leaves everything as it was.
-/

namespace SkegHull

open Lib

variable {π δ ι : Type} [DecidableEq π] [DecidableEq δ] [DecidableEq ι]

/-- What the clock said, if the event asked it. -/
def readingOf : Event (@Reply δ) → Option (Option Nat)
  | ⟨.now, time⟩ => some time
  | _ => none

/-- What the clock said in a history. -/
def readings (es : List (Event (@Reply δ))) : List (Option Nat) := es.filterMap readingOf

/-- The event is no failure to remove a file. -/
def removes : Event (@Reply δ) → Bool
  | ⟨.removeFile _, .error _⟩ => false
  | _ => true

/-- No cleanup has failed. -/
def CleanupWorks (es : List (Event (@Reply δ))) : Prop := ∀ e ∈ es, removes e = true

instance (es : List (Event (@Reply δ))) : Decidable (CleanupWorks es) :=
  inferInstanceAs (Decidable (∀ e ∈ es, removes e = true))

/-- The temp path of a call that finds the clock at this time. -/
def tmpPath (host : Host π δ) (p : π) (target : Bytes) (m : Machine π δ) (time : Option Nat) :
    Option Bytes :=
  (Path.fileName target).map fun name =>
    Path.join (dirPath target) (tmpName name (host.pid p) (nanosOf time) (m.counter p))

/-- There is no file under that path. -/
def TempAbsent (host : Host π δ) (p : π) (target : Bytes) (m : Machine π δ)
    (time : Option Nat) : Prop :=
  ∀ path k, tmpPath host p target m time = some path → host.tree.resolveFile path = some k →
    m.storage.lookup k = none

/-- The temp path of a state is the one that was determined before the call, or what it
    will be made of is. -/
def Pc.Made (host : Host π δ) (p : π) (target : Bytes) (m₀ : Machine π δ) (time : Option Nat)
    (m : Machine π δ) : Pc δ → Prop
  | .begin => m.counter p = m₀.counter p
  | .clock pid => pid = host.pid p ∧ m.counter p = m₀.counter p
  | .ticket pid t => pid = host.pid p ∧ t = time ∧ m.counter p = m₀.counter p
  | pc => pc.tmp = tmpPath host p target m₀ time

/-- As long as a call has not renamed its file, only its temp name has changed. -/
def Untouched (host : Host π δ) (m₀ : Machine π δ) (s : Storage δ Bytes) (pc : Pc δ) : Prop :=
  pc.moved = none → ∀ k, (∀ tmp, pc.tmp = some tmp → host.tree.resolveFile tmp ≠ some k) →
    s.lookup k = m₀.storage.lookup k

/-! ### One event -/

section

variable {host : Host π δ} {p : π} {target : Bytes} {f : Writer} {m₀ m m' : Machine π δ}
  {c : Choice} {o : Op δ} {r : Reply o} {q q' : Pc δ} {time : Option Nat}

omit [DecidableEq π] [DecidableEq δ] in
theorem Pc.made_of_tmp (h : q.tmp = tmpPath host p target m₀ time) (hsome : q.tmp ≠ none) :
    q.Made host p target m₀ time m := by
  cases q with
  | begin => exact absurd rfl hsome
  | clock pid => exact absurd rfl hsome
  | ticket pid t => exact absurd rfl hsome
  | _ => exact h

omit [DecidableEq π] [DecidableEq δ] in
theorem made_start (h : m.counter p = m₀.counter p) :
    (Pc.start target : Pc δ).Made host p target m₀ time m := by
  unfold Pc.start
  cases hparent : Path.parent target with
  | none =>
      have hname := Path.fileName_of_parent_eq_none target hparent
      have hpath : tmpPath host p target m₀ time = none := by rw [tmpPath, hname, Option.map_none]
      exact hpath.symm
  | some dir => exact h

theorem made_next (hexec : Machine.exec host p o m c = some (r, m'))
    (hnext : q.Next target f ⟨o, r⟩ q')
    (htime : ∀ t ∈ readingOf (⟨o, r⟩ : Event (@Reply δ)), t = time)
    (h : q.Made host p target m₀ time m) : q'.Made host p target m₀ time m' := by
  cases hnext with
  | processId pid =>
      rcases Machine.exec_processId host p m m' c pid hexec with ⟨hpid, rfl⟩
      exact ⟨hpid, h⟩
  | now pid t =>
      rw [Machine.exec_now host p m m' c t hexec]
      exact ⟨h.1, htime t rfl, h.2⟩
  | fetchAdd pid t counter =>
      rcases Machine.exec_fetchAdd host p m m' c counter hexec with ⟨hcounter, _⟩
      rcases h with ⟨rfl, rfl, hsame⟩
      -- The name is made of the three things that were just read.
      have hpath : (Pc.named target (host.pid p) t counter : Pc δ).tmp
          = tmpPath host p target m₀ t := by
        rw [Pc.named, tmpPath, hcounter, hsame]
        cases Path.fileName target <;> rfl
      rw [Pc.named] at hpath ⊢
      cases hname : Path.fileName target with
      | none =>
          rw [hname] at hpath
          exact hpath
      | some name =>
          rw [hname] at hpath
          exact hpath
  | createOk tmp file =>
      have htmp := Pc.tmp_of_tried _ tmp (Pc.tried_writing (δ := δ) tmp file f)
      exact Pc.made_of_tmp (htmp.trans h) (by rw [htmp]; exact Option.some_ne_none tmp)
  | write tmp file pos bytes k r =>
      have htmp := Pc.tmp_of_tried _ tmp (Pc.tried_writing (δ := δ) tmp file (k r))
      exact Pc.made_of_tmp (htmp.trans h) (by rw [htmp]; exact Option.some_ne_none tmp)
  | _ => exact h

omit [DecidableEq π] in
theorem untouched_next {s s' : Storage δ Bytes} {e : Event (@Reply δ)}
    (heffect : NameEffect host.tree target s s' e q q') (hnext : q.Next target f e q')
    (h : Untouched host m₀ s q) : Untouched host m₀ s' q' := by
  intro hmoved k hk
  have hbefore : ∀ tmp, q.tmp = some tmp → host.tree.resolveFile tmp ≠ some k :=
    fun tmp htmp => hk tmp (Pc.tmp_of_tried _ tmp (Pc.tried_of_next hnext tmp htmp))
  have hstill : q.moved = none := by
    by_contra hsome
    rcases Option.ne_none_iff_exists'.mp hsome with ⟨file, hfile⟩
    rw [heffect.moved file hfile] at hmoved
    cases hmoved
  rcases heffect.change k with hsame | ⟨tmp, hused, _, hres⟩ | ⟨_, _, _, _, _, rfl, _⟩
  · exact hsame.trans (h hstill k hbefore)
  · exact absurd hres (hbefore tmp hused)
  -- A call that has renamed its file has touched its target as well.
  · cases hmoved

end

/-! ### A run of one call -/

omit [DecidableEq δ] in
theorem readings_append (es : List (Event (@Reply δ))) (e : Event (@Reply δ)) :
    readings (es ++ [e]) = readings es ++ (readingOf e).toList := by
  rw [readings, List.filterMap_append, readings, List.filterMap_cons, List.filterMap_nil]
  cases readingOf e <;> rfl

section

variable {host : Host π δ} {calls : Calls ι π} {i : ι} {w w' : World π δ ι} {pc pc' : ι → Pc δ}
  {m₀ : Machine π δ} {time : Option Nat}

/-- What the events of a call preserve that runs alone. -/
structure Failing (host : Host π δ) (calls : Calls ι π) (m₀ : Machine π δ) (i : ι)
    (time : Option Nat) (w : World π δ ι) (pc : ι → Pc δ) : Prop where
  files : Files m₀ w pc
  untouched : Untouched host m₀ w.shared.storage (pc i)
  gone : ∀ tmp k, (pc i).gone = some tmp → host.tree.resolveFile tmp = some k →
    w.shared.storage.lookup k = none ∨ ∃ error, ⟨.removeFile tmp, .error error⟩ ∈ w.events i
  made : (∀ t ∈ readings (w.events i), t = time) →
    (pc i).Made host (calls.proc i) (calls.target i) m₀ time w.shared

omit [DecidableEq π] [DecidableEq δ] in
theorem failing_start : Failing host calls m₀ i time (calls.start m₀ : World π δ ι)
    fun i => .start (calls.target i) where
  files := files_start calls m₀
  untouched := fun _ _ _ => rfl
  gone := fun tmp k h => by
    have htmp := Pc.tmp_of_tried _ tmp (Pc.tried_of_gone _ tmp h)
    rw [Pc.tmp_start] at htmp
    cases htmp
  made := fun _ => made_start rfl

theorem failing_advance (htracked : Tracked calls w pc) (h : Failing host calls m₀ i time w pc)
    (hadv : Advance host calls i w pc w' pc') : Failing host calls m₀ i time w' pc' := by
  have hfiles := files_advance htracked h.files hadv
  cases hadv with
  | @mk q q' o r m c hq hexec hnext =>
      subst hq
      have heffect := nameEffect hexec hnext
      refine ⟨hfiles, ?_, ?_, fun htime => ?_⟩
      · rw [Function.update_self]
        exact untouched_next heffect hnext h.untouched
      · rw [Function.update_self, Pool.events_append_self]
        exact heffect.gone (named_of_trace (htracked.trace i)) h.gone
      · rw [Pool.events_append_self, readings_append] at htime
        rw [Function.update_self]
        refine made_next hexec hnext (fun t ht => ?_) (h.made fun t hmem => ?_)
        · exact htime t (List.mem_append_right _ (Option.mem_toList.mpr ht))
        · exact htime t (List.mem_append_left _ hmem)

theorem failing_of_reaches (time : Option Nat)
    (h : (calls.start m₀ : World π δ ι).Reaches (calls.exec host) (fun _ j => j = i) w) :
    ∃ pc, Tracked calls w pc ∧ Failing host calls m₀ i time w pc := by
  refine reaches_induction failing_start ?_ h
  intro w w' pc pc' j hj htracked hinv hadv
  subst hj
  exact failing_advance htracked hinv hadv

end

/-- A call that runs alone, returns an error, and has not failed to clean up, leaves
    every file and every name as it was exactly when there was no file under its temp
    name at the start. -/
theorem failed_unchanged_iff (host : Host π δ) (calls : Calls ι π) (m₀ : Machine π δ)
    (w : World π δ ι) (i : ι) (e : Error) (time : Option Nat)
    (hrun : (calls.start m₀).Reaches (calls.exec host) (fun _ j => j = i) w)
    (hret : w.prog i = .ret (.error e)) (htime : ∀ t ∈ readings (w.events i), t = time)
    (hclean : CleanupWorks (w.events i)) :
    (∀ k, w.shared.storage.read k = m₀.storage.read k) ↔
      TempAbsent host (calls.proc i) (calls.target i) m₀ time := by
  rcases failing_of_reaches time hrun with ⟨pc, htracked, hinv⟩
  rcases htracked.done hret with ⟨tmp, file, hdone⟩
  have hmade := hinv.made htime
  have huntouched := hinv.untouched
  rw [hdone] at hmade huntouched
  -- The call has gone through its cleanup, so there is nothing under its temp name.
  have hgone : ∀ path k, tmp = some path → host.tree.resolveFile path = some k →
      w.shared.storage.lookup k = none := by
    intro path k hpath hk
    rcases hinv.gone path k (by rw [hdone]; exact hpath) hk with hnone | ⟨error, hmem⟩
    · exact hnone
    · cases hclean _ hmem
  constructor
  · intro hsame path k hpath hk
    have hread := hsame k
    rw [Storage.read, hgone path k (hmade.trans hpath) hk, Option.map_none] at hread
    exact Option.map_eq_none_iff.mp hread.symm
  · intro habsent k
    refine hinv.files.read_eq ?_
    by_cases hk : ∃ path, tmp = some path ∧ host.tree.resolveFile path = some k
    · rcases hk with ⟨path, hpath, hk⟩
      rw [hgone path k hpath hk, habsent path k (hmade.symm.trans hpath) hk]
    · exact huntouched rfl k fun path hpath hres => hk ⟨path, hpath, hres⟩

/-- A directory with one file. -/
def oneFile (name : Bytes) : Dir Bytes := ⟨fun n => if n = name then some 0 else none, []⟩

theorem below_oneFile (name : Bytes) : (oneFile name).Below 1 := by
  intro n
  refine ⟨fun file h => ?_, fun _ ho => absurd ho List.not_mem_nil⟩
  have hentry : (if n = name then some 0 else none) = some file := h
  by_cases hn : n = name
  · rw [if_pos hn, Option.some.injEq] at hentry
    omega
  · rw [if_neg hn] at hentry
    cases hentry

/-- A machine with one file. -/
def machineWith (name content : Bytes) : Machine Unit Unit where
  storage :=
    { dirs := fun _ => oneFile name
      files := fun _ => ⟨content, some content⟩
      fresh := 1
      valid := fun _ => below_oneFile name }
  counter := fun _ => 0

/-- One call on `x`, whose writer gives up after two bytes. -/
def failingCalls : Calls Unit Unit where
  proc := fun _ => ()
  target := fun _ => [0x78]
  writer := fun _ => .write 0 [1, 2] fun _ => .ret (.error (.malformed "nope"))

/-- The machine holds the target, and the writer fails. -/
def failedWorld : World Unit Unit Unit :=
  ((failingCalls.start (machineWith [0x78] [9])).run (failingCalls.exec sampleHost)
    [((), .proceed), ((), .clock (some 9)), ((), .proceed), ((), .proceed), ((), .wrote 2),
      ((), .proceed)]).get (by decide)

/-- The machine holds a file under the temp name the call will use. -/
def takenWorld : World Unit Unit Unit :=
  ((failingCalls.start (machineWith (tmpName [0x78] 7 9 0) [5])).run
    (failingCalls.exec sampleHost)
    [((), .proceed), ((), .clock (some 9)), ((), .proceed), ((), .proceed),
      ((), .proceed)]).get (by decide)

/-- A run of a single call is one in which only that call runs. -/
theorem reaches_of_single (calls : Calls Unit π) (host : Host π δ) (m₀ : Machine π δ)
    (schedule : List (Unit × Choice)) (w : World π δ Unit)
    (h : (calls.start m₀).run (calls.exec host) schedule = some w) :
    (calls.start m₀).Reaches (calls.exec host) (fun _ j => j = ()) w := by
  refine Relation.ReflTransGen.mono ?_ _ _ (Pool.reaches_of_run schedule _ _ h)
  rintro u u' ⟨i, c, _, hstep⟩
  exact ⟨i, c, rfl, hstep⟩

/-- The writer fails after it has written something, and all is as before. -/
theorem failed_unchanged_iff_sample :
    failedWorld.shared.storage.read ((), [0x78]) = some [9] ∧
    failedWorld.shared.storage.read ((), tmpName [0x78] 7 9 0) = none ∧
    ((∀ k, failedWorld.shared.storage.read k = (machineWith [0x78] [9]).storage.read k) ↔
      TempAbsent sampleHost () [0x78] (machineWith [0x78] [9]) (some 9)) :=
  ⟨by decide, by decide, failed_unchanged_iff sampleHost failingCalls (machineWith [0x78] [9])
    failedWorld () (.malformed "nope") (some 9)
    (reaches_of_single failingCalls sampleHost _ _ _ (Option.some_get _).symm) rfl
    (by decide) (by decide)⟩

/-- The call cannot create its temp file, since there is one already, and removes it. -/
theorem failed_removes_taken :
    (failingCalls.start (machineWith (tmpName [0x78] 7 9 0) [5])).Reaches
      (failingCalls.exec sampleHost) (fun _ j => j = ()) takenWorld ∧
    takenWorld.prog () = .ret (.error (.io alreadyExists)) ∧
    CleanupWorks (takenWorld.events ()) ∧
    (machineWith (tmpName [0x78] 7 9 0) [5]).storage.read ((), tmpName [0x78] 7 9 0)
      = some [5] ∧
    takenWorld.shared.storage.read ((), tmpName [0x78] 7 9 0) = none := by
  refine ⟨reaches_of_single failingCalls sampleHost _ _ _ (Option.some_get _).symm, rfl, ?_⟩
  decide

end SkegHull
