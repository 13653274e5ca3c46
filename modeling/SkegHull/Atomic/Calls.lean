import SkegHull.Atomic.Protocol

/-!
# Concurrent Calls

Any number of calls of `atomicWrite`, in any number of processes, on one
machine. `Advance` is one event of one call, seen both in the pool that runs the
programs and in the machine states that follow them, and `reaches_induction`
turns what every such event preserves into a fact about every reachable pool.

What holds of all runs is that a call's file is its own: nobody else writes to
it, it contains what the call has written, and it is stable once it was
synchronised (`Files`).

## Main definitions

* `Calls`, `World`: The calls, and the pool that runs them.
* `Advance`: One event of one call.
* `FileEffect`: What an event does to the files.
* `Files`: A call's file is its own.

## Theorems

* `reaches_induction`: What every event preserves holds of every run.
* `fileEffect`: Every event has one of the effects.
* `files_advance`: Events preserve `Files`.
-/

namespace SkegHull

open Lib

/-- Calls of `atomicWrite`: in which process they are made, and what they write
    where. -/
structure Calls (ι π : Type) where
  proc : ι → π
  target : ι → Bytes
  writer : ι → Writer

/-- The machine, and the programs of the calls. -/
abbrev World (π δ ι : Type) := Pool (Machine π δ) ι (@Reply δ) (Except Error Unit)

variable {π δ ι : Type} [DecidableEq π] [DecidableEq δ] [DecidableEq ι]

namespace Calls

/-- No call has begun. -/
def start (calls : Calls ι π) (m : Machine π δ) : World π δ ι :=
  Pool.start m fun i => atomicWrite (calls.target i) (calls.writer i)

/-- An operation of a call is one of its process. -/
def exec (calls : Calls ι π) (host : Host π δ) (i : ι) :
    (o : Op δ) → Machine π δ → Choice → Option (Reply o × Machine π δ) :=
  Machine.exec host (calls.proc i)

end Calls

/-- One event of one call, and the states on both sides of it. -/
inductive Advance (host : Host π δ) (calls : Calls ι π) (i : ι) :
    World π δ ι → (ι → Pc δ) → World π δ ι → (ι → Pc δ) → Prop where
  | mk {w : World π δ ι} {pc : ι → Pc δ} {q q' : Pc δ} {o : Op δ} {r : Reply o}
      {m : Machine π δ} {c : Choice} (hq : pc i = q)
      (hexec : Machine.exec host (calls.proc i) o w.shared c = some (r, m))
      (hnext : q.Next (calls.target i) (calls.writer i) ⟨o, r⟩ q') :
      Advance host calls i w pc
        ⟨m, Function.update w.prog i (q'.prog (calls.target i) (calls.writer i)),
          w.log ++ [(i, ⟨o, r⟩)]⟩
        (Function.update pc i q')

/-- The programs are those of the states, and the states follow from the log. -/
structure Tracked (calls : Calls ι π) (w : World π δ ι) (pc : ι → Pc δ) : Prop where
  prog : ∀ i, w.prog i = (pc i).prog (calls.target i) (calls.writer i)
  trace : ∀ i, Trace (calls.target i) (calls.writer i) (w.events i) (pc i)

section

variable {host : Host π δ} {calls : Calls ι π} {i : ι} {w w' : World π δ ι} {pc pc' : ι → Pc δ}

theorem tracked_advance (h : Tracked calls w pc) (hadv : Advance host calls i w pc w' pc') :
    Tracked calls w' pc' := by
  cases hadv with
  | @mk q q' o r m c hq hexec hnext =>
      -- Only the call of the event changes, and it takes one step of its machine.
      refine ⟨fun j => ?_, fun j => ?_⟩
      · by_cases hj : j = i
        · rw [hj]
          simp only [Function.update_self]
        · simp only [Function.update_of_ne hj]
          exact h.prog j
      · by_cases hj : j = i
        · rw [hj, Pool.events_append_self, Function.update_self]
          exact .next (h.trace i) (hq ▸ hnext)
        · rw [Pool.events_append_of_ne w m _ i j _ hj, Function.update_of_ne hj]
          exact h.trace j

/-- What a call has done stays done. -/
theorem mem_events_advance (hadv : Advance host calls i w pc w' pc') (j : ι) (e : Event (@Reply δ))
    (h : e ∈ w.events j) : e ∈ w'.events j := by
  cases hadv with
  | mk _ _ _ =>
      rw [Pool.mem_events_iff] at h ⊢
      exact List.mem_append_left _ h

theorem temps_advance (hadv : Advance host calls i w pc w' pc') (j : ι) (path : Bytes)
    (h : path ∈ temps (w.events j)) : path ∈ temps (w'.events j) := by
  rcases List.mem_filterMap.mp h with ⟨e, hmem, hpath⟩
  exact List.mem_filterMap.mpr ⟨e, mem_events_advance hadv j e hmem, hpath⟩

/-- Every step of the pool is an event of a call. -/
theorem advance_of_step (h : Tracked calls w pc) (c : Choice)
    (hstep : w.step (calls.exec host) i c = some w') :
    ∃ pc', Advance host calls i w pc w' pc' := by
  rcases (Pool.step_eq_some_iff w w' i c).mp hstep with ⟨o, k, r, m, hop, hexec, rfl⟩
  rw [h.prog i] at hop
  rcases next_of_prog _ _ (pc i) o k hop r with ⟨q', hnext, hk⟩
  rw [hk]
  exact ⟨_, .mk rfl hexec hnext⟩

omit [DecidableEq π] [DecidableEq δ] in
/-- A call that has returned is done. -/
theorem Tracked.done (h : Tracked calls w pc) {r : Except Error Unit} (hret : w.prog i = .ret r) :
    ∃ tmp file, pc i = .done tmp file r :=
  done_of_prog (pc i) r ((h.prog i).symm.trans hret)

/-- What every event preserves holds of every run. -/
theorem reaches_induction {m₀ : Machine π δ} {allowed : World π δ ι → ι → Prop}
    {Inv : World π δ ι → (ι → Pc δ) → Prop}
    (hstart : Inv (calls.start m₀) fun i => .start (calls.target i))
    (hstep : ∀ {w w' pc pc' i}, allowed w i → Tracked calls w pc → Inv w pc →
      Advance host calls i w pc w' pc' → Inv w' pc')
    (h : (calls.start m₀).Reaches (calls.exec host) allowed w) :
    ∃ pc, Tracked calls w pc ∧ Inv w pc := by
  induction h with
  -- The induction is on the run, and the states are chosen along with it.
  | refl => exact ⟨_, ⟨fun i => prog_start _ _, fun i => .start⟩, hstart⟩
  | tail _ hlast ih =>
      rcases hlast with ⟨i, c, hallowed, hlast⟩
      rcases ih with ⟨pc, htracked, hinv⟩
      rcases advance_of_step htracked c hlast with ⟨pc', hadv⟩
      exact ⟨pc', tracked_advance htracked hadv, hstep hallowed htracked hinv hadv⟩

end

/-! ### Files -/

/-- What an event does to the files. -/
inductive FileEffect (m m' : Storage δ Bytes) (e : Event (@Reply δ)) (q q' : Pc δ) : Prop where
  | same (hfiles : m'.files = m.files) (hfresh : m'.fresh = m.fresh) (hfile : q'.file = q.file)
      (hsynced : q'.synced = none ∨ q'.synced = q.synced) (hwritten : ∀ b, writtenBy b e = b)
  | create (hfiles : m'.files = Function.update m.files m.fresh ⟨[], none⟩)
      (hfresh : m'.fresh = m.fresh + 1) (hold : q.file = none) (hfile : q'.file = some m.fresh)
      (hsynced : q'.synced = none) (hwritten : ∀ b, writtenBy b e = b)
  | write (file pos : Nat) (bytes : Bytes)
      (hfiles : m'.files = Function.update m.files file ⟨writeAt (m.content file) pos bytes, none⟩)
      (hfresh : m'.fresh = m.fresh) (hold : q.file = some file) (hfile : q'.file = some file)
      (hsynced : q'.synced = none) (hwritten : ∀ b, writtenBy b e = writeAt b pos bytes)
  | sync (file : Nat)
      (hfiles : m'.files = Function.update m.files file ⟨m.content file, some (m.content file)⟩)
      (hfresh : m'.fresh = m.fresh) (hold : q.file = some file) (hfile : q'.file = some file)
      (hsynced : q'.synced = some file) (hwritten : ∀ b, writtenBy b e = b)

section

variable {host : Host π δ} {p : π} {target : Bytes} {f : Writer} {m m' : Machine π δ}
  {c : Choice} {o : Op δ} {r : Reply o} {q q' : Pc δ}

theorem fileEffect (hexec : Machine.exec host p o m c = some (r, m'))
    (hnext : q.Next target f ⟨o, r⟩ q') : FileEffect m.storage m'.storage ⟨o, r⟩ q q' := by
  cases hnext with
  | processId pid =>
      rw [(Machine.exec_processId host p m m' c pid hexec).2]
      exact .same rfl rfl rfl (Or.inl rfl) fun _ => rfl
  | now pid time =>
      rw [Machine.exec_now host p m m' c time hexec]
      exact .same rfl rfl rfl (Or.inl rfl) fun _ => rfl
  | fetchAdd pid time counter =>
      rw [(Machine.exec_fetchAdd host p m m' c counter hexec).2, Pc.named]
      cases Path.fileName target with
      | none => exact .same rfl rfl rfl (Or.inl rfl) fun _ => rfl
      | some name => exact .same rfl rfl rfl (Or.inl rfl) fun _ => rfl
  | createOk tmp file =>
      rcases Machine.exec_createNew host p m m' c tmp _ hexec with
        ⟨e, he, _⟩ | ⟨k, _, _, hr, rfl⟩
      · cases he
      · cases hr
        exact .create rfl rfl rfl (Pc.file_writing tmp _ f) (Pc.synced_writing tmp _ f) fun _ => rfl
  | createErr tmp e =>
      rcases Machine.exec_createNew host p m m' c tmp _ hexec with
        ⟨_, _, rfl, _⟩ | ⟨k, _, _, hr, _⟩
      · exact .same rfl rfl rfl (Or.inl rfl) fun _ => rfl
      · cases hr
  -- A write that fails changes nothing, one that succeeds may be short.
  | write tmp file pos bytes k r =>
      rcases Machine.exec_write host p m m' c file pos bytes r hexec with
        ⟨e, rfl, rfl⟩ | ⟨count, _, rfl, rfl⟩
      · exact .same rfl rfl (Pc.file_writing tmp file _) (Or.inl (Pc.synced_writing tmp file _))
          fun _ => rfl
      · exact .write file pos (bytes.take count) rfl rfl rfl (Pc.file_writing tmp file _)
          (Pc.synced_writing tmp file _) fun _ => rfl
  | flushOk tmp file =>
      rw [Machine.exec_flush host p m m' c file _ hexec]
      exact .same rfl rfl rfl (Or.inl rfl) fun _ => rfl
  | flushErr tmp file e =>
      rw [Machine.exec_flush host p m m' c file _ hexec]
      exact .same rfl rfl rfl (Or.inl rfl) fun _ => rfl
  | syncOk tmp file =>
      rcases Machine.exec_syncFile host p m m' c file _ hexec with ⟨e, he, _⟩ | ⟨_, rfl⟩
      · cases he
      · exact .sync file rfl rfl rfl rfl rfl fun _ => rfl
  | syncErr tmp file e =>
      rcases Machine.exec_syncFile host p m m' c file _ hexec with ⟨_, _, rfl⟩ | ⟨hr, _⟩
      · exact .same rfl rfl rfl (Or.inl rfl) fun _ => rfl
      · cases hr
  | renameOk tmp file =>
      rcases Machine.exec_rename host p m m' c tmp target _ hexec with
        ⟨e, he, _⟩ | ⟨a, b, file', _, _, hfile, _, rfl⟩
      · cases he
      -- A rename changes names only.
      · have hlt := m.storage.lookup_lt a file' hfile
        exact .same (m.storage.files_move a b file' hlt) (m.storage.fresh_move a b file' hlt) rfl
          (Or.inr rfl) fun _ => rfl
  | renameErr tmp file e =>
      rcases Machine.exec_rename host p m m' c tmp target _ hexec with
        ⟨_, _, rfl⟩ | ⟨a, b, file', _, _, _, hr, _⟩
      · exact .same rfl rfl rfl (Or.inl rfl) fun _ => rfl
      · cases hr
  | openDirOk tmp file dir =>
      rw [(Machine.exec_openDir host p m m' c _ _ hexec).1]
      exact .same rfl rfl rfl (Or.inr rfl) fun _ => rfl
  | openDirErr tmp file e =>
      rw [(Machine.exec_openDir host p m m' c _ _ hexec).1]
      exact .same rfl rfl rfl (Or.inr rfl) fun _ => rfl
  | syncDir tmp file dir r =>
      rcases Machine.exec_syncDir host p m m' c dir r hexec with ⟨_, _, rfl⟩ | ⟨_, rfl⟩
      · exact .same rfl rfl rfl (Or.inr rfl) fun _ => rfl
      · exact .same rfl rfl rfl (Or.inr rfl) fun _ => rfl
  | removeFile tmp file e r =>
      rcases Machine.exec_removeFile host p m m' c tmp r hexec with ⟨_, _, rfl⟩ | ⟨k, _, _, rfl⟩
      · exact .same rfl rfl rfl (Or.inl rfl) fun _ => rfl
      · exact .same rfl rfl rfl (Or.inl rfl) fun _ => rfl

end

/-- A call's file is its own: it was created in the run, it contains what the call
    wrote, and it is stable once it was synchronised. No other file changes. -/
structure Files (m₀ : Machine π δ) (w : World π δ ι) (pc : ι → Pc δ) : Prop where
  fresh : m₀.storage.fresh ≤ w.shared.storage.fresh
  bound : ∀ i file, (pc i).file = some file →
    m₀.storage.fresh ≤ file ∧ file < w.shared.storage.fresh
  inj : ∀ i j file, (pc i).file = some file → (pc j).file = some file → i = j
  content : ∀ i file, (pc i).file = some file →
    w.shared.storage.content file = written (w.events i)
  stable : ∀ i file, (pc i).synced = some file →
    (w.shared.storage.files file).stable = some (written (w.events i))
  old : ∀ file < m₀.storage.fresh, w.shared.storage.files file = m₀.storage.files file

omit [DecidableEq π] [DecidableEq δ] in
theorem files_start (calls : Calls ι π) (m₀ : Machine π δ) :
    Files m₀ (calls.start m₀ : World π δ ι) fun i => .start (calls.target i) := by
  have hfile : ∀ i file, (Pc.start (calls.target i) : Pc δ).file ≠ some file := by
    intro i file h
    rw [Pc.file_start] at h
    cases h
  refine ⟨Nat.le_refl _, ?_, ?_, ?_, ?_, fun _ _ => rfl⟩
  · exact fun i file h => absurd h (hfile i file)
  · exact fun i j file h => absurd h (hfile i file)
  · exact fun i file h => absurd h (hfile i file)
  · exact fun i file h => absurd (Pc.file_of_synced _ file h) (hfile i file)

section

variable {host : Host π δ} {calls : Calls ι π} {i : ι} {w w' : World π δ ι} {pc pc' : ι → Pc δ}
  {m₀ : Machine π δ}

omit [DecidableEq δ] in
/-- An event changes no file but the call's own. -/
theorem FileEffect.frame {m m' : Storage δ Bytes} {e : Event (@Reply δ)} {q q' : Pc δ}
    (h : FileEffect m m' e q q') (file : Nat) (hlt : file < m.fresh)
    (hne : q.file ≠ some file) : m'.files file = m.files file := by
  cases h with
  | same hfiles => rw [hfiles]
  | create hfiles => rw [hfiles, Function.update_of_ne (Nat.ne_of_lt hlt)]
  | write own pos bytes hfiles _ hold =>
      rw [hfiles, Function.update_of_ne fun h => hne (by rw [h, hold])]
  | sync own hfiles _ hold =>
      rw [hfiles, Function.update_of_ne fun h => hne (by rw [h, hold])]

/-- What an event leaves of the call's own file. -/
structure OwnFile (m₀ : Machine π δ) (w : World π δ ι) (pc : ι → Pc δ) (i : ι)
    (m' : Storage δ Bytes) (e : Event (@Reply δ)) (q' : Pc δ) (file : Nat) : Prop where
  old : m₀.storage.fresh ≤ file
  lt : file < m'.fresh
  own : ∀ j, j ≠ i → (pc j).file ≠ some file
  content : m'.content file = written (w.events i ++ [e])
  stable : q'.synced = some file → (m'.files file).stable = some (written (w.events i ++ [e]))

omit [DecidableEq π] [DecidableEq δ] in
theorem FileEffect.ownFile {m' : Storage δ Bytes} {e : Event (@Reply δ)} {q' : Pc δ}
    (htracked : Tracked calls w pc) (h : Files m₀ w pc)
    (heffect : FileEffect w.shared.storage m' e (pc i) q') (file : Nat)
    (hfile : q'.file = some file) : OwnFile m₀ w pc i m' e q' file := by
  -- The file a call has already is not the file of another one.
  have hkeep : (pc i).file = some file → ∀ j, j ≠ i → (pc j).file ≠ some file :=
    fun hown j hj hj' => hj (h.inj j i file hj' hown)
  cases heffect with
  | same hfiles hfresh hsame hsynced hwritten =>
      rw [hsame] at hfile
      refine ⟨(h.bound i file hfile).1, hfresh ▸ (h.bound i file hfile).2, hkeep hfile, ?_, ?_⟩
      · rw [written_append, hwritten, Storage.content, hfiles]
        exact h.content i file hfile
      · intro hs
        rcases hsynced with hnone | hsame
        · rw [hnone] at hs
          cases hs
        · rw [written_append, hwritten, hfiles]
          exact h.stable i file (hsame ▸ hs)
  | create hfiles hfresh hold hfile' hsynced hwritten =>
      rw [hfile', Option.some.injEq] at hfile
      subst hfile
      -- A new file has a number that no call has yet.
      refine ⟨h.fresh, hfresh ▸ Nat.lt_succ_self _, ?_, ?_, ?_⟩
      · intro j _ hj
        exact Nat.lt_irrefl _ (h.bound j _ hj).2
      · rw [written_append, hwritten, Storage.content, hfiles, Function.update_self,
          written_of_trace (htracked.trace i) hold]
      · intro hs
        rw [hsynced] at hs
        cases hs
  | write own pos bytes hfiles hfresh hold hfile' hsynced hwritten =>
      rw [hfile', Option.some.injEq] at hfile
      subst hfile
      refine ⟨(h.bound i own hold).1, hfresh ▸ (h.bound i own hold).2, hkeep hold, ?_, ?_⟩
      · rw [written_append, hwritten, Storage.content, hfiles, Function.update_self,
          h.content i own hold]
      · intro hs
        rw [hsynced] at hs
        cases hs
  | sync own hfiles hfresh hold hfile' hsynced hwritten =>
      rw [hfile', Option.some.injEq] at hfile
      subst hfile
      refine ⟨(h.bound i own hold).1, hfresh ▸ (h.bound i own hold).2, hkeep hold, ?_, fun _ => ?_⟩
      · rw [written_append, hwritten, Storage.content, hfiles, Function.update_self,
          h.content i own hold]
      · rw [written_append, hwritten, hfiles, Function.update_self, h.content i own hold]

omit [DecidableEq δ] in
theorem FileEffect.fresh_le {m m' : Storage δ Bytes} {e : Event (@Reply δ)} {q q' : Pc δ}
    (h : FileEffect m m' e q q') : m.fresh ≤ m'.fresh := by
  cases h with
  | same _ hfresh => rw [hfresh]
  | create _ hfresh =>
      rw [hfresh]
      exact Nat.le_succ _
  | write _ _ _ _ hfresh => rw [hfresh]
  | sync _ _ hfresh => rw [hfresh]

theorem files_advance (htracked : Tracked calls w pc) (h : Files m₀ w pc)
    (hadv : Advance host calls i w pc w' pc') : Files m₀ w' pc' := by
  cases hadv with
  | @mk q q' o r m c hq hexec hnext =>
      subst hq
      have heffect := fileEffect hexec hnext
      have hown := fun file => heffect.ownFile htracked h file
      -- The other calls keep their states, their histories, and their files.
      have hother : ∀ j file, j ≠ i → (pc j).file = some file →
          m.storage.files file = w.shared.storage.files file := by
        intro j file hj hfile
        exact heffect.frame file (h.bound j file hfile).2 fun hi => hj (h.inj j i file hfile hi)
      refine ⟨Nat.le_trans h.fresh heffect.fresh_le, ?_, ?_, ?_, ?_, ?_⟩
      · intro j file hfile
        by_cases hj : j = i
        · rw [hj, Function.update_self] at hfile
          exact ⟨(hown file hfile).old, (hown file hfile).lt⟩
        · rw [Function.update_of_ne hj] at hfile
          exact ⟨(h.bound j file hfile).1,
            Nat.lt_of_lt_of_le (h.bound j file hfile).2 heffect.fresh_le⟩
      -- Two calls with one file: the event is by one of them, by both, or by neither.
      · intro j k file hj hk
        by_cases hji : j = i
        · by_cases hki : k = i
          · rw [hji, hki]
          · rw [hji, Function.update_self] at hj
            rw [Function.update_of_ne hki] at hk
            exact absurd hk ((hown file hj).own k hki)
        · rw [Function.update_of_ne hji] at hj
          by_cases hki : k = i
          · rw [hki, Function.update_self] at hk
            exact absurd hj ((hown file hk).own j hji)
          · rw [Function.update_of_ne hki] at hk
            exact h.inj j k file hj hk
      · intro j file hfile
        by_cases hj : j = i
        · rw [hj, Function.update_self] at hfile
          rw [hj, Pool.events_append_self]
          exact (hown file hfile).content
        · rw [Function.update_of_ne hj] at hfile
          rw [Pool.events_append_of_ne w m _ i j _ hj, Storage.content, hother j file hj hfile]
          exact h.content j file hfile
      · intro j file hsynced
        by_cases hj : j = i
        · rw [hj, Function.update_self] at hsynced
          rw [hj, Pool.events_append_self]
          exact (hown file (Pc.file_of_synced q' file hsynced)).stable hsynced
        · rw [Function.update_of_ne hj] at hsynced
          rw [Pool.events_append_of_ne w m _ i j _ hj,
            hother j file hj (Pc.file_of_synced _ file hsynced)]
          exact h.stable j file hsynced
      · intro file hold
        rw [heffect.frame file (Nat.lt_of_lt_of_le hold h.fresh) fun hi =>
          Nat.lt_irrefl _ (Nat.lt_of_lt_of_le hold (h.bound i file hi).1)]
        exact h.old file hold

omit [DecidableEq π] [DecidableEq δ] in
/-- A name that still leads to the file it led to at the start leads to the content it
    had. -/
theorem Files.read_eq (h : Files m₀ w pc) {k : δ × Bytes}
    (hk : w.shared.storage.lookup k = m₀.storage.lookup k) :
    w.shared.storage.read k = m₀.storage.read k := by
  rw [Storage.read, Storage.read, hk]
  cases hfile : m₀.storage.lookup k with
  | none => rfl
  | some file =>
      rw [Option.map_some, Option.map_some, Storage.content, Storage.content,
        h.old file (m₀.storage.lookup_lt k file hfile)]

end

end SkegHull
