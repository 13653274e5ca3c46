import SkegHull.Atomic.Interleaving

/-!
# Crashes

Calls of `atomicWrite` and a crash at any moment. What the crash leaves at a
target is the content it had before, or the complete bytes of a call whose writer
returned `Ok`. That holds of calls that follow one another, with nothing assumed
of their names, and of calls in any order whose names are apart.

The target changes only by a rename, and what is renamed onto it is a file that
was synchronised before and that nobody writes to again. So the stored entry of
the target, and every change to it that a crash may or may not keep, lead to
files with a stable copy: `CrashHolds` says it, and it does not matter which of
the changes the crash keeps, or in which order.

## Main definitions

* `DurablyHolds`: A name leads to a stable file whatever a crash does.
* `CrashHolds`: What the target can lead to after a crash.

## Theorems

* `clear_of_alone`: A call that is alone is in nobody's way.
* `crashHolds_advance`: Events preserve `CrashHolds`.
* `atomicWrite_crash_atomic`: What a crash leaves at the target of calls that follow
  one another.
* `atomicWrite_crash_interleaving`: What it leaves at the targets of any calls.
-/

namespace SkegHull

open Lib

variable {π δ ι : Type} [DecidableEq π] [DecidableEq δ] [DecidableEq ι]

/-- Whatever a crash does, this name leads to a file with this stable content. -/
def DurablyHolds (s : Storage δ Bytes) (k : δ × Bytes) (bytes : Bytes) : Prop :=
  ∃ file, s.Only k (fun x => x = some file) ∧ (s.files file).stable = some bytes

/-- A crash leaves the target with the file it had, or with one that a call renamed
    onto it. -/
def CrashHolds (host : Host π δ) (calls : Calls ι π) (k : δ × Bytes) (file₀ : Nat)
    (w : World π δ ι) (pc : ι → Pc δ) : Prop :=
  w.shared.storage.Only k fun x => x = some file₀ ∨
    ∃ j file, host.tree.resolveFile (calls.target j) = some k ∧ (pc j).moved = some file ∧
      x = some file

section

variable {host : Host π δ} {calls : Calls ι π} {i : ι} {w w' : World π δ ι} {pc pc' : ι → Pc δ}
  {m₀ : Machine π δ} {k : δ × Bytes} {file₀ : Nat}

omit [DecidableEq π] [DecidableEq δ] in
/-- Nobody else holds a file while a call is alone. -/
theorem clear_of_alone (htracked : Tracked calls w pc) (halone : w.Alone i) :
    Clear host calls pc i := by
  intro j hj tmp file k' hheld
  -- Another call has not begun or has returned, and holds nothing either way.
  rcases halone j hj with hnone | ⟨r, hret⟩
  · have htmp := Pc.tmp_of_tried _ tmp (Pc.tried_of_held _ tmp file hheld)
    rw [start_of_trace (htracked.trace j) hnone, Pc.tmp_start] at htmp
    cases htmp
  · rcases htracked.done hret with ⟨t, f, hdone⟩
    rw [hdone] at hheld
    cases hheld

theorem crashHolds_advance (hheld : Held host w pc)
    (hout : ∀ tmp, (pc' i).tried = some tmp → host.tree.resolveFile tmp ≠ some k)
    (h : CrashHolds host calls k file₀ w pc) (hadv : Advance host calls i w pc w' pc') :
    CrashHolds host calls k file₀ w' pc' := by
  cases hadv with
  | @mk q q' o r m c hq hexec hnext =>
      subst hq
      have heffect := nameEffect hexec hnext
      rw [Function.update_self] at hout
      -- What the target could lead to before, it can lead to still.
      have hlater : w.shared.storage.Only k fun x => x = some file₀ ∨
          ∃ j file, host.tree.resolveFile (calls.target j) = some k ∧
            (Function.update pc i q' j).moved = some file ∧ x = some file := by
        refine Storage.Only.mono h fun x hx => ?_
        rcases hx with hx | ⟨j, file, htarget, hj, hx⟩
        · exact Or.inl hx
        · exact Or.inr ⟨j, file, htarget, heffect.moved_update j file hj, hx⟩
      generalize hq : pc i = q at heffect
      cases heffect with
      | keep _ honly => exact honly k _ hlater
      -- A temp name is not the target, so only a rename can add to the list.
      | create tmp k' w' hk' _ hm =>
          rw [CrashHolds, hm]
          exact hlater.create k' fun heq => hout tmp (Pc.tried_writing tmp _ w') (heq ▸ hk')
      | unlink tmp k' file error hk' hm =>
          rw [CrashHolds, hm]
          exact hlater.unlink k' fun heq => hout tmp rfl (heq ▸ hk')
      | move tmp a b file file' ha hb hfile hm =>
          rw [CrashHolds, hm]
          refine hlater.move a b file' _ (fun heq => hout tmp rfl (heq ▸ ha)) fun hkb => ?_
          -- The file that moves is the one the call holds.
          have hown := eq_of_held (hheld i tmp file (by rw [hq]; rfl)) ha hfile
          exact Or.inr ⟨i, file, hkb ▸ hb, by rw [Function.update_self]; rfl, congrArg some hown⟩

omit [DecidableEq π] [DecidableEq δ] in
/-- What a crash can leave at a target that durably held something. -/
theorem read_of_recovers {before : Bytes} (htracked : Tracked calls w pc) (hfiles : Files m₀ w pc)
    (honly : m₀.storage.Only k fun x => x = some file₀)
    (hstable : (m₀.storage.files file₀).stable = some before)
    (hcrash : CrashHolds host calls k file₀ w pc) {r : Storage δ Bytes}
    (hr : w.shared.storage.Recovers r) :
    r.read k = some before ∨ ∃ j bytes, host.tree.resolveFile (calls.target j) = some k ∧
      Completed (calls.writer j) (w.events j) bytes ∧ r.read k = some bytes := by
  rcases Storage.Only.lookup_of_recovers hcrash hr with hold | ⟨j, file, htarget, hmoved, hnew⟩
  · refine Or.inl ?_
    -- The file was there at the start, so no call has written to it.
    have hlt := m₀.storage.lookup_lt k file₀ (Storage.Only.lookup honly)
    have hkept : (w.shared.storage.files file₀).stable = some before := by
      rw [hfiles.old file₀ hlt, hstable]
    rw [Storage.read, hold, Option.map_some, hr.files file₀ before hkept]
  · refine Or.inr ⟨j, _, htarget, completed_of_moved (htracked.trace j) file hmoved, ?_⟩
    -- A file was synchronised before it was renamed.
    have hsynced := hfiles.stable j file (Pc.synced_of_moved _ file hmoved)
    rw [Storage.read, hnew, Option.map_some, hr.files file _ hsynced]

/-- What calls that follow one another preserve. -/
structure CrashSafe (host : Host π δ) (calls : Calls ι π) (m₀ : Machine π δ) (k : δ × Bytes)
    (file₀ : Nat) (w : World π δ ι) (pc : ι → Pc δ) : Prop where
  files : Files m₀ w pc
  held : Held host w pc
  crash : CrashHolds host calls k file₀ w pc

theorem crashSafe_of_reaches (htarget : ∀ i, host.tree.resolveFile (calls.target i) = some k)
    (hfile : m₀.storage.Only k fun x => x = some file₀)
    (h : (calls.start m₀ : World π δ ι).Reaches (calls.exec host) Pool.Alone w) :
    ∃ pc, Tracked calls w pc ∧ CrashSafe host calls m₀ k file₀ w pc := by
  have hstart : CrashSafe host calls m₀ k file₀ (calls.start m₀ : World π δ ι)
      fun i => .start (calls.target i) :=
    ⟨files_start calls m₀, held_start calls m₀,
      Storage.Only.mono hfile fun _ hx => Or.inl hx⟩
  refine reaches_induction hstart ?_ h
  intro w w' pc pc' i halone htracked hinv hadv
  have htracked' := tracked_advance htracked hadv
  refine ⟨files_advance htracked hinv.files hadv,
    held_advance (clear_of_alone htracked halone) hinv.held hadv,
    crashHolds_advance hinv.held (fun tmp htried hres => ?_) hinv.crash hadv⟩
  exact tmp_ne_target (named_of_trace (htracked'.trace i) tmp (Pc.tmp_of_tried _ tmp htried)) hres
    (htarget i)

/-- What calls whose names are apart preserve, in any order. -/
structure CrashSound (host : Host π δ) (calls : Calls ι π) (m₀ : Machine π δ) (k : δ × Bytes)
    (file₀ : Nat) (w : World π δ ι) (pc : ι → Pc δ) : Prop where
  consistent : Consistent host calls m₀ w pc
  crash : NamesApart host calls m₀ w → CrashHolds host calls k file₀ w pc

theorem crashSound_of_reaches (hpid : Function.Injective host.pid)
    (htarget : ∃ i, host.tree.resolveFile (calls.target i) = some k)
    (hfile : m₀.storage.Only k fun x => x = some file₀)
    (h : (calls.start m₀ : World π δ ι).Reaches (calls.exec host) (fun _ _ => True) w) :
    ∃ pc, Tracked calls w pc ∧ CrashSound host calls m₀ k file₀ w pc := by
  have hstart : CrashSound host calls m₀ k file₀ (calls.start m₀ : World π δ ι)
      fun i => .start (calls.target i) :=
    ⟨consistent_start, fun _ => Storage.Only.mono hfile fun _ hx => Or.inl hx⟩
  refine reaches_induction hstart ?_ h
  intro w w' pc pc' i _ htracked hinv hadv
  have htracked' := tracked_advance htracked hadv
  refine ⟨consistent_advance hpid htracked hinv.consistent hadv, fun hnames => ?_⟩
  have hbefore := hnames.before hadv
  refine crashHolds_advance (hinv.consistent.sound hbefore).held (fun tmp htried hres => ?_)
    (hinv.crash hbefore) hadv
  rcases htarget with ⟨j, hj⟩
  exact hnames.target i j tmp k (tried_mem htracked' htried) hres hj

end

/-- Calls on one target, one after another: whatever a crash leaves, at whatever
    moment, the target has the content it durably had before, or the complete bytes of
    a call whose writer returned `Ok`. -/
theorem atomicWrite_crash_atomic (host : Host π δ) (calls : Calls ι π) (m₀ : Machine π δ)
    (k : δ × Bytes) (before : Bytes)
    (htarget : ∀ i, host.tree.resolveFile (calls.target i) = some k)
    (hbefore : DurablyHolds m₀.storage k before) (w : World π δ ι)
    (hrun : (calls.start m₀).Reaches (calls.exec host) Pool.Alone w)
    (r : Storage δ Bytes) (hr : w.shared.storage.Recovers r) :
    r.read k = some before ∨
      ∃ j bytes, Completed (calls.writer j) (w.events j) bytes ∧ r.read k = some bytes := by
  rcases hbefore with ⟨file₀, honly, hstable⟩
  rcases crashSafe_of_reaches htarget honly hrun with ⟨pc, htracked, hinv⟩
  rcases read_of_recovers htracked hinv.files honly hstable hinv.crash hr with
    hold | ⟨j, bytes, _, hnew⟩
  · exact Or.inl hold
  · exact Or.inr ⟨j, bytes, hnew⟩

/-- A machine whose file `x` durably holds one byte. -/
def durableMachine : Machine Unit Unit where
  storage :=
    { dirs := fun _ => ⟨fun name => if name = [0x78] then some 0 else none, []⟩
      files := fun _ => ⟨[9], some [9]⟩
      fresh := 1
      valid := by
        intro _ name
        refine ⟨fun file h => ?_, fun _ ho => absurd ho List.not_mem_nil⟩
        have hentry : (if name = [0x78] then some 0 else none) = some file := h
        by_cases hname : name = [0x78]
        · rw [if_pos hname, Option.some.injEq] at hentry
          omega
        · rw [if_neg hname] at hentry
          cases hentry }
  counter := fun _ => 0

/-- Two calls on `./x`. -/
def durableCalls : Calls Bool Unit := { sampleCalls with target := fun _ => [0x2e, 0x2f, 0x78] }

/-- The first call, and the second one up to its rename. -/
def firstCall : List Choice :=
  [.proceed, .clock none, .proceed, .proceed, .wrote 1, .wrote 1, .proceed, .proceed, .proceed,
    .proceed, .proceed]

def secondCall : List Choice :=
  [.proceed, .clock none, .proceed, .proceed, .wrote 3, .proceed, .proceed, .proceed]

def betweenCalls : World Unit Unit Bool :=
  ((durableCalls.start durableMachine).run (durableCalls.exec sampleHost)
    (firstCall.map fun c => (false, c))).get (by decide)

def crashWorld : World Unit Unit Bool :=
  (betweenCalls.run (durableCalls.exec sampleHost) (secondCall.map fun c => (true, c))).get
    (by decide)

theorem crashWorld_reached : (durableCalls.start durableMachine).Reaches
    (durableCalls.exec sampleHost) Pool.Alone crashWorld := by
  have hstart : (durableCalls.start durableMachine).Alone false := fun _ _ => Or.inl rfl
  have hfirst : (durableCalls.start durableMachine).Reaches (durableCalls.exec sampleHost)
      Pool.Alone betweenCalls :=
    Pool.reaches_of_solo false firstCall _ _ hstart (Option.some_get _).symm
  have halone : betweenCalls.Alone true := by
    intro j hj
    cases j
    · exact Or.inr ⟨_, rfl⟩
    · exact absurd rfl hj
  exact hfirst.trans
    (Pool.reaches_of_solo true secondCall _ _ halone (Option.some_get _).symm)

/-- A crash that loses the second rename leaves what the first call wrote. -/
theorem atomicWrite_crash_atomic_sample :
    crashWorld.shared.storage.lose.read ((), [0x78]) = some [4, 5] ∧
    (crashWorld.shared.storage.lose.read ((), [0x78]) = some [9] ∨
      ∃ j bytes, Completed (durableCalls.writer j) (crashWorld.events j) bytes ∧
        crashWorld.shared.storage.lose.read ((), [0x78]) = some bytes) :=
  ⟨by decide, atomicWrite_crash_atomic sampleHost durableCalls durableMachine ((), [0x78]) [9]
    (fun j => by cases j <;> decide) ⟨0, ⟨rfl, fun _ ho => absurd ho List.not_mem_nil⟩, rfl⟩
    crashWorld crashWorld_reached _ (Storage.recovers_lose _)⟩

/-- Calls in any order, whose names are apart: whatever a crash leaves, at whatever
    moment, a target has the content it durably had before, or the complete bytes of a
    call on it whose writer returned `Ok`. -/
theorem atomicWrite_crash_interleaving (host : Host π δ) (calls : Calls ι π) (m₀ : Machine π δ)
    (k : δ × Bytes) (before : Bytes) (hpid : Function.Injective host.pid)
    (htarget : ∃ i, host.tree.resolveFile (calls.target i) = some k)
    (hbefore : DurablyHolds m₀.storage k before) (w : World π δ ι)
    (hrun : (calls.start m₀).Reaches (calls.exec host) (fun _ _ => True) w)
    (hnames : NamesApart host calls m₀ w)
    (r : Storage δ Bytes) (hr : w.shared.storage.Recovers r) :
    r.read k = some before ∨ ∃ j bytes, host.tree.resolveFile (calls.target j) = some k ∧
      Completed (calls.writer j) (w.events j) bytes ∧ r.read k = some bytes := by
  rcases hbefore with ⟨file₀, honly, hstable⟩
  rcases crashSound_of_reaches hpid htarget honly hrun with ⟨pc, htracked, hinv⟩
  exact read_of_recovers htracked hinv.consistent.files honly hstable (hinv.crash hnames) hr

end SkegHull
