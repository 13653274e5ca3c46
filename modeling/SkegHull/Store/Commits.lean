import SkegHull.Atomic.Contents

/-!
# Commits

A call of `atomicWrite` takes effect with its rename. `commits` lists the calls that have
made one, in the order of the log. The list is read off what the system did, nothing keeps
it while the calls run.

One event adds at most one call to the list (`commit_advance`). When it does, the target of
the call contains what its writer was to write, and no other name changes but temp names.
When it does not, nothing changes but temp names. So what is behind a name that is no temp
name is determined by the list.

A file behind such a name is frozen: it was there at the start, or a call has renamed it.
Nobody writes to it again, so whoever has opened it can take his time to read it.

## Main definitions

* `commits`: The calls that have renamed their files, in order.
* `WritesContent`: A writer that returns `Ok` has written this content.
* `Frozen`: Nobody writes to the file any more.

## Theorems

* `mem_commits_iff`, `commits_of_result`: A call that returned `Ok` is in the list, one that
  returned an error is not.
* `written_of_completed`: A writer that has returned `Ok` has written its content.
* `frozen_advance`: A frozen file stays so, with its content.
* `commit_advance`: What an event does to the names that are no temp names.
-/

namespace SkegHull

open Lib

variable {π δ ι : Type} [DecidableEq π] [DecidableEq δ] [DecidableEq ι]

/-! ### The list -/

/-- The call whose rename the event is. -/
def commitOf : ι × Event (@Reply δ) → Option ι
  | (i, ⟨.rename _ _, .ok ()⟩) => some i
  | _ => none

/-- The calls that have renamed their files, in order. -/
def commits (w : World π δ ι) : List ι := w.log.filterMap commitOf

omit [DecidableEq δ] [DecidableEq ι] [DecidableEq π] in
theorem commits_append (w : World π δ ι) (m : Machine π δ)
    (prog : ι → Program (@Reply δ) (Except Error Unit)) (e : ι × Event (@Reply δ)) :
    commits (⟨m, prog, w.log ++ [e]⟩ : World π δ ι) = commits w ++ (commitOf e).toList := by
  rw [commits, List.filterMap_append, commits, List.filterMap_cons, List.filterMap_nil]
  cases commitOf e <;> rfl

omit [DecidableEq δ] [DecidableEq ι] in
theorem commitOf_eq_some_iff (e : ι × Event (@Reply δ)) (i : ι) :
    commitOf e = some i ↔ ∃ src dst, e = (i, ⟨.rename src dst, .ok ()⟩) := by
  constructor
  · intro h
    rcases e with ⟨j, o, r⟩
    cases o with
    | rename src dst =>
        cases r with
        | ok u =>
            cases h
            exact ⟨src, dst, rfl⟩
        | error e => cases h
    | _ => cases h
  · rintro ⟨src, dst, rfl⟩
    rfl

omit [DecidableEq δ] [DecidableEq π] in
theorem mem_commits_iff (w : World π δ ι) (i : ι) :
    i ∈ commits w ↔ renames (w.events i) ≠ [] := by
  rw [commits, List.mem_filterMap]
  constructor
  · rintro ⟨e, hmem, he⟩
    rcases (commitOf_eq_some_iff e i).mp he with ⟨src, dst, rfl⟩
    exact List.ne_nil_of_mem
      (List.mem_filterMap.mpr ⟨_, (Pool.mem_events_iff w i _).mpr hmem, rfl⟩)
  · intro hne
    rcases List.exists_mem_of_ne_nil _ hne with ⟨x, hx⟩
    rcases List.mem_filterMap.mp hx with ⟨⟨o, r⟩, hmem, he⟩
    refine ⟨(i, ⟨o, r⟩), (Pool.mem_events_iff w i _).mp hmem, ?_⟩
    cases o with
    | rename src dst =>
        cases r with
        | ok u => rfl
        | error e => cases he
    | _ => cases he

section

variable {host : Host π δ} {calls : Calls ι π} {i : ι} {w w' : World π δ ι} {pc pc' : ι → Pc δ}
  {m₀ : Machine π δ}

omit [DecidableEq π] [DecidableEq δ] in
/-- A call is in the list when it has returned `Ok`, and not before it has begun or when it
    has returned an error. -/
theorem commits_of_result (htracked : Tracked calls w pc) :
    (w.events i = [] → i ∉ commits w) ∧ (w.prog i = .ret (.ok ()) → i ∈ commits w) ∧
      ∀ e, w.prog i = .ret (.error e) → i ∉ commits w := by
  simp only [mem_commits_iff, not_not, renames_of_trace (htracked.trace i)]
  refine ⟨fun hnone => ?_, fun hret => ?_, fun e hret => ?_⟩
  · rw [start_of_trace (htracked.trace i) hnone]
    rcases Pc.start_cases (δ := δ) (calls.target i) with h | h <;> rw [h] <;> rfl
  · rcases htracked.done hret with ⟨tmp, file, hpc⟩
    rcases done_ok_of_trace (htracked.trace i) tmp file hpc with ⟨t, n, rfl, rfl⟩
    rw [hpc]
    exact List.cons_ne_nil _ _
  · rcases htracked.done hret with ⟨tmp, file, hpc⟩
    rw [hpc]
    cases tmp <;> rfl

omit [DecidableEq π] [DecidableEq δ] in
/-- A call in the list is past its rename. -/
theorem moved_of_mem_commits (htracked : Tracked calls w pc) (h : i ∈ commits w) :
    ∃ file, (pc i).moved = some file := by
  rw [mem_commits_iff, renames_of_trace (htracked.trace i)] at h
  cases hpc : pc i with
  | openDir tmp file => exact ⟨file, rfl⟩
  | syncDir tmp file d => exact ⟨file, rfl⟩
  | done tmp file r =>
      cases r with
      | ok u =>
          rcases done_ok_of_trace (htracked.trace i) tmp file hpc with ⟨t, own, _, rfl⟩
          exact ⟨own, rfl⟩
      | error e =>
          rw [hpc] at h
          cases tmp <;> exact absurd rfl h
  | _ =>
      rw [hpc] at h
      exact absurd rfl h

omit [DecidableEq π] [DecidableEq δ] in
/-- The writer of a call in the list has returned `Ok`. -/
theorem completed_of_mem_commits (htracked : Tracked calls w pc) (h : i ∈ commits w) :
    Completed (calls.writer i) (w.events i) (written (w.events i)) := by
  rcases moved_of_mem_commits htracked h with ⟨file, hmoved⟩
  exact completed_of_moved (htracked.trace i) file hmoved

/-! ### What the writers write -/

/-- Every writer that returns `Ok` has written this content. -/
def WritesContent (calls : Calls ι π) (content : ι → Bytes) : Prop :=
  ∀ i, (calls.writer i).Yields (fun b => b = content i) []

omit [DecidableEq δ] in
theorem Writer.yields_true (f : Writer) (content : Bytes) : f.Yields (fun _ => True) content := by
  induction f generalizing content with
  | ret result => cases result <;> exact trivial
  | write pos bytes k ih => exact ⟨fun e => ih _ content, fun count _ => ih _ _⟩

omit [DecidableEq π] [DecidableEq δ] [DecidableEq ι] in
/-- What the writer has left to do leads to what it was to lead to, when no write has taken
    more than it was given. -/
theorem yields_of_trace {target : Bytes} {f : Writer} {P : Bytes → Prop}
    {es : List (Event (@Reply δ))} {q : Pc δ} (h : Trace target f es q) (hf : f.Yields P [])
    (htaken : ∀ file pos bytes (count : Nat), ⟨.write file pos bytes, .ok count⟩ ∈ es →
      count ≤ bytes.length) (u : Writer) (hu : f.after (replies es) = some u) :
    u.Yields P (written es) := by
  induction h generalizing u with
  | start =>
      cases (f.after_nil).symm.trans hu
      exact hf
  | @next es q q' e before hnext ih =>
      have hbefore := ih fun file pos bytes count hmem =>
        htaken file pos bytes count (List.mem_append_left _ hmem)
      rw [replies_append] at hu
      rw [written_append]
      -- Only a write is a reply to the writer, and only a write changes the content.
      cases hnext with
      | write tmp file pos bytes k r =>
          have hwrite := after_of_trace before (.write pos bytes k) rfl
          have hyields := hbefore _ hwrite
          cases (Writer.after_append f _ r pos bytes k hwrite).symm.trans hu
          cases r with
          | error e => exact hyields.1 e
          | ok count =>
              exact hyields.2 count (htaken file pos bytes count
                (List.mem_append_right _ List.mem_cons_self))
      | _ => exact hbefore u ((List.append_nil (replies es)) ▸ hu)

/-- A writer that has returned `Ok` has written its content. -/
theorem written_of_completed {content : ι → Bytes} (hwriters : WritesContent calls content)
    (htracked : Tracked calls w pc) {allowed : World π δ ι → ι → Prop}
    (hrun : (calls.start m₀ : World π δ ι).Reaches (calls.exec host) allowed w) {bytes : Bytes}
    (hdone : Completed (calls.writer i) (w.events i) bytes) : bytes = content i := by
  have hyields := yields_of_trace (htracked.trace i) (hwriters i)
    (fun file pos bytes count hmem => by
      rcases Pool.exec_of_mem hrun i _ hmem with ⟨m, m', c, hexec⟩
      rcases Machine.exec_write host _ m m' c file pos bytes _ hexec with
        ⟨e, he, _⟩ | ⟨count', hcount, heq, _⟩
      · cases he
      · cases heq
        exact hcount) _ hdone.2.1
  rw [← hdone.2.2]
  exact hyields

/-! ### Frozen files -/

/-- The file was there at the start, or a call has renamed it. -/
def Frozen (m₀ : Machine π δ) (pc : ι → Pc δ) (file : Nat) : Prop :=
  file < m₀.storage.fresh ∨ ∃ j, (pc j).moved = some file

omit [DecidableEq π] [DecidableEq δ] in
/-- What is behind a name that is no temp name is frozen. -/
theorem frozen_of_lookup (htracked : Tracked calls w pc) (h : Explained host calls m₀ w pc)
    {k : δ × Bytes} (htemp : ¬ IsTemp host w k) (file : Nat)
    (hfile : w.shared.storage.lookup k = some file) : Frozen m₀ pc file := by
  rcases h k file hfile with hold | ⟨j, hmoved, _⟩ | ⟨j, tmp, htried, hk, _⟩
  · exact Or.inl (m₀.storage.lookup_lt k file hold)
  · exact Or.inr ⟨j, hmoved⟩
  · exact absurd (isTemp_of_tried htracked htried hk) htemp

omit [DecidableEq π] [DecidableEq δ] in
/-- Frozen files exist. -/
theorem Frozen.lt (hfiles : Files m₀ w pc) {file : Nat} (h : Frozen m₀ pc file) :
    file < w.shared.storage.fresh := by
  rcases h with hold | ⟨j, hmoved⟩
  · exact Nat.lt_of_lt_of_le hold hfiles.fresh
  · exact (hfiles.bound j file (Pc.file_of_synced _ file (Pc.synced_of_moved _ file hmoved))).2

/-- A frozen file stays so, with its content. -/
theorem frozen_advance (hfiles : Files m₀ w pc) (hadv : Advance host calls i w pc w' pc')
    {file : Nat} (h : Frozen m₀ pc file) :
    Frozen m₀ pc' file ∧ w'.shared.storage.content file = w.shared.storage.content file := by
  have hlt := h.lt hfiles
  cases hadv with
  | @mk q q' o r m c hq hexec hnext =>
      subst hq
      have hname := nameEffect hexec hnext
      have hfile := fileEffect hexec hnext
      -- The call that makes the event has not got this file, or is past writing to it.
      by_cases hown : (pc i).file = some file
      · have hmoved : (pc i).moved = some file := by
          rcases h with hold | ⟨j, hmoved⟩
          · exact absurd (hfiles.bound i file hown).1 (Nat.not_le.mpr hold)
          · have hj := Pc.file_of_synced _ file (Pc.synced_of_moved _ file hmoved)
            rw [hfiles.inj i j file hown hj]
            exact hmoved
        refine ⟨Or.inr ⟨i, hname.moved_update i file hmoved⟩, ?_⟩
        rw [Storage.content, Storage.content]
        cases hfile with
        | same hsame => rw [hsame]
        | create _ _ hold =>
            rw [hown] at hold
            cases hold
        | write own pos bytes _ _ _ _ hsynced =>
            rw [Pc.synced_of_moved q' file (hname.moved file hmoved)] at hsynced
            cases hsynced
        | sync own hsync _ hold =>
            rw [hown, Option.some.injEq] at hold
            rw [hsync, hold, Function.update_self]
            rfl
      · refine ⟨?_, congrArg FileData.content (hfile.frame file hlt hown)⟩
        rcases h with hold | ⟨j, hmoved⟩
        · exact Or.inl hold
        · exact Or.inr ⟨j, hname.moved_update j file hmoved⟩

/-! ### One event -/

theorem isTemp_advance (hadv : Advance host calls i w pc w' pc') {k : δ × Bytes}
    (h : IsTemp host w k) : IsTemp host w' k := by
  rcases h with ⟨j, tmp, hmem, hk⟩
  exact ⟨j, tmp, temps_advance hadv j tmp hmem, hk⟩

section

variable {p : π} {target : Bytes} {f : Writer} {m m' : Machine π δ} {c : Choice} {o : Op δ}
  {r : Reply o} {q q' : Pc δ} {k : δ × Bytes}

omit [DecidableEq ι] in
/-- An event that commits nothing leaves the names alone that are no temp names. -/
theorem keeps_of_commitOf (hexec : Machine.exec host p o m c = some (r, m'))
    (hnext : q.Next target f ⟨o, r⟩ q') (hcommit : commitOf (i, ⟨o, r⟩) = none)
    (htemp : ∀ tmp, q'.tried = some tmp → host.tree.resolveFile tmp ≠ some k) :
    m'.storage.lookup k = m.storage.lookup k ∧
      ∀ P, m.storage.Only k P → m'.storage.Only k P := by
  have heffect := nameEffect hexec hnext
  cases heffect with
  | keep hlookup honly => exact ⟨hlookup k, honly k⟩
  | create tmp a u ha _ hm =>
      have hka : k ≠ a := fun heq => htemp tmp (Pc.tried_writing tmp _ u) (heq ▸ ha)
      rw [hm]
      exact ⟨m.storage.lookup_create_of_ne a k hka, fun P h => h.create a hka⟩
  | unlink tmp a file error ha hm =>
      have hka : k ≠ a := fun heq => htemp tmp rfl (heq ▸ ha)
      rw [hm]
      exact ⟨m.storage.lookup_unlink_of_ne a k hka, fun P h => h.unlink a hka⟩
  -- An event between these two states is a rename, and commits the call.
  | move =>
      cases hnext with
      | renameOk => cases hcommit

omit [DecidableEq ι] in
/-- An event that commits a call moves the call's own file from its temp name to its target. -/
theorem moves_of_commitOf {j : ι} (hexec : Machine.exec host p o m c = some (r, m'))
    (hnext : q.Next target f ⟨o, r⟩ q') (hcommit : commitOf (i, ⟨o, r⟩) = some j)
    (hheld : ∀ tmp file, q.held = some (tmp, file) →
      ∃ a, host.tree.resolveFile tmp = some a ∧ m.storage.lookup a = some file) :
    j = i ∧ ∃ tmp file a b, ∃ hlt : file < m.storage.fresh,
      q = .rename tmp file ∧ q' = .openDir tmp file ∧ host.tree.resolveFile tmp = some a ∧
      host.tree.resolveFile target = some b ∧ m'.storage = m.storage.move a b file hlt := by
  rcases (commitOf_eq_some_iff _ j).mp hcommit with ⟨src, dst, hevent⟩
  cases hevent
  cases hnext with
  | renameOk _ file =>
      rcases Machine.exec_rename host p m m' c src _ _ hexec with
        ⟨_, he, _⟩ | ⟨a, b, own, ha, hb, hfile, _, rfl⟩
      · cases he
      · cases eq_of_held (hheld src file rfl) ha hfile
        exact ⟨rfl, src, file, a, b, m.storage.lookup_lt a file hfile, rfl, rfl, ha, hb, rfl⟩

end

/-- What an event leaves behind a name that is no temp name: what was there, or what the call
    was to write there, if the event commits the call. -/
theorem commit_advance {content : ι → Bytes} (hwriters : WritesContent calls content)
    (htracked : Tracked calls w pc) (h : Contents host calls m₀ (fun _ => True) w pc)
    (hadv : Advance host calls i w pc w' pc') (hnames : NamesApart host calls m₀ w')
    {allowed : World π δ ι → ι → Prop}
    (hrun : (calls.start m₀ : World π δ ι).Reaches (calls.exec host) allowed w') :
    (commits w' = commits w ∧
      ∀ k, ¬ IsTemp host w' k → w'.shared.storage.read k = w.shared.storage.read k) ∨
    ∃ k, host.tree.resolveFile (calls.target i) = some k ∧ i ∉ commits w ∧
      commits w' = commits w ++ [i] ∧ w'.shared.storage.read k = some (content i) ∧
      ∀ k', k' ≠ k → ¬ IsTemp host w' k' →
        w'.shared.storage.read k' = w.shared.storage.read k' := by
  have hbefore := hnames.before hadv
  have hheld := (h.consistent.sound hbefore).held
  have htracked' := tracked_advance htracked hadv
  have hfiles' := files_advance htracked h.consistent.files hadv
  -- A name that keeps its file keeps its content, for the file is frozen.
  have hsame : ∀ k, ¬ IsTemp host w' k →
      w'.shared.storage.lookup k = w.shared.storage.lookup k →
      w'.shared.storage.read k = w.shared.storage.read k := by
    intro k htemp hlookup
    rw [Storage.read, Storage.read, hlookup]
    cases hfile : w.shared.storage.lookup k with
    | none => rfl
    | some file =>
        have hfrozen := frozen_of_lookup htracked (h.explained hbefore)
          (fun hw => htemp (isTemp_advance hadv hw)) file hfile
        rw [Option.map_some, Option.map_some,
          (frozen_advance h.consistent.files hadv hfrozen).2]
  have htried : ∀ tmp k, (pc' i).tried = some tmp → host.tree.resolveFile tmp = some k →
      IsTemp host w' k := fun _ _ htried hk => isTemp_of_tried htracked' htried hk
  cases hadv with
  | @mk q q' o r m c hq hexec hnext =>
      subst hq
      rw [commits_append]
      rw [Function.update_self] at htried
      cases hcommit : commitOf (i, ⟨o, r⟩) with
      | none =>
          exact Or.inl ⟨List.append_nil _, fun k htemp => hsame k htemp (keeps_of_commitOf hexec
            hnext hcommit fun tmp hused hk => htemp (htried tmp k hused hk)).1⟩
      | some j =>
          rcases moves_of_commitOf hexec hnext hcommit (hheld i) with
            ⟨rfl, tmp, own, a, b, hlt, hq, rfl, ha, hb, hm⟩
          have hmoved : (Function.update pc j (.openDir tmp own) j).moved = some own := by
            rw [Function.update_self]
            rfl
          -- What moves is what the writer of the call has written.
          have hcontent := hfiles'.content j own (Pc.file_of_synced _ own
            (Pc.synced_of_moved _ own hmoved))
          have hdone := written_of_completed hwriters htracked' hrun
            (completed_of_moved (htracked'.trace j) own hmoved)
          refine Or.inr ⟨b, hb, ?_, rfl, ?_, fun k hk htemp => hsame k htemp ?_⟩
          · rw [mem_commits_iff, not_not, renames_of_trace (htracked.trace j), hq]
            rfl
          · have hlookup : m.storage.lookup b = some own := by
              rw [hm]
              exact Storage.lookup_move_dst _ a b own hlt
            rw [Storage.read, hlookup, Option.map_some, ← hdone]
            exact congrArg some hcontent
          · have hka : k ≠ a := fun heq => htemp (htried tmp k rfl (heq ▸ ha))
            rw [hm]
            exact Storage.lookup_move_of_ne _ a b k own hlt hka hk

end

end SkegHull
