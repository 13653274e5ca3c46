import SkegHull.Atomic.Calls

/-!
# Names

What the events of a call do to the names of the directories, and which names a
call can touch at all.

A call touches its temp name and its target, and no other name. It finds its
file under its temp name until it renames it (`Held`), provided that no other
call touches that name; `Clear` is that proviso, for one event. It holds in two
ways: no other call is under way, or the names of all calls are different.

A temp name determines the process and the ticket it was made from
(`locate_tmp`), so two calls with one temp name would have to be calls of one
process with one ticket.

## Main definitions

* `NameEffect`: What an event does to the names.
* `Held`: Every call that has not renamed its file finds it under its temp name.
* `Clear`: An event touches no name under which another call holds its file.

## Theorems

* `nameEffect`: Every event has one of the effects.
* `NameEffect.change`, `NameEffect.lookup`: An event changes at most two names.
* `NameEffect.source`, `NameEffect.lost`: Where names have their files from, and
  how they lose them.
* `locate_tmp`, `locate_target`: Where temp paths and targets lead.
* `held_advance`: Events preserve `Held` while they are clear.
-/

namespace SkegHull

open Lib

variable {π δ ι : Type} [DecidableEq π] [DecidableEq δ] [DecidableEq ι]

/-- What an event does to the names. -/
inductive NameEffect (tree : DirTree δ) (target : Bytes) (m m' : Storage δ Bytes)
    (e : Event (@Reply δ)) : Pc δ → Pc δ → Prop where
  | keep {q q' : Pc δ} (hlookup : ∀ k, m'.lookup k = m.lookup k)
      (honly : ∀ k P, m.Only k P → m'.Only k P)
      (hheld : q'.held = none ∨ q'.held = q.held) (hmoved : q'.moved = q.moved)
      (hgone : q'.gone = none ∨ q'.gone = q.gone ∨
        ∃ tmp error, q'.gone = some tmp ∧ e = ⟨.removeFile tmp, .error error⟩) :
      NameEffect tree target m m' e q q'
  | create (tmp : Bytes) (k : δ × Bytes) (w : Writer) (hk : tree.resolveFile tmp = some k)
      (hnone : m.lookup k = none) (hm : m' = m.create k) :
      NameEffect tree target m m' e (.create tmp) (.writing tmp m.fresh w)
  | unlink (tmp : Bytes) (k : δ × Bytes) (file : Option Nat) (error : Error)
      (hk : tree.resolveFile tmp = some k) (hm : m' = m.unlink k) :
      NameEffect tree target m m' e (.cleanup tmp file error) (.done (some tmp) file (.error error))
  | move (tmp : Bytes) (a b : δ × Bytes) (file file' : Nat) (ha : tree.resolveFile tmp = some a)
      (hb : tree.resolveFile target = some b) (hfile : m.lookup a = some file')
      (hm : m' = m.move a b file' (m.lookup_lt a file' hfile)) :
      NameEffect tree target m m' e (.rename tmp file) (.openDir tmp file)

section

variable {host : Host π δ} {p : π} {target : Bytes} {f : Writer} {m m' : Machine π δ}
  {c : Choice} {o : Op δ} {r : Reply o} {q q' : Pc δ}

theorem nameEffect (hexec : Machine.exec host p o m c = some (r, m'))
    (hnext : q.Next target f ⟨o, r⟩ q') :
    NameEffect host.tree target m.storage m'.storage ⟨o, r⟩ q q' := by
  -- Most events leave the directories alone, and differ in the states only.
  have hsame : ∀ {q q' : Pc δ} {e : Event (@Reply δ)} {s : Storage δ Bytes},
      s.dirs = m.storage.dirs → q'.held = none ∨ q'.held = q.held → q'.moved = q.moved →
      (q'.gone = none ∨ q'.gone = q.gone ∨
        ∃ tmp error, q'.gone = some tmp ∧ e = ⟨.removeFile tmp, .error error⟩) →
      NameEffect host.tree target m.storage s e q q' := by
    intro q q' e s hdirs hheld hmoved hgone
    refine .keep (fun k => ?_) (fun k P h => ?_) hheld hmoved hgone
    · rw [Storage.lookup, hdirs, Storage.lookup]
    · rw [Storage.Only, hdirs]
      exact h
  cases hnext with
  | processId pid =>
      rw [(Machine.exec_processId host p m m' c pid hexec).2]
      exact hsame rfl (Or.inl rfl) rfl (Or.inl rfl)
  | now pid time =>
      rw [Machine.exec_now host p m m' c time hexec]
      exact hsame rfl (Or.inl rfl) rfl (Or.inl rfl)
  | fetchAdd pid time counter =>
      rw [(Machine.exec_fetchAdd host p m m' c counter hexec).2, Pc.named]
      cases Path.fileName target with
      | none => exact hsame rfl (Or.inl rfl) rfl (Or.inl rfl)
      | some name => exact hsame rfl (Or.inl rfl) rfl (Or.inl rfl)
  | createOk tmp file =>
      rcases Machine.exec_createNew host p m m' c tmp _ hexec with
        ⟨e, he, _⟩ | ⟨k, hk, hnone, hr, rfl⟩
      · cases he
      · cases hr
        exact .create tmp k f hk hnone rfl
  | createErr tmp e =>
      rcases Machine.exec_createNew host p m m' c tmp _ hexec with
        ⟨_, _, rfl, _⟩ | ⟨k, _, _, hr, _⟩
      · exact hsame rfl (Or.inl rfl) rfl (Or.inl rfl)
      · cases hr
  | write tmp file pos bytes k r =>
      -- A writer that has failed gives its file up, any other one keeps it.
      have hheld : (Pc.writing tmp file (k r) : Pc δ).held = none ∨
          (Pc.writing tmp file (k r) : Pc δ).held = some (tmp, file) := by
        cases h : (Pc.writing tmp file (k r) : Pc δ).held with
        | none => exact Or.inl rfl
        | some x => exact Or.inr (by rw [Pc.held_writing tmp file (k r) x h])
      have hdirs : m'.storage.dirs = m.storage.dirs := by
        rcases Machine.exec_write host p m m' c file pos bytes r hexec with
          ⟨_, _, rfl⟩ | ⟨_, _, _, rfl⟩
        · rfl
        · rfl
      exact hsame hdirs hheld (Pc.moved_writing tmp file _) (Or.inl (Pc.gone_writing tmp file _))
  | flushOk tmp file =>
      rw [Machine.exec_flush host p m m' c file _ hexec]
      exact hsame rfl (Or.inr rfl) rfl (Or.inl rfl)
  | flushErr tmp file e =>
      rw [Machine.exec_flush host p m m' c file _ hexec]
      exact hsame rfl (Or.inl rfl) rfl (Or.inl rfl)
  | syncOk tmp file =>
      rcases Machine.exec_syncFile host p m m' c file _ hexec with ⟨e, he, _⟩ | ⟨_, rfl⟩
      · cases he
      · exact hsame rfl (Or.inr rfl) rfl (Or.inl rfl)
  | syncErr tmp file e =>
      rcases Machine.exec_syncFile host p m m' c file _ hexec with ⟨_, _, rfl⟩ | ⟨hr, _⟩
      · exact hsame rfl (Or.inl rfl) rfl (Or.inl rfl)
      · cases hr
  | renameOk tmp file =>
      rcases Machine.exec_rename host p m m' c tmp target _ hexec with
        ⟨e, he, _⟩ | ⟨a, b, file', ha, hb, hfile, _, rfl⟩
      · cases he
      · exact .move tmp a b file file' ha hb hfile rfl
  | renameErr tmp file e =>
      rcases Machine.exec_rename host p m m' c tmp target _ hexec with
        ⟨_, _, rfl⟩ | ⟨a, b, file', _, _, _, hr, _⟩
      · exact hsame rfl (Or.inl rfl) rfl (Or.inl rfl)
      · cases hr
  | openDirOk tmp file dir =>
      rw [(Machine.exec_openDir host p m m' c _ _ hexec).1]
      exact hsame rfl (Or.inl rfl) rfl (Or.inr (Or.inl rfl))
  | openDirErr tmp file e =>
      rw [(Machine.exec_openDir host p m m' c _ _ hexec).1]
      exact hsame rfl (Or.inl rfl) rfl (Or.inr (Or.inl rfl))
  | syncDir tmp file dir r =>
      rcases Machine.exec_syncDir host p m m' c dir r hexec with ⟨_, _, rfl⟩ | ⟨_, rfl⟩
      · exact hsame rfl (Or.inl rfl) rfl (Or.inr (Or.inl rfl))
      -- Synchronising a directory makes its entries stable, and changes none.
      · exact .keep (fun k => m.storage.lookup_syncDir dir k) (fun _ _ h => h.syncDir dir)
          (Or.inl rfl) rfl (Or.inr (Or.inl rfl))
  | removeFile tmp file e r =>
      rcases Machine.exec_removeFile host p m m' c tmp r hexec with
        ⟨error, rfl, rfl⟩ | ⟨k, hk, _, rfl⟩
      · exact hsame rfl (Or.inl rfl) rfl (Or.inr (Or.inr ⟨tmp, error, rfl, rfl⟩))
      · exact .unlink tmp k file e hk rfl

/-- An event leaves the file behind a name, or the name is the temp name the call has
    used, or the target of its rename. -/
theorem NameEffect.change {tree : DirTree δ} {s s' : Storage δ Bytes} {e : Event (@Reply δ)}
    (h : NameEffect tree target s s' e q q') (k : δ × Bytes) :
    s'.lookup k = s.lookup k ∨
    (∃ tmp, q.tmp = some tmp ∧ q'.tried = some tmp ∧ tree.resolveFile tmp = some k) ∨
    ∃ tmp own a file, q = .rename tmp own ∧ q' = .openDir tmp own ∧
      tree.resolveFile tmp = some a ∧ tree.resolveFile target = some k ∧
      s.lookup a = some file ∧ s'.lookup k = some file := by
  cases h with
  | keep hlookup => exact Or.inl (hlookup k)
  | create tmp k' u hk' _ hm =>
      by_cases hk : k = k'
      · exact Or.inr (Or.inl ⟨tmp, rfl, Pc.tried_writing tmp _ u, hk ▸ hk'⟩)
      · rw [hm]
        exact Or.inl (s.lookup_create_of_ne k' k hk)
  | unlink tmp k' file error hk' hm =>
      by_cases hk : k = k'
      · exact Or.inr (Or.inl ⟨tmp, rfl, rfl, hk ▸ hk'⟩)
      · rw [hm]
        exact Or.inl (s.lookup_unlink_of_ne k' k hk)
  | move tmp a b own file ha hb hfile hm =>
      by_cases hkb : k = b
      · refine Or.inr (Or.inr ⟨tmp, own, a, file, rfl, rfl, ha, hkb ▸ hb, hfile, ?_⟩)
        rw [hm, hkb, s.lookup_move_dst]
      · by_cases hka : k = a
        · exact Or.inr (Or.inl ⟨tmp, rfl, rfl, hka ▸ ha⟩)
        · rw [hm]
          exact Or.inl (s.lookup_move_of_ne a b k file _ hka hkb)

omit [DecidableEq π] in
/-- An event changes at most the call's temp name and its target. -/
theorem NameEffect.lookup {tree : DirTree δ} {s s' : Storage δ Bytes} {e : Event (@Reply δ)}
    (h : NameEffect tree target s s' e q q') (k : δ × Bytes)
    (htmp : ∀ tmp, q.tmp = some tmp → tree.resolveFile tmp ≠ some k)
    (htarget : tree.resolveFile target ≠ some k) : s'.lookup k = s.lookup k := by
  rcases h.change k with hsame | ⟨tmp, hused, _, hk⟩ | ⟨_, _, _, _, _, _, _, hk, _⟩
  · exact hsame
  · exact absurd hk (htmp tmp hused)
  · exact absurd hk htarget

omit [DecidableEq π] in
/-- Where a name has its file from: it had it before, or the file is new, or it was
    renamed. -/
theorem NameEffect.source {tree : DirTree δ} {s s' : Storage δ Bytes} {e : Event (@Reply δ)}
    (h : NameEffect tree target s s' e q q') (k : δ × Bytes) (file : Nat)
    (hfile : s'.lookup k = some file) :
    s.lookup k = some file ∨
    (∃ tmp u, q = .create tmp ∧ q' = .writing tmp file u ∧ tree.resolveFile tmp = some k ∧
      file = s.fresh) ∨
    ∃ tmp own a, q = .rename tmp own ∧ q' = .openDir tmp own ∧ tree.resolveFile tmp = some a ∧
      tree.resolveFile target = some k ∧ s.lookup a = some file := by
  cases h with
  | keep hlookup => exact Or.inl ((hlookup k).symm.trans hfile)
  | create tmp k' u hk' _ hm =>
      by_cases hk : k = k'
      · rw [hm, hk, s.lookup_create_self, Option.some.injEq] at hfile
        subst hfile
        exact Or.inr (Or.inl ⟨tmp, u, rfl, rfl, hk ▸ hk', rfl⟩)
      · rw [hm, s.lookup_create_of_ne k' k hk] at hfile
        exact Or.inl hfile
  | unlink tmp k' own error hk' hm =>
      by_cases hk : k = k'
      · rw [hm, hk, s.lookup_unlink_self] at hfile
        cases hfile
      · rw [hm, s.lookup_unlink_of_ne k' k hk] at hfile
        exact Or.inl hfile
  | move tmp a b own file' ha hb hown hm =>
      by_cases hkb : k = b
      · rw [hm, hkb, s.lookup_move_dst, Option.some.injEq] at hfile
        exact Or.inr (Or.inr ⟨tmp, own, a, rfl, rfl, ha, hkb ▸ hb, hfile ▸ hown⟩)
      · by_cases hka : k = a
        · rw [hm, hka, s.lookup_move_src a b file' _ (hka ▸ hkb)] at hfile
          cases hfile
        · rw [hm, s.lookup_move_of_ne a b k file' _ hka hkb] at hfile
          exact Or.inl hfile

omit [DecidableEq π] in
/-- A name that loses its file is a temp name that the call has used. -/
theorem NameEffect.lost {tree : DirTree δ} {s s' : Storage δ Bytes} {e : Event (@Reply δ)}
    (h : NameEffect tree target s s' e q q') (k : δ × Bytes) (hsome : s.lookup k ≠ none) :
    s'.lookup k ≠ none ∨ ∃ tmp, q'.tried = some tmp ∧ tree.resolveFile tmp = some k := by
  rcases h.change k with hsame | ⟨tmp, _, htried, hk⟩ | ⟨_, _, _, file, _, _, _, _, _, hfile⟩
  · exact Or.inl (hsame ▸ hsome)
  · exact Or.inr ⟨tmp, htried, hk⟩
  · refine Or.inl ?_
    rw [hfile]
    exact Option.some_ne_none file

omit [DecidableEq π] in
/-- A file that was renamed stays so. -/
theorem NameEffect.moved {tree : DirTree δ} {s s' : Storage δ Bytes} {e : Event (@Reply δ)}
    (h : NameEffect tree target s s' e q q') (file : Nat) (hmoved : q.moved = some file) :
    q'.moved = some file := by
  cases h with
  | keep _ _ _ hsame => rw [hsame, hmoved]
  | create => cases hmoved
  | unlink => cases hmoved
  | move => cases hmoved

/-- A call finds its file where it was, or has just created it. -/
theorem NameEffect.held {tree : DirTree δ} {s s' : Storage δ Bytes} {e : Event (@Reply δ)}
    (heffect : NameEffect tree target s s' e q q')
    (h : ∀ tmp file, q.held = some (tmp, file) →
      ∃ k, tree.resolveFile tmp = some k ∧ s.lookup k = some file)
    (tmp : Bytes) (file : Nat) (hheld : q'.held = some (tmp, file)) :
    ∃ k, tree.resolveFile tmp = some k ∧ s'.lookup k = some file := by
  cases heffect with
  | keep hlookup _ hkept =>
      rcases hkept with hnone | hsame
      · rw [hnone] at hheld
        cases hheld
      · rcases h tmp file (hsame ▸ hheld) with ⟨k, hk, hfile⟩
        exact ⟨k, hk, (hlookup k).trans hfile⟩
  | create tmp' k w hk hnone hm =>
      cases Pc.held_writing tmp' _ w _ hheld
      exact ⟨k, hk, by rw [hm]; exact Storage.lookup_create_self _ k⟩
  | unlink => cases hheld
  | move => cases hheld

omit [DecidableEq π] in
/-- The files that were renamed before an event still are. -/
theorem NameEffect.moved_update {tree : DirTree δ} {s s' : Storage δ Bytes}
    {e : Event (@Reply δ)} {pc : ι → Pc δ} {i : ι} (h : NameEffect tree target s s' e (pc i) q')
    (j : ι) (file : Nat) (hj : (pc j).moved = some file) :
    (Function.update pc i q' j).moved = some file := by
  by_cases hji : j = i
  · rw [hji, Function.update_self]
    exact h.moved file (hji ▸ hj)
  · rw [Function.update_of_ne hji]
    exact hj

end

/-! ### Where names lead -/

section

variable {tree : DirTree δ} {target tmp : Bytes} {es : List (Event (@Reply δ))} {k : δ × Bytes}

omit [DecidableEq δ]

/-- A target ends in its file name, in the directory that its parent stands for. -/
theorem locate_target (h : tree.resolveFile target = some k) :
    Path.parent target = some (dirPath target) ∧ Path.fileName target = some k.2 ∧
      tree.dirOf (dirPath target) = some k.1 := by
  rcases tree.resolveFile_parent target k.2 k.1 h with ⟨dir, hparent, hname, hdir⟩
  have hpath : dirPath target = dir := by rw [dirPath, hparent, Option.getD_some]
  rw [hpath]
  exact ⟨hparent, hname, hdir⟩

/-- A temp path ends in its temp name, in the directory that its target's parent
    stands for. -/
theorem locate_tmp (h : Named target es tmp) (hk : tree.resolveFile tmp = some k) :
    tree.dirOf (dirPath target) = some k.1 ∧ ∃ name pid nanos counter,
      Path.fileName target = some name ∧ k.2 = tmpName name pid nanos counter ∧
      ⟨.processId, pid⟩ ∈ es ∧ tickets es = [counter] := by
  rcases h with ⟨name, pid, nanos, counter, hname, rfl, hpid, hticket⟩
  rw [tree.resolveFile_join _ _
    (isName_tmpName name pid nanos counter (Path.isName_of_fileName target name hname))] at hk
  rcases Option.map_eq_some_iff.mp hk with ⟨d, hd, rfl⟩
  exact ⟨hd, name, pid, nanos, counter, hname, rfl, hpid, hticket⟩

/-- A temp path does not lead to its own target. -/
theorem tmp_ne_target (h : Named target es tmp) (hk : tree.resolveFile tmp = some k) :
    tree.resolveFile target ≠ some k := by
  intro htarget
  rcases locate_tmp h hk with ⟨_, name, pid, nanos, counter, hname, hk', _⟩
  rw [(locate_target htarget).2.1, Option.some.injEq] at hname
  exact tmpName_ne name pid nanos counter (hk'.symm.trans hname)

end

/-! ### Who holds what -/

section

variable {host : Host π δ} {calls : Calls ι π} {i : ι} {w w' : World π δ ι} {pc pc' : ι → Pc δ}

omit [DecidableEq π] [DecidableEq ι] in
/-- The temp file of a call that is past its rename or its cleanup is gone, or removing
    it failed. -/
theorem NameEffect.gone {tree : DirTree δ} {target : Bytes} {es : List (Event (@Reply δ))}
    {s s' : Storage δ Bytes} {e : Event (@Reply δ)} {q q' : Pc δ}
    (heffect : NameEffect tree target s s' e q q')
    (hnamed : ∀ tmp, q.tmp = some tmp → Named target es tmp)
    (h : ∀ tmp k, q.gone = some tmp → tree.resolveFile tmp = some k →
      s.lookup k = none ∨ ∃ error, ⟨.removeFile tmp, .error error⟩ ∈ es)
    (tmp : Bytes) (k : δ × Bytes) (hgone : q'.gone = some tmp)
    (hk : tree.resolveFile tmp = some k) :
    s'.lookup k = none ∨ ∃ error, ⟨.removeFile tmp, .error error⟩ ∈ es ++ [e] := by
  cases heffect with
  | keep hlookup _ _ _ hsame =>
      rcases hsame with hnone | hsame | ⟨tmp', error, hgone', he⟩
      · rw [hnone] at hgone
        cases hgone
      · rcases h tmp k (hsame ▸ hgone) hk with hnone | ⟨error, hmem⟩
        · exact Or.inl ((hlookup k).trans hnone)
        · exact Or.inr ⟨error, List.mem_append_left _ hmem⟩
      · rw [hgone', Option.some.injEq] at hgone
        refine Or.inr ⟨error, List.mem_append_right _ ?_⟩
        rw [← hgone, he]
        exact List.mem_cons_self
  | create tmp' k' w' =>
      rw [Pc.gone_writing] at hgone
      cases hgone
  | unlink tmp' k' file error hk' hm =>
      cases hgone
      rw [hk, Option.some.injEq] at hk'
      rw [hm, ← hk']
      exact Or.inl (Storage.lookup_unlink_self _ k)
  | move tmp' a b file file' ha hb hfile hm =>
      cases hgone
      rw [hk, Option.some.injEq] at ha
      subst ha
      rw [hm]
      exact Or.inl (Storage.lookup_move_src _ k b file' _ fun hkb =>
        tmp_ne_target (hnamed tmp rfl) hk (hkb ▸ hb))

/-- Every call that has not renamed its file finds it under its temp name. -/
def Held (host : Host π δ) (w : World π δ ι) (pc : ι → Pc δ) : Prop :=
  ∀ j tmp file, (pc j).held = some (tmp, file) →
    ∃ k, host.tree.resolveFile tmp = some k ∧ w.shared.storage.lookup k = some file

/-- The names of a call are not those under which another call holds its file. -/
def Clear (host : Host π δ) (calls : Calls ι π) (pc : ι → Pc δ) (i : ι) : Prop :=
  ∀ j, j ≠ i → ∀ tmp file k, (pc j).held = some (tmp, file) →
    host.tree.resolveFile tmp = some k →
    (∀ t, (pc i).tmp = some t → host.tree.resolveFile t ≠ some k) ∧
      host.tree.resolveFile (calls.target i) ≠ some k

omit [DecidableEq π] [DecidableEq δ] [DecidableEq ι] in
/-- The file found under a call's temp name is the one the call holds. -/
theorem eq_of_held {tree : DirTree δ} {s : Storage δ Bytes} {tmp : Bytes} {a : δ × Bytes}
    {file file' : Nat} (h : ∃ k, tree.resolveFile tmp = some k ∧ s.lookup k = some file)
    (ha : tree.resolveFile tmp = some a) (hfile : s.lookup a = some file') : file' = file := by
  rcases h with ⟨k, hk, hown⟩
  rw [ha, Option.some.injEq] at hk
  rw [← hk, hfile, Option.some.injEq] at hown
  exact hown

omit [DecidableEq π] [DecidableEq δ] [DecidableEq ι] in
theorem held_start (calls : Calls ι π) (m₀ : Machine π δ) :
    Held host (calls.start m₀ : World π δ ι) fun i => .start (calls.target i) := by
  intro j tmp file h
  have htmp := Pc.tmp_of_tried _ tmp (Pc.tried_of_held _ tmp file h)
  rw [Pc.tmp_start] at htmp
  cases htmp

theorem held_advance (hclear : Clear host calls pc i) (h : Held host w pc)
    (hadv : Advance host calls i w pc w' pc') : Held host w' pc' := by
  cases hadv with
  | @mk q q' o r m c hq hexec hnext =>
      subst hq
      have heffect := nameEffect hexec hnext
      intro j tmp file hheld
      -- The call itself keeps track of its file, and the others are not touched.
      by_cases hj : j = i
      · rw [hj, Function.update_self] at hheld
        exact heffect.held (h i) tmp file hheld
      · rw [Function.update_of_ne hj] at hheld
        rcases h j tmp file hheld with ⟨k, hk, hfile⟩
        rcases hclear j hj tmp file k hheld hk with ⟨htmp, htarget⟩
        exact ⟨k, hk, (heffect.lookup k htmp htarget).trans hfile⟩

end

end SkegHull
