import SkegHull.Atomic.Interleaving

/-!
# What Is Behind a Name

What any process that looks into a directory can find there while calls are
under way. A file was there at the start and is as it was, or a call has renamed
it onto its target, or it is the temp file of a call and under that call's own
temp name (`Explained`). In the second case the call's writer returned `Ok`, so
the file has whatever property the writer sees to (`Writer.Yields`): the file is
complete. Only a temp file can be anything else.

Names that are no temp names do not lose their file either, so what was found
there once is found there again, complete or as at the start (`stays_advance`).

## Main definitions

* `Writer.Yields`: Whenever the writer returns `Ok`, the content has a property.
* `IsTemp`: A call has tried to create its temp file under the name.
* `Explained`: Where the file behind a name comes from.
* `Contents`: What every event preserves.

## Theorems

* `yields_advance`, `explained_advance`, `contents_advance`: What one event
  preserves.
* `content_cases`: What is behind a name.
* `content_of_temp`: What is behind a temp name whose writer has returned `Ok`.
* `stays_advance`: What one event leaves behind a name that is no temp name.
-/

namespace SkegHull

open Lib

/-- Whatever becomes of the writes, the content has the property when the writer returns
    `Ok`. -/
def Writer.Yields (P : Bytes → Prop) : Writer → Bytes → Prop
  | .ret (.ok _), content => P content
  | .ret (.error _), _ => True
  | .write pos bytes k, content =>
      (∀ e, (k (.error e)).Yields P content) ∧
        ∀ count ≤ bytes.length, (k (.ok count)).Yields P (writeAt content pos (bytes.take count))

variable {π δ ι : Type} [DecidableEq π] [DecidableEq δ] [DecidableEq ι]

/-- A call has tried to create its temp file under this name. -/
def IsTemp (host : Host π δ) (w : World π δ ι) (k : δ × Bytes) : Prop :=
  ∃ i tmp, tmp ∈ temps (w.events i) ∧ host.tree.resolveFile tmp = some k

/-- What the writers have left to do leads to the property. -/
def Yielding (calls : Calls ι π) (P : Bytes → Prop) (w : World π δ ι) : Prop :=
  ∀ i u, (calls.writer i).after (replies (w.events i)) = some u → u.Yields P (written (w.events i))

/-- The file behind a name was there at the start, or was renamed onto a target, or is
    the temp file of a call. -/
def Explained (host : Host π δ) (calls : Calls ι π) (m₀ : Machine π δ) (w : World π δ ι)
    (pc : ι → Pc δ) : Prop :=
  ∀ k file, w.shared.storage.lookup k = some file →
    m₀.storage.lookup k = some file ∨
    (∃ j, (pc j).moved = some file ∧ host.tree.resolveFile (calls.target j) = some k) ∨
    ∃ j tmp, (pc j).tried = some tmp ∧ host.tree.resolveFile tmp = some k ∧
      (pc j).file = some file

section

variable {host : Host π δ} {calls : Calls ι π} {i : ι} {w w' : World π δ ι} {pc pc' : ι → Pc δ}
  {m₀ : Machine π δ} {P : Bytes → Prop}

theorem yields_advance (htracked : Tracked calls w pc) (h : Yielding calls P w)
    (hadv : Advance host calls i w pc w' pc') : Yielding calls P w' := by
  cases hadv with
  | @mk q q' o r m c hq hexec hnext =>
      intro j u hu
      by_cases hj : j = i
      · subst hj
        rw [Pool.events_append_self] at hu ⊢
        rw [replies_append] at hu
        rw [written_append]
        have hbefore := h j
        have hafter := after_of_trace (htracked.trace j)
        rw [hq] at hafter
        -- Only a write is a reply to the writer, and only a write changes the content.
        cases hnext with
        | write tmp file pos bytes k r =>
            have hwrite := hafter (.write pos bytes k) rfl
            have hyields := hbefore _ hwrite
            have hk := Writer.after_append _ _ r pos bytes k hwrite
            have hu' : u = k r := Option.some.inj (hu.symm.trans hk)
            rw [hu']
            rcases Machine.exec_write host _ _ m c file pos bytes r hexec with
              ⟨e, rfl, _⟩ | ⟨count, hcount, rfl, _⟩
            · exact hyields.1 e
            · exact hyields.2 count hcount
        | _ => exact hbefore u ((List.append_nil (replies (w.events j))) ▸ hu)
      · rw [Pool.events_append_of_ne w m _ i j _ hj] at hu ⊢
        exact h j u hu

omit [DecidableEq π] [DecidableEq δ] [DecidableEq ι] in
theorem explained_start : Explained host calls m₀ (calls.start m₀ : World π δ ι)
    fun i => .start (calls.target i) := fun _ _ h => Or.inl h

theorem explained_advance (hheld : Held host w pc) (h : Explained host calls m₀ w pc)
    (hadv : Advance host calls i w pc w' pc') : Explained host calls m₀ w' pc' := by
  cases hadv with
  | @mk q q' o r m c hq hexec hnext =>
      subst hq
      have heffect := nameEffect hexec hnext
      intro k file hfile
      -- A name that the event leaves alone keeps its explanation.
      have hkeep : w.shared.storage.lookup k = some file → m₀.storage.lookup k = some file ∨
          (∃ j, (Function.update pc i q' j).moved = some file ∧
            host.tree.resolveFile (calls.target j) = some k) ∨
          ∃ j tmp, (Function.update pc i q' j).tried = some tmp ∧
            host.tree.resolveFile tmp = some k ∧
            (Function.update pc i q' j).file = some file := by
        intro hsame
        rcases h k file hsame with hold | ⟨j, hmoved, htarget⟩ | ⟨j, tmp, htried, hk, hown⟩
        · exact Or.inl hold
        · exact Or.inr (Or.inl ⟨j, heffect.moved_update j file hmoved, htarget⟩)
        · refine Or.inr (Or.inr ⟨j, tmp, ?_, hk, ?_⟩)
          · by_cases hj : j = i
            · rw [hj, Function.update_self]
              rw [hj] at htried
              exact Pc.tried_of_next hnext tmp (Pc.tmp_of_tried _ tmp htried)
            · rw [Function.update_of_ne hj]
              exact htried
          · by_cases hj : j = i
            · rw [hj, Function.update_self]
              rw [hj] at hown
              exact Pc.file_of_next hnext file hown
            · rw [Function.update_of_ne hj]
              exact hown
      rcases heffect.source k file hfile with
        hsame | ⟨tmp, u, _, rfl, hk, _⟩ | ⟨tmp, own, a, hq, rfl, ha, htarget, hown⟩
      · exact hkeep hsame
      · refine Or.inr (Or.inr ⟨i, tmp, ?_, hk, ?_⟩)
        · rw [Function.update_self]
          exact Pc.tried_writing tmp file u
        · rw [Function.update_self]
          exact Pc.file_writing tmp file u
      -- What a call renames is the file it holds.
      · have heq := eq_of_held (hheld i tmp own (by rw [hq]; rfl)) ha hown
        refine Or.inr (Or.inl ⟨i, ?_, htarget⟩)
        rw [Function.update_self, heq]
        rfl

/-- A file that was there at the start gets no new name. -/
theorem old_of_advance (hheld : Held host w pc) (hfiles : Files m₀ w pc)
    (hadv : Advance host calls i w pc w' pc') (k : δ × Bytes) (file : Nat)
    (hold : file < m₀.storage.fresh) (hfile : w'.shared.storage.lookup k = some file) :
    w.shared.storage.lookup k = some file := by
  cases hadv with
  | @mk q q' o r m c hq hexec hnext =>
      subst hq
      have heffect := nameEffect hexec hnext
      rcases heffect.source k file hfile with
        hsame | ⟨tmp, u, _, _, _, hnew⟩ | ⟨tmp, own, a, hq, _, ha, _, hown⟩
      · exact hsame
      · have hfresh := hfiles.fresh
        omega
      -- What a call renames is its own file, which is newer.
      · have heq := eq_of_held (hheld i tmp own (by rw [hq]; rfl)) ha hown
        have hnew := (hfiles.bound i own (by rw [hq]; rfl)).1
        omega

/-- What every event preserves. -/
structure Contents (host : Host π δ) (calls : Calls ι π) (m₀ : Machine π δ) (P : Bytes → Prop)
    (w : World π δ ι) (pc : ι → Pc δ) : Prop where
  consistent : Consistent host calls m₀ w pc
  yields : Yielding calls P w
  explained : NamesApart host calls m₀ w → Explained host calls m₀ w pc

omit [DecidableEq δ] in
theorem contents_start (hwriters : ∀ i, (calls.writer i).Yields P []) :
    Contents host calls m₀ P (calls.start m₀ : World π δ ι) fun i => .start (calls.target i) := by
  refine ⟨consistent_start, fun i u hu => ?_, fun _ => explained_start⟩
  -- Nothing was written, and the writer has everything left to do.
  have hnil : (calls.start m₀ : World π δ ι).events i = [] := rfl
  rw [hnil, replies, List.filterMap_nil, Writer.after_nil, Option.some.injEq] at hu
  rw [hnil, ← hu]
  exact hwriters i

theorem contents_advance (hpid : Function.Injective host.pid) (htracked : Tracked calls w pc)
    (h : Contents host calls m₀ P w pc) (hadv : Advance host calls i w pc w' pc') :
    Contents host calls m₀ P w' pc' where
  consistent := consistent_advance hpid htracked h.consistent hadv
  yields := yields_advance htracked h.yields hadv
  explained := fun hnames =>
    have hbefore := hnames.before hadv
    explained_advance (h.consistent.sound hbefore).held (h.explained hbefore) hadv

omit [DecidableEq π] [DecidableEq δ] in
theorem isTemp_of_tried (htracked : Tracked calls w pc) {tmp : Bytes} {k : δ × Bytes}
    (htried : (pc i).tried = some tmp) (hk : host.tree.resolveFile tmp = some k) :
    IsTemp host w k := ⟨i, tmp, tried_mem htracked htried, hk⟩

/-- Only temp names lose their files. -/
theorem lost_advance (htracked : Tracked calls w pc) (hadv : Advance host calls i w pc w' pc')
    (k : δ × Bytes) (hsome : w.shared.storage.lookup k ≠ none) :
    w'.shared.storage.lookup k ≠ none ∨ IsTemp host w' k := by
  have htracked' := tracked_advance htracked hadv
  have htried : ∀ tmp, (pc' i).tried = some tmp → host.tree.resolveFile tmp = some k →
      IsTemp host w' k := fun _ => isTemp_of_tried htracked'
  cases hadv with
  | @mk q q' o r m c hq hexec hnext =>
      subst hq
      rw [Function.update_self] at htried
      rcases (nameEffect hexec hnext).lost k hsome with hkept | ⟨tmp, htmp, hk⟩
      · exact Or.inl hkept
      · exact Or.inr (htried tmp htmp hk)

omit [DecidableEq δ] in
/-- What is behind a name is as it was, or has the property, or is a temp file. -/
theorem content_cases (htracked : Tracked calls w pc) (h : Contents host calls m₀ P w pc)
    (hnames : NamesApart host calls m₀ w) (k : δ × Bytes) (file : Nat)
    (hfile : w.shared.storage.lookup k = some file) :
    (m₀.storage.lookup k = some file ∧
      w.shared.storage.content file = m₀.storage.content file) ∨
    P (w.shared.storage.content file) ∨ IsTemp host w k := by
  rcases h.explained hnames k file hfile with hold | ⟨j, hmoved, _⟩ | ⟨j, tmp, htried, hk, _⟩
  · refine Or.inl ⟨hold, ?_⟩
    rw [Storage.content, Storage.content,
      h.consistent.files.old file (m₀.storage.lookup_lt k file hold)]
  · refine Or.inr (Or.inl ?_)
    rw [h.consistent.files.content j file (Pc.file_of_synced _ file
      (Pc.synced_of_moved _ file hmoved))]
    exact h.yields j _ (completed_of_moved (htracked.trace j) file hmoved).2.1
  · exact Or.inr (Or.inr (isTemp_of_tried htracked htried hk))

omit [DecidableEq δ] in
/-- A temp file has the property once its writer has returned `Ok`. -/
theorem content_of_temp (hpid : Function.Injective host.pid) (htracked : Tracked calls w pc)
    (h : Contents host calls m₀ P w pc) (hnames : NamesApart host calls m₀ w) {tmp bytes : Bytes}
    {k : δ × Bytes} {file : Nat} (hmem : tmp ∈ temps (w.events i))
    (hk : host.tree.resolveFile tmp = some k)
    (hdone : Completed (calls.writer i) (w.events i) bytes)
    (hfile : w.shared.storage.lookup k = some file) : P (w.shared.storage.content file) := by
  rcases h.explained hnames k file hfile with hold | ⟨j, _, htarget⟩ | ⟨j, tmp', htried, hk', hown⟩
  · rw [hnames.absent i tmp k hmem hk] at hold
    cases hold
  · exact absurd htarget (hnames.target i j tmp k hmem hk)
  · -- Two temp names that lead to one place are those of one call.
    have hij : i = j := by
      by_contra hne
      rw [temps_of_trace (htracked.trace i), Option.mem_toList] at hmem
      refine lastPiece_ne hpid htracked h.consistent.pids h.consistent.tickets hnames.few hne
        (Pc.tmp_of_tried _ tmp hmem) (Pc.tmp_of_tried _ tmp' htried) ?_
      rw [host.tree.lastPiece_of_resolveFile tmp k hk,
        host.tree.lastPiece_of_resolveFile tmp' k hk']
    rw [h.consistent.files.content j file hown, ← hij]
    exact h.yields i _ hdone.2.1

/-- What has the property behind a name that is no temp name has it after an event. -/
theorem stays_advance {Q : Bytes → Prop} (hPQ : ∀ b, P b → Q b) (htracked : Tracked calls w pc)
    (h : Contents host calls m₀ P w pc) (hpid : Function.Injective host.pid)
    (hnames : NamesApart host calls m₀ w') (hadv : Advance host calls i w pc w' pc')
    (k : δ × Bytes) (bytes : Bytes) (hread : w.shared.storage.read k = some bytes)
    (hQ : Q bytes) :
    IsTemp host w' k ∨ ∃ bytes', w'.shared.storage.read k = some bytes' ∧ Q bytes' := by
  rcases Option.map_eq_some_iff.mp hread with ⟨file, hfile, hcontent⟩
  have hbefore := h.consistent.sound (hnames.before hadv)
  have hlost := lost_advance htracked hadv k (by rw [hfile]; exact Option.some_ne_none file)
  cases hfile' : w'.shared.storage.lookup k with
  | none => exact Or.inl (hlost.resolve_left (not_not.mpr hfile'))
  | some file' =>
      rcases content_cases (tracked_advance htracked hadv) (contents_advance hpid htracked h hadv)
        hnames k file' hfile' with ⟨hold, hsame⟩ | hP | htemp
      · refine Or.inr ⟨_, congrArg (Option.map _) hfile', ?_⟩
        -- A file of the start has been behind the name all the time, and is as it was.
        have hlt := m₀.storage.lookup_lt k file' hold
        have hthere := old_of_advance hbefore.held h.consistent.files hadv k file' hlt hfile'
        rw [hfile, Option.some.injEq] at hthere
        rw [hsame, ← hthere]
        rw [← hthere] at hlt
        have hcontent' : w.shared.storage.content file = m₀.storage.content file := by
          rw [Storage.content, Storage.content, h.consistent.files.old file hlt]
        rw [← hcontent', hcontent]
        exact hQ
      · exact Or.inr ⟨_, congrArg (Option.map _) hfile', hPQ _ hP⟩
      · exact Or.inl htemp

end

end SkegHull
