import SkegHull.Atomic.Names

/-!
# Every Interleaving

Any number of calls of `atomicWrite` in any number of processes, in any order of
their events and with a failure wherever one can happen.

The names of the temp files are what keeps the calls apart. A process hands out
its tickets in order, so two calls of one process have different ones until the
counter wraps around, and two calls of different processes differ in the process
number; the clock does not matter. With the names apart, nobody touches a file
that another call still has under its temp name, and a target changes only when
a call renames its complete file onto it.

## Main definitions

* `issued`: The tickets that a process has handed out.
* `NamesApart`: What is assumed of the names and of the number of calls.
* `TargetsIntact`, `TempsExclusive`, `ResultsHonest`: What then holds.

## Theorems

* `tickets_advance`, `pids_advance`: The counters and the process numbers.
* `lastPiece_ne`: The temp names of two calls are different.
* `sound_advance`: What one event preserves.
* `atomicWrite_interleaving`: What holds of every run.
-/

namespace SkegHull

open Lib

variable {π δ ι : Type} [DecidableEq π] [DecidableEq δ] [DecidableEq ι]

/-! ### Tickets -/

/-- The ticket that an event takes from a process. -/
def issuedBy (calls : Calls ι π) (p : π) : ι × Event (@Reply δ) → Option (ι × UInt64)
  | (i, ⟨.fetchAdd, counter⟩) => if calls.proc i = p then some (i, counter) else none
  | _ => none

/-- The tickets that a process has handed out, and the calls that took them. -/
def issued (calls : Calls ι π) (w : World π δ ι) (p : π) : List (ι × UInt64) :=
  w.log.filterMap (issuedBy calls p)

/-- The process numbers are those of the host. -/
def Pids (host : Host π δ) (calls : Calls ι π) (w : World π δ ι) : Prop :=
  ∀ i pid, ⟨.processId, pid⟩ ∈ w.events i → pid = host.pid (calls.proc i)

/-- The tickets of a process count up from its counter's first value. -/
def Tickets (calls : Calls ι π) (m₀ : Machine π δ) (w : World π δ ι) : Prop :=
  ∀ p, w.shared.counter p = m₀.counter p + UInt64.ofNat (issued calls w p).length ∧
    ∀ n e, (issued calls w p)[n]? = some e → e.2 = m₀.counter p + UInt64.ofNat n

section

variable {host : Host π δ} {calls : Calls ι π} {i : ι} {w w' : World π δ ι} {pc pc' : ι → Pc δ}
  {m₀ : Machine π δ}

theorem pids_advance (h : Pids host calls w) (hadv : Advance host calls i w pc w' pc') :
    Pids host calls w' := by
  cases hadv with
  | @mk q q' o r m c hq hexec hnext =>
      intro j pid hmem
      by_cases hj : j = i
      · rw [hj, Pool.events_append_self] at hmem
        rcases List.mem_append.mp hmem with hmem | hmem
        · rw [hj]
          exact h i pid hmem
        -- The event itself asks for the number, and the host answers.
        · cases List.mem_singleton.mp hmem
          rw [hj]
          exact (Machine.exec_processId host _ _ m c pid hexec).1
      · rw [Pool.events_append_of_ne w m _ i j _ hj] at hmem
        exact h j pid hmem

omit [DecidableEq δ] [DecidableEq ι] in
theorem issued_append (m : Machine π δ) (prog : ι → Program (@Reply δ) (Except Error Unit))
    (e : ι × Event (@Reply δ)) (p : π) :
    issued calls (⟨m, prog, w.log ++ [e]⟩ : World π δ ι) p
      = issued calls w p ++ (issuedBy calls p e).toList := by
  rw [issued, List.filterMap_append, issued, List.filterMap_cons, List.filterMap_nil]
  cases issuedBy calls p e <;> rfl

omit [DecidableEq δ] [DecidableEq ι] in
theorem issuedBy_of_ne (e : Event (@Reply δ)) (p : π) (h : e.1 ≠ .fetchAdd) :
    issuedBy calls p (i, e) = none := by
  rcases e with ⟨o, r⟩
  cases o with
  | fetchAdd => exact absurd rfl h
  | _ => rfl

omit [DecidableEq δ] [DecidableEq ι] in
theorem issuedBy_fetchAdd (p : π) (counter : UInt64) :
    issuedBy calls p (i, (⟨.fetchAdd, counter⟩ : Event (@Reply δ)))
      = if calls.proc i = p then some (i, counter) else none := rfl

omit [DecidableEq δ] [DecidableEq ι] in
theorem tickets_start : Tickets calls m₀ (calls.start m₀ : World π δ ι) := by
  intro p
  refine ⟨?_, fun n e he => by cases he⟩
  have hzero : UInt64.ofNat 0 = 0 := rfl
  show m₀.counter p = m₀.counter p + UInt64.ofNat 0
  rw [hzero, UInt64.add_zero]

theorem tickets_advance (h : Tickets calls m₀ w) (hadv : Advance host calls i w pc w' pc') :
    Tickets calls m₀ w' := by
  cases hadv with
  | @mk q q' o r m c hq hexec hnext =>
      intro p
      rw [issued_append]
      rcases h p with ⟨hcounter, htickets⟩
      by_cases ho : o = .fetchAdd
      · subst ho
        rcases Machine.exec_fetchAdd host _ _ m c r hexec with ⟨rfl, rfl⟩
        rw [issuedBy_fetchAdd]
        by_cases hp : calls.proc i = p
        · -- The process hands out the next ticket.
          subst hp
          rw [if_pos rfl, Option.toList_some, List.length_append, List.length_singleton]
          refine ⟨?_, fun n e he => ?_⟩
          · simp only [Function.update_self, hcounter, UInt64.ofNat_add]
            rw [UInt64.add_assoc]
            rfl
          -- The earlier tickets are as before, the last one is the counter.
          · rcases Nat.lt_or_ge n (issued calls w (calls.proc i)).length with hn | hn
            · rw [List.getElem?_append_left hn] at he
              exact htickets n e he
            · rw [List.getElem?_append_right hn] at he
              rcases List.getElem?_eq_some_iff.mp he with ⟨hone, heq⟩
              rw [List.length_singleton] at hone
              rw [List.getElem_singleton] at heq
              rw [← heq, hcounter, show n = (issued calls w (calls.proc i)).length by omega]
        · rw [if_neg hp, Option.toList_none, List.append_nil]
          simp only [Function.update_of_ne (Ne.symm hp)]
          exact ⟨hcounter, htickets⟩
      · rw [issuedBy_of_ne _ p ho, Option.toList_none, List.append_nil]
        simp only [Machine.counter_of_exec host _ _ m c o r hexec ho]
        exact ⟨hcounter, htickets⟩

omit [DecidableEq δ] in
/-- A ticket in a call's history was handed out by its process. -/
theorem mem_issued (counter : UInt64) (h : counter ∈ tickets (w.events i)) :
    (i, counter) ∈ issued calls w (calls.proc i) := by
  rcases List.mem_filterMap.mp h with ⟨⟨o, r⟩, hmem, heq⟩
  have hlog := (Pool.mem_events_iff w i ⟨o, r⟩).mp hmem
  refine List.mem_filterMap.mpr ⟨(i, ⟨o, r⟩), hlog, ?_⟩
  cases o with
  | fetchAdd =>
      cases heq
      rw [issuedBy_fetchAdd, if_pos rfl]
  | _ => cases heq

omit [DecidableEq δ] [DecidableEq ι] in
/-- A process that has handed out fewer than `2 ^ 64` tickets has handed out none of
    them twice. -/
theorem ticket_unique (h : Tickets calls m₀ w) (p : π) (hfew : (issued calls w p).length < 2 ^ 64)
    (j : ι) (counter : UInt64) (hi : (i, counter) ∈ issued calls w p)
    (hj : (j, counter) ∈ issued calls w p) : i = j := by
  rcases List.mem_iff_getElem?.mp hi with ⟨n, hn⟩
  rcases List.mem_iff_getElem?.mp hj with ⟨n', hn'⟩
  have hlt := (List.getElem?_eq_some_iff.mp hn).1
  have hlt' := (List.getElem?_eq_some_iff.mp hn').1
  have heq : m₀.counter p + UInt64.ofNat n = m₀.counter p + UInt64.ofNat n' :=
    ((h p).2 n (i, counter) hn).symm.trans ((h p).2 n' (j, counter) hn')
  -- Both positions are below the wrap, so equal tickets stand at one position.
  have hnat := congrArg UInt64.toNat ((UInt64.add_right_inj _).mp heq)
  rw [UInt64.toNat_ofNat', UInt64.toNat_ofNat', Nat.mod_eq_of_lt (by omega),
    Nat.mod_eq_of_lt (by omega)] at hnat
  rw [hnat, hn'] at hn
  exact (congrArg Prod.fst (Option.some.inj hn)).symm

/-! ### Names -/

/-- What is assumed of a run: no process has wrapped its counter around, no file
    present at the start bears a temp name of the run, and no target is one. -/
structure NamesApart (host : Host π δ) (calls : Calls ι π) (m₀ : Machine π δ)
    (w : World π δ ι) : Prop where
  few : ∀ p, (issued calls w p).length < 2 ^ 64
  absent : ∀ i path k, path ∈ temps (w.events i) → host.tree.resolveFile path = some k →
    m₀.storage.lookup k = none
  target : ∀ i j path k, path ∈ temps (w.events i) → host.tree.resolveFile path = some k →
    host.tree.resolveFile (calls.target j) ≠ some k

theorem NamesApart.before (h : NamesApart host calls m₀ w')
    (hadv : Advance host calls i w pc w' pc') : NamesApart host calls m₀ w := by
  refine ⟨fun p => ?_, fun j path k hmem => ?_, fun j j' path k hmem => ?_⟩
  -- What is assumed of the longer run holds of the shorter one.
  · refine Nat.lt_of_le_of_lt ?_ (h.few p)
    cases hadv with
    | @mk q q' o r m c hq hexec hnext =>
        rw [issued_append, List.length_append]
        exact Nat.le_add_right _ _
  · exact h.absent j path k (temps_advance hadv j path hmem)
  · exact h.target j j' path k (temps_advance hadv j path hmem)

omit [DecidableEq δ] in
/-- The temp names of two calls are different. -/
theorem lastPiece_ne (hpid : Function.Injective host.pid) (htracked : Tracked calls w pc)
    (hpids : Pids host calls w) (htickets : Tickets calls m₀ w)
    (hfew : ∀ p, (issued calls w p).length < 2 ^ 64) {j : ι} (hij : i ≠ j) {t t' : Bytes}
    (ht : (pc i).tmp = some t) (ht' : (pc j).tmp = some t') :
    Path.lastPiece t ≠ Path.lastPiece t' := by
  rcases named_of_trace (htracked.trace i) t ht with
    ⟨name, pid, nanos, counter, hname, rfl, hmem, hticket⟩
  rcases named_of_trace (htracked.trace j) t' ht' with
    ⟨name', pid', nanos', counter', hname', rfl, hmem', hticket'⟩
  rw [Path.lastPiece_join _ _ (isName_tmpName _ _ _ _ (Path.isName_of_fileName _ _ hname)),
    Path.lastPiece_join _ _ (isName_tmpName _ _ _ _ (Path.isName_of_fileName _ _ hname'))]
  intro heq
  rcases tmpName_inj _ _ _ _ _ _ _ _ (Option.some.inj heq) with ⟨_, hpideq, _, hcounter⟩
  -- One process number, so one process, and then one ticket.
  rw [hpids i pid hmem, hpids j pid' hmem'] at hpideq
  have hproc := hpid hpideq
  have hi : (i, counter) ∈ issued calls w (calls.proc i) :=
    mem_issued counter (by rw [hticket]; exact List.mem_cons_self)
  have hj : (j, counter') ∈ issued calls w (calls.proc j) :=
    mem_issued counter' (by rw [hticket']; exact List.mem_cons_self)
  rw [← hproc, ← hcounter] at hj
  exact hij (ticket_unique htickets _ (hfew _) j counter hi hj)

omit [DecidableEq δ] in
/-- Another call's temp file is out of reach. -/
theorem out_of_reach (hpid : Function.Injective host.pid) (htracked : Tracked calls w pc)
    (hpids : Pids host calls w) (htickets : Tickets calls m₀ w)
    (hnames : NamesApart host calls m₀ w) {j : ι} (hji : j ≠ i) {tmp : Bytes} {k : δ × Bytes}
    (htried : (pc j).tried = some tmp) (hk : host.tree.resolveFile tmp = some k) :
    (∀ t, (pc i).tmp = some t → host.tree.resolveFile t ≠ some k) ∧
      host.tree.resolveFile (calls.target i) ≠ some k := by
  refine ⟨fun t ht htk => ?_, ?_⟩
  -- Two paths to one place have the same last piece.
  · refine lastPiece_ne hpid htracked hpids htickets hnames.few hji
      (Pc.tmp_of_tried _ tmp htried) ht ?_
    rw [host.tree.lastPiece_of_resolveFile tmp k hk, host.tree.lastPiece_of_resolveFile t k htk]
  · refine hnames.target j i tmp k ?_ hk
    rw [temps_of_trace (htracked.trace j), htried]
    exact List.mem_cons_self

/-! ### What every event preserves -/

/-- A target is as it was at the start, or a call has renamed its file onto it. -/
def TargetsHold (host : Host π δ) (calls : Calls ι π) (m₀ : Machine π δ) (w : World π δ ι)
    (pc : ι → Pc δ) : Prop :=
  ∀ i k, host.tree.resolveFile (calls.target i) = some k →
    w.shared.storage.lookup k = m₀.storage.lookup k ∨
    ∃ j file, (pc j).moved = some file ∧ host.tree.resolveFile (calls.target j) = some k ∧
      w.shared.storage.lookup k = some file

/-- Every name was there at the start, or is a temp name, or is a target. -/
def NamesKnown (host : Host π δ) (calls : Calls ι π) (m₀ : Machine π δ) (w : World π δ ι) : Prop :=
  ∀ k file, w.shared.storage.lookup k = some file →
    m₀.storage.lookup k ≠ none ∨
    (∃ j tmp, tmp ∈ temps (w.events j) ∧ host.tree.resolveFile tmp = some k) ∨
    ∃ j, host.tree.resolveFile (calls.target j) = some k

/-- A call that is past its rename or its cleanup has no temp file, unless removing it
    failed. -/
def TempsGone (host : Host π δ) (w : World π δ ι) (pc : ι → Pc δ) : Prop :=
  ∀ j tmp k, (pc j).gone = some tmp → host.tree.resolveFile tmp = some k →
    w.shared.storage.lookup k = none ∨
      ∃ error, ⟨.removeFile tmp, .error error⟩ ∈ w.events j

/-- No temp file was there already. -/
def NeverExists (w : World π δ ι) : Prop :=
  ∀ i path (e : IoError), ⟨.createNew path, .error e⟩ ∈ w.events i → e.kind ≠ .alreadyExists

omit [DecidableEq π] [DecidableEq δ] in
theorem tried_mem (htracked : Tracked calls w pc) {j : ι} {tmp : Bytes}
    (h : (pc j).tried = some tmp) : tmp ∈ temps (w.events j) := by
  rw [temps_of_trace (htracked.trace j), h]
  exact List.mem_cons_self

theorem targetsHold_advance (htracked : Tracked calls w pc) (hheld : Held host w pc)
    (hnames : NamesApart host calls m₀ w') (h : TargetsHold host calls m₀ w pc)
    (hadv : Advance host calls i w pc w' pc') : TargetsHold host calls m₀ w' pc' := by
  have htracked' := tracked_advance htracked hadv
  intro j₀ k hk
  have hout : ∀ tmp, (pc' i).tried = some tmp → host.tree.resolveFile tmp ≠ some k :=
    fun tmp htried hres => hnames.target i j₀ tmp k (tried_mem htracked' htried) hres hk
  cases hadv with
  | @mk q q' o r m c hq hexec hnext =>
      subst hq
      have heffect := nameEffect hexec hnext
      rw [Function.update_self] at hout
      have hmoved := heffect.moved_update
      -- An event that leaves the target alone leaves the reason for its content.
      have hkeep : m.storage.lookup k = w.shared.storage.lookup k →
          m.storage.lookup k = m₀.storage.lookup k ∨
          ∃ j file, (Function.update pc i q' j).moved = some file ∧
            host.tree.resolveFile (calls.target j) = some k ∧
            m.storage.lookup k = some file := by
        intro hsame
        rcases h j₀ k hk with hold | ⟨j, file, hj, htarget, hfile⟩
        · exact Or.inl (hsame.trans hold)
        · exact Or.inr ⟨j, file, hmoved j file hj, htarget, hsame.trans hfile⟩
      rcases heffect.change k with
        hsame | ⟨tmp, _, htried, hres⟩ | ⟨tmp, own, a, file, hq, rfl, ha, htarget, hfile, hnew⟩
      · exact hkeep hsame
      · exact absurd hres (hout tmp htried)
      -- The file that moves is the one the call holds.
      · have hown := eq_of_held (hheld i tmp own (by rw [hq]; rfl)) ha hfile
        refine Or.inr ⟨i, file, ?_, htarget, hnew⟩
        rw [Function.update_self, hown]
        rfl

theorem namesKnown_advance (htracked : Tracked calls w pc) (h : NamesKnown host calls m₀ w)
    (hadv : Advance host calls i w pc w' pc') : NamesKnown host calls m₀ w' := by
  have htracked' := tracked_advance htracked hadv
  have htemps := temps_advance hadv
  intro k file hfile
  -- A name that was known before is known still, for the same reason.
  have hkeep : w.shared.storage.lookup k = some file → m₀.storage.lookup k ≠ none ∨
      (∃ j tmp, tmp ∈ temps (w'.events j) ∧ host.tree.resolveFile tmp = some k) ∨
      ∃ j, host.tree.resolveFile (calls.target j) = some k := by
    intro hsame
    rcases h k file hsame with hold | ⟨j, tmp, hmem, hres⟩ | htarget
    · exact Or.inl hold
    · exact Or.inr (Or.inl ⟨j, tmp, htemps j tmp hmem, hres⟩)
    · exact Or.inr (Or.inr htarget)
  have hnew : ∀ tmp, (pc' i).tried = some tmp → tmp ∈ temps (w'.events i) :=
    fun tmp htried => tried_mem htracked' htried
  cases hadv with
  | @mk q q' o r m c hq hexec hnext =>
      subst hq
      have heffect := nameEffect hexec hnext
      rw [Function.update_self] at hnew
      rcases heffect.source k file hfile with
        hsame | ⟨tmp, u, _, rfl, hk, _⟩ | ⟨_, _, _, _, _, _, htarget, _⟩
      · exact hkeep hsame
      · exact Or.inr (Or.inl ⟨i, tmp, hnew tmp (Pc.tried_writing tmp file u), hk⟩)
      · exact Or.inr (Or.inr ⟨i, htarget⟩)

theorem tempsGone_advance (hpid : Function.Injective host.pid) (htracked : Tracked calls w pc)
    (hpids : Pids host calls w) (htickets : Tickets calls m₀ w)
    (hnames : NamesApart host calls m₀ w) (h : TempsGone host w pc)
    (hadv : Advance host calls i w pc w' pc') : TempsGone host w' pc' := by
  intro j tmp k hgone hk
  have hreach : j ≠ i → (pc j).tried = some tmp →
      (∀ t, (pc i).tmp = some t → host.tree.resolveFile t ≠ some k) ∧
        host.tree.resolveFile (calls.target i) ≠ some k :=
    fun hji htried => out_of_reach hpid htracked hpids htickets hnames hji htried hk
  cases hadv with
  | @mk q q' o r m c hq hexec hnext =>
      subst hq
      have heffect := nameEffect hexec hnext
      -- The call itself has just got rid of its file, or had done so before.
      by_cases hj : j = i
      · subst hj
        rw [Function.update_self] at hgone
        rw [Pool.events_append_self]
        exact heffect.gone (named_of_trace (htracked.trace j)) (h j) tmp k hgone hk
      · rw [Function.update_of_ne hj] at hgone
        rw [Pool.events_append_of_ne w m _ i j _ hj]
        -- No other call can put a file there again.
        rcases hreach hj (Pc.tried_of_gone _ tmp hgone) with ⟨htmp, htarget⟩
        rcases h j tmp k hgone hk with hnone | herror
        · exact Or.inl ((heffect.lookup k htmp htarget).trans hnone)
        · exact Or.inr herror

theorem neverExists_advance (hpid : Function.Injective host.pid) (htracked : Tracked calls w pc)
    (hpids : Pids host calls w) (htickets : Tickets calls m₀ w)
    (hnames : NamesApart host calls m₀ w') (hknown : NamesKnown host calls m₀ w)
    (h : NeverExists w) (hadv : Advance host calls i w pc w' pc') : NeverExists w' := by
  have hbefore := hnames.before hadv
  intro j path e hmem
  have hnew : path ∈ temps (w'.events j) := List.mem_filterMap.mpr ⟨_, hmem, rfl⟩
  have habsent := fun k => hnames.absent j path k hnew
  have htarget := fun j' k => hnames.target j j' path k hnew
  cases hadv with
  | @mk q q' o r m c hq hexec hnext =>
      by_cases hj : j = i
      · subst hj
        rw [Pool.events_append_self] at hmem
        rcases List.mem_append.mp hmem with hmem | hmem
        · exact h j path e hmem
        cases List.mem_singleton.mp hmem
        cases hnext with
        | createErr =>
            intro hkind
            rcases Machine.exec_createNew host _ _ m c path _ hexec with
              ⟨e', he', _, hexists⟩ | ⟨_, _, _, hr, _⟩
            · cases he'
              -- The name would have to be known, and it is not.
              rcases hexists hkind with ⟨k, file, hk, hfile⟩
              rcases hknown k file hfile with hold | ⟨j', tmp, htmp, hres⟩ | ⟨j', hres⟩
              · exact hold (habsent k hk)
              · by_cases hj' : j' = j
                · rw [hj', temps_of_trace (htracked.trace j), hq] at htmp
                  cases htmp
                · rw [temps_of_trace (htracked.trace j')] at htmp
                  have htried := Option.mem_toList.mp htmp
                  exact (out_of_reach (i := j) hpid htracked hpids htickets hbefore hj' htried
                    hres).1 path (by rw [hq]; rfl) hk
              · exact htarget j' k hk hres
            · cases hr
      · rw [Pool.events_append_of_ne w m _ i j _ hj] at hmem
        exact h j path e hmem

/-- What holds of a run whose names are apart. -/
structure Sound (host : Host π δ) (calls : Calls ι π) (m₀ : Machine π δ) (w : World π δ ι)
    (pc : ι → Pc δ) : Prop where
  held : Held host w pc
  targets : TargetsHold host calls m₀ w pc
  known : NamesKnown host calls m₀ w
  gone : TempsGone host w pc
  never : NeverExists w

omit [DecidableEq π] [DecidableEq δ] in
theorem sound_start : Sound host calls m₀ (calls.start m₀ : World π δ ι)
    fun i => .start (calls.target i) where
  held := held_start calls m₀
  targets := fun _ _ _ => Or.inl rfl
  known := fun k file h => Or.inl (by
    have h' : m₀.storage.lookup k = some file := h
    rw [h']
    exact Option.some_ne_none file)
  gone := fun j tmp k h => by
    have htmp := Pc.tmp_of_tried _ tmp (Pc.tried_of_gone _ tmp h)
    rw [Pc.tmp_start] at htmp
    cases htmp
  never := fun _ _ _ h => absurd h List.not_mem_nil

theorem sound_advance (hpid : Function.Injective host.pid) (htracked : Tracked calls w pc)
    (hpids : Pids host calls w) (htickets : Tickets calls m₀ w)
    (hnames : NamesApart host calls m₀ w') (h : Sound host calls m₀ w pc)
    (hadv : Advance host calls i w pc w' pc') : Sound host calls m₀ w' pc' := by
  have hbefore := hnames.before hadv
  -- The names being apart is what clears every event.
  have hclear : Clear host calls pc i := fun j hj tmp file k hheld hk =>
    out_of_reach hpid htracked hpids htickets hbefore hj (Pc.tried_of_held _ tmp file hheld) hk
  exact ⟨held_advance hclear h.held hadv,
    targetsHold_advance htracked h.held hnames h.targets hadv,
    namesKnown_advance htracked h.known hadv,
    tempsGone_advance hpid htracked hpids htickets hbefore h.gone hadv,
    neverExists_advance hpid htracked hpids htickets hnames h.known h.never hadv⟩

/-- What holds of every run, and what holds besides when the names are apart. -/
structure Consistent (host : Host π δ) (calls : Calls ι π) (m₀ : Machine π δ) (w : World π δ ι)
    (pc : ι → Pc δ) : Prop where
  files : Files m₀ w pc
  pids : Pids host calls w
  tickets : Tickets calls m₀ w
  sound : NamesApart host calls m₀ w → Sound host calls m₀ w pc

omit [DecidableEq δ] in
theorem consistent_start : Consistent host calls m₀ (calls.start m₀ : World π δ ι)
    fun i => .start (calls.target i) :=
  ⟨files_start calls m₀, fun _ _ hmem => absurd hmem List.not_mem_nil, tickets_start,
    fun _ => sound_start⟩

theorem consistent_advance (hpid : Function.Injective host.pid) (htracked : Tracked calls w pc)
    (h : Consistent host calls m₀ w pc) (hadv : Advance host calls i w pc w' pc') :
    Consistent host calls m₀ w' pc' where
  files := files_advance htracked h.files hadv
  pids := pids_advance h.pids hadv
  tickets := tickets_advance h.tickets hadv
  sound := fun hnames => sound_advance hpid htracked h.pids h.tickets hnames
    (h.sound (hnames.before hadv)) hadv

theorem consistent_of_reaches (hpid : Function.Injective host.pid)
    (h : (calls.start m₀ : World π δ ι).Reaches (calls.exec host) (fun _ _ => True) w) :
    ∃ pc, Tracked calls w pc ∧ Consistent host calls m₀ w pc :=
  reaches_induction consistent_start
    (fun _ htracked hinv hadv => consistent_advance hpid htracked hinv hadv) h

/-! ### What holds of every run -/

/-- Every target has the content it had at the start, or the complete bytes of a call
    on it whose writer returned `Ok`. -/
def TargetsIntact (host : Host π δ) (calls : Calls ι π) (m₀ : Machine π δ)
    (w : World π δ ι) : Prop :=
  ∀ i k, host.tree.resolveFile (calls.target i) = some k →
    w.shared.storage.read k = m₀.storage.read k ∨
    ∃ j bytes, host.tree.resolveFile (calls.target j) = some k ∧
      Completed (calls.writer j) (w.events j) bytes ∧ w.shared.storage.read k = some bytes

/-- Temp names are different, none was there already, and a call renames and removes
    only its own. -/
structure TempsExclusive (calls : Calls ι π) (w : World π δ ι) : Prop where
  distinct : ∀ i j, i ≠ j → ∀ t ∈ temps (w.events i), ∀ t' ∈ temps (w.events j),
    Path.lastPiece t ≠ Path.lastPiece t'
  never : NeverExists w
  rename : ∀ i src dst (r : Except IoError Unit), ⟨.rename src dst, r⟩ ∈ w.events i →
    src ∈ temps (w.events i) ∧ dst = calls.target i
  remove : ∀ i path (r : Except IoError Unit), ⟨.removeFile path, r⟩ ∈ w.events i →
    path ∈ temps (w.events i)

/-- A call that returned `Ok` made one rename, of its temp file onto its target, after
    its writer returned `Ok`; one that returned an error made none; and neither has
    left a temp file, unless removing it failed. -/
structure ResultsHonest (host : Host π δ) (calls : Calls ι π) (w : World π δ ι) : Prop where
  ok : ∀ i, w.prog i = .ret (.ok ()) → ∃ tmp bytes, temps (w.events i) = [tmp] ∧
    renames (w.events i) = [(tmp, calls.target i)] ∧
    Completed (calls.writer i) (w.events i) bytes
  err : ∀ i e, w.prog i = .ret (.error e) → renames (w.events i) = []
  gone : ∀ i r, w.prog i = .ret r → ∀ tmp ∈ temps (w.events i), ∀ k,
    host.tree.resolveFile tmp = some k → w.shared.storage.lookup k = none ∨
      ∃ error, ⟨.removeFile tmp, .error error⟩ ∈ w.events i

/-- The rename of a call puts the complete bytes of its writer, which returned `Ok`, at
    its target. -/
def RenamesComplete (host : Host π δ) (calls : Calls ι π) (w : World π δ ι) : Prop :=
  ∀ i c w', w.step (calls.exec host) i c = some w' →
    renames (w'.events i) ≠ renames (w.events i) → ∃ k bytes,
      host.tree.resolveFile (calls.target i) = some k ∧
      Completed (calls.writer i) (w'.events i) bytes ∧ w'.shared.storage.read k = some bytes

omit [DecidableEq π] [DecidableEq δ] in
theorem targetsIntact_of_sound (htracked : Tracked calls w pc) (hfiles : Files m₀ w pc)
    (h : TargetsHold host calls m₀ w pc) : TargetsIntact host calls m₀ w := by
  intro i k hk
  rcases h i k hk with hold | ⟨j, file, hmoved, htarget, hfile⟩
  · exact Or.inl (hfiles.read_eq hold)
  · refine Or.inr ⟨j, _, htarget, completed_of_moved (htracked.trace j) file hmoved, ?_⟩
    rw [Storage.read, hfile, Option.map_some]
    exact congrArg some (hfiles.content j file (Pc.file_of_synced _ file
      (Pc.synced_of_moved _ file hmoved)))

omit [DecidableEq δ] in
theorem tempsExclusive_of_sound (hpid : Function.Injective host.pid)
    (htracked : Tracked calls w pc) (hinv : Consistent host calls m₀ w pc)
    (hnames : NamesApart host calls m₀ w) : TempsExclusive calls w where
  distinct := by
    intro i j hij t ht t' ht'
    rw [temps_of_trace (htracked.trace i), Option.mem_toList] at ht
    rw [temps_of_trace (htracked.trace j), Option.mem_toList] at ht'
    exact lastPiece_ne hpid htracked hinv.pids hinv.tickets hnames.few hij
      (Pc.tmp_of_tried _ t ht) (Pc.tmp_of_tried _ t' ht')
  never := (hinv.sound hnames).never
  rename := fun i src dst r h => rename_of_trace (htracked.trace i) src dst r h
  remove := fun i path r h => removeFile_of_trace (htracked.trace i) path r h

omit [DecidableEq π] [DecidableEq δ] in
theorem resultsHonest_of_sound (htracked : Tracked calls w pc)
    (h : TempsGone host w pc) : ResultsHonest host calls w where
  ok := by
    intro i hret
    rcases htracked.done hret with ⟨tmp, file, hpc⟩
    rcases done_ok_of_trace (htracked.trace i) tmp file hpc with ⟨t, n, rfl, rfl⟩
    refine ⟨t, _, ?_, ?_, completed_of_moved (htracked.trace i) n (by rw [hpc]; rfl)⟩
    · rw [temps_of_trace (htracked.trace i), hpc]
      rfl
    · rw [renames_of_trace (htracked.trace i), hpc]
      rfl
  err := by
    intro i e hret
    rcases htracked.done hret with ⟨tmp, file, hpc⟩
    rw [renames_of_trace (htracked.trace i), hpc]
    cases tmp <;> rfl
  gone := by
    intro i r hret tmp hmem k hk
    rcases htracked.done hret with ⟨t, file, hpc⟩
    rw [temps_of_trace (htracked.trace i), Option.mem_toList, hpc] at hmem
    exact h i tmp k (by rw [hpc]; exact hmem) hk

theorem renamesComplete_of_sound (htracked : Tracked calls w pc) (hfiles : Files m₀ w pc)
    (hheld : Held host w pc) : RenamesComplete host calls w := by
  intro i c w' hstep hrenames
  rcases advance_of_step htracked c hstep with ⟨pc', hadv⟩
  have htracked' := tracked_advance htracked hadv
  have hfiles' := files_advance htracked hfiles hadv
  rw [renames_of_trace (htracked.trace i), renames_of_trace (htracked'.trace i)] at hrenames
  cases hadv with
  | @mk q q' o r m c hq hexec hnext =>
      rw [Function.update_self, hq] at hrenames
      cases hnext with
      | renameOk tmp file =>
          rcases Machine.exec_rename host _ _ m c tmp _ _ hexec with
            ⟨_, he, _⟩ | ⟨a, b, file', ha, hb, hfile, _, rfl⟩
          · cases he
          -- The file that moves is the one the call holds, and nothing else wrote to it.
          have hown := eq_of_held (hheld i tmp file (by rw [hq]; rfl)) ha hfile
          subst hown
          have hmoved : (Function.update pc i (.openDir tmp file') i).moved = some file' := by
            rw [Function.update_self]
            rfl
          refine ⟨b, _, hb, completed_of_moved (htracked'.trace i) file' hmoved, ?_⟩
          rw [Storage.read, Storage.lookup_move_dst, Option.map_some]
          exact congrArg some (hfiles'.content i file' (Pc.file_of_synced _ file'
            (Pc.synced_of_moved _ file' hmoved)))
      -- No other event adds a rename.
      | fetchAdd pid time counter =>
          refine absurd ?_ hrenames
          rw [Pc.named]
          cases Path.fileName (calls.target i) <;> rfl
      | createOk tmp file => exact absurd (Pc.renamed_writing _ tmp file _) hrenames
      | write tmp file pos bytes k r => exact absurd (Pc.renamed_writing _ tmp file _) hrenames
      | _ => exact absurd rfl hrenames

/-- However the events of any number of calls are ordered, and wherever they fail: the
    targets are intact, the temp files are exclusive, the results say what happened,
    and every rename was of complete bytes. -/
theorem atomicWrite_interleaving (host : Host π δ) (calls : Calls ι π) (m₀ : Machine π δ)
    (w : World π δ ι) (hpid : Function.Injective host.pid)
    (hrun : (calls.start m₀).Reaches (calls.exec host) (fun _ _ => True) w)
    (hnames : NamesApart host calls m₀ w) :
    TargetsIntact host calls m₀ w ∧ TempsExclusive calls w ∧ ResultsHonest host calls w ∧
      RenamesComplete host calls w := by
  rcases consistent_of_reaches hpid hrun with ⟨pc, htracked, hinv⟩
  have hsound := hinv.sound hnames
  exact ⟨targetsIntact_of_sound htracked hinv.files hsound.targets,
    tempsExclusive_of_sound hpid htracked hinv hnames,
    resultsHonest_of_sound htracked hsound.gone,
    renamesComplete_of_sound htracked hinv.files hsound.held⟩

end

/-! ### A run -/

/-- A machine with one directory and no files. -/
def sampleMachine : Machine Unit Unit where
  storage :=
    { dirs := fun _ => ⟨fun _ => none, []⟩
      files := fun _ => ⟨[], none⟩
      fresh := 0
      valid := fun _ _ =>
        ⟨fun _ h => (Option.some_ne_none _ h.symm).elim, fun _ ho => absurd ho List.not_mem_nil⟩ }
  counter := fun _ => 0

def sampleHost : Host Unit Unit := ⟨⟨(), (), fun _ _ => none⟩, fun _ => 7⟩

/-- Two threads that write to the file `x`, in one piece and in two. -/
def sampleCalls : Calls Bool Unit where
  proc := fun _ => ()
  target := fun _ => [0x78]
  writer := fun
    | true => .write 0 [1, 2, 3] fun _ => .ret (.ok ())
    | false => .write 0 [4] fun _ => .write 1 [5] fun _ => .ret (.ok ())

/-- Both create their temp files at one clock reading, and the second to do so is the
    first to finish. -/
def sampleSchedule : List (Bool × Choice) :=
  [(false, .proceed), (true, .proceed), (false, .clock (some 9)), (true, .clock (some 9)),
    (false, .proceed), (true, .proceed), (false, .proceed), (true, .proceed),
    (true, .wrote 3), (true, .proceed), (true, .proceed), (false, .wrote 1), (true, .proceed),
    (true, .proceed), (false, .wrote 1), (false, .proceed), (false, .proceed),
    (false, .proceed), (false, .proceed)]

def sampleWorld : World Unit Unit Bool :=
  ((sampleCalls.start sampleMachine).run (sampleCalls.exec sampleHost) sampleSchedule).get
    (by decide)

theorem sampleWorld_reached : (sampleCalls.start sampleMachine).Reaches
    (sampleCalls.exec sampleHost) (fun _ _ => True) sampleWorld :=
  Pool.reaches_of_run sampleSchedule _ _ (Option.some_get _).symm

theorem sampleWorld_namesApart : NamesApart sampleHost sampleCalls sampleMachine sampleWorld where
  few := fun p => by
    cases p
    decide
  absent := fun _ _ _ _ _ => rfl
  target := by
    intro i j path k hmem hk htarget
    have hall : ∀ i, ∀ p ∈ temps (sampleWorld.events i),
        sampleHost.tree.resolveFile p ≠ sampleHost.tree.resolveFile (sampleCalls.target j) := by
      cases j <;> decide
    exact hall i path hmem (hk.trans htarget.symm)

/-- Both calls return `Ok`, the second to create its temp file first, and the target
    ends up with what the other one wrote. -/
theorem atomicWrite_interleaving_sample :
    sampleWorld.shared.storage.read ((), [0x78]) = some [4, 5] ∧
    TargetsIntact sampleHost sampleCalls sampleMachine sampleWorld ∧
      TempsExclusive sampleCalls sampleWorld ∧ ResultsHonest sampleHost sampleCalls sampleWorld ∧
      RenamesComplete sampleHost sampleCalls sampleWorld :=
  ⟨by decide, atomicWrite_interleaving sampleHost sampleCalls sampleMachine sampleWorld
    (fun _ _ _ => rfl) sampleWorld_reached sampleWorld_namesApart⟩

end SkegHull
