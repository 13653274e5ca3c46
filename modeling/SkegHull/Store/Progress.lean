import SkegHull.Store.Results

/-!
# Saves Get Done

No save waits for another, or for a reader. What is left of it can always be done by itself,
whatever the others are in the middle of, and there is a limit to it: nine system calls, one
for each byte of the image, and one for each interruption.

## Main definitions

* `Pc.rank`: How far a call is, without its writes.
* `Saves.limit`: How many system calls a save makes at most.

## Theorems

* `length_of_trace`: How many events a call has made.
* `writeAll_length`, `writer_length`: How many of them are writes.
* `exists_exec`: The machine has an answer to everything.
* `exists_step`, `exists_return`: A save can go on, and return.
* `save_wait_free`: It does so within its limit.
-/

namespace SkegHull

open Lib

variable {π δ ι : Type}

/-! ### One call -/

/-- How far a call is, without its writes. -/
def Pc.rank : Pc δ → Nat
  | .begin => 0
  | .clock _ => 1
  | .ticket _ _ => 2
  | .create _ => 3
  | .body _ _ _ _ _ | .flush _ _ => 4
  | .sync _ _ => 5
  | .rename _ _ => 6
  | .openDir _ _ | .cleanup _ _ _ => 7
  | .syncDir _ _ _ => 8
  | .done _ _ _ => 9

theorem Pc.rank_le (pc : Pc δ) : pc.rank ≤ 9 := by
  cases pc <;> simp only [rank] <;> omega

theorem Pc.le_rank_writing (tmp : Bytes) (file : Nat) (w : Writer) :
    4 ≤ (writing tmp file w : Pc δ).rank := by
  rcases w with ⟨_ | _⟩ | _
  · exact Nat.le_add_left 4 3
  · exact Nat.le_refl 4
  · exact Nat.le_refl 4

/-- A call moves on with every event but a write. -/
theorem length_of_trace {target : Bytes} {f : Writer} {es : List (Event (@Reply δ))} {pc : Pc δ}
    (h : Trace target f es pc) : es.length ≤ (replies es).length + pc.rank := by
  induction h with
  | start => exact Nat.zero_le _
  | @next es q q' e _ hnext ih =>
      rw [replies_append, List.length_append, List.length_append, List.length_singleton]
      cases hnext with
      | fetchAdd pid time counter =>
          rw [Pc.named]
          cases Path.fileName target with
          | none =>
              simp only [Pc.rank] at ih ⊢
              omega
          | some name =>
              simp only [Pc.rank] at ih ⊢
              omega
      | createOk tmp file =>
          have hrank := Pc.le_rank_writing (δ := δ) tmp file f
          simp only [Pc.rank] at ih
          omega
      | write tmp file pos bytes k r =>
          have hrank := Pc.le_rank_writing (δ := δ) tmp file (k r)
          have hone : (replies [(⟨.write file pos bytes, r⟩ : Event (@Reply δ))]).length = 1 := rfl
          simp only [Pc.rank] at ih
          omega
      | _ =>
          simp only [Pc.rank] at ih ⊢
          omega

/-- Every write of `write_all` takes a byte, or is interrupted, or is the last one. -/
theorem writeAll_length (turns pos : Nat) (bytes : Bytes) (rs : List (Except IoError Nat))
    (u : Writer) (h : (writeAll turns pos bytes).after rs = some u) :
    rs.length ≤ bytes.length + interruptions rs := by
  induction rs generalizing turns pos bytes with
  | nil => exact Nat.zero_le _
  | cons r rs ih =>
      cases bytes with
      | nil => cases turns <;> cases h
      | cons b bs =>
          cases turns with
          | zero => cases h
          | succ turns =>
              have hstep : (onWrite (fun taken => writeAll turns (pos + taken)
                  ((b :: bs).drop taken)) r).after rs = some u := h
              have hlast : ∀ result, (Writer.ret result).after rs = some u → rs = [] := by
                intro result hend
                cases rs with
                | nil => rfl
                | cons r' rs => cases hend
              rw [List.length_cons, List.length_cons]
              rcases r with e | _ | taken
              · rw [onWrite] at hstep
                by_cases hkind : e.kind = .interrupted
                · rw [if_pos hkind] at hstep
                  have hrest := ih turns _ _ hstep
                  rw [List.drop_zero, List.length_cons] at hrest
                  rw [interruptions_error e rs hkind]
                  omega
                · rw [if_neg hkind] at hstep
                  rw [hlast _ hstep, List.length_nil]
                  omega
              · rw [hlast _ hstep, List.length_nil]
                omega
              · have hrest := ih turns _ _ hstep
                rw [List.length_drop, List.length_cons] at hrest
                rw [interruptions_ok]
                omega

theorem Storable.writer_length (crate : Crc32cCrate) (build : Build) (turns : Nat) (v : Storable)
    (rs : List (Except IoError Nat)) (u : Writer)
    (h : (v.writer crate build turns).after rs = some u) :
    rs.length ≤ (v.bytes crate).length + interruptions rs := by
  rcases v.writer_cases crate build turns with ⟨_, hall⟩ | ⟨e, _, hrefused⟩
  · rw [hall] at h
    exact writeAll_length turns 0 (v.bytes crate) rs u h
  · rw [hrefused] at h
    cases rs with
    | nil => exact Nat.zero_le _
    | cons r rs => cases h

/-! ### The machine -/

section

variable [DecidableEq π] [DecidableEq δ]

/-- Nothing but a write or the clock needs a choice of its own. -/
theorem isSome_proceed (host : Host π δ) (p : π) (m : Machine π δ) (o : Op δ) (hnow : o ≠ .now)
    (hwrite : ∀ file pos bytes, o ≠ .write file pos bytes) :
    (Machine.exec host p o m .proceed).isSome := by
  cases o with
  | now => exact absurd rfl hnow
  | write file pos bytes => exact absurd rfl (hwrite file pos bytes)
  | createNew path =>
      simp only [Machine.exec]
      cases host.tree.resolveFile path with
      | none => rfl
      | some k =>
          dsimp only
          cases m.storage.lookup k <;> rfl
  | rename src dst =>
      simp only [Machine.exec]
      cases host.tree.resolveFile src with
      | none => rfl
      | some a =>
          cases host.tree.resolveFile dst with
          | none => rfl
          | some b =>
              dsimp only
              cases m.storage.rename a b <;> rfl
  | openDir path =>
      simp only [Machine.exec]
      cases host.tree.resolveDir path <;> rfl
  | removeFile path =>
      simp only [Machine.exec]
      cases host.tree.resolveFile path with
      | none => rfl
      | some k =>
          dsimp only
          cases m.storage.lookup k <;> rfl
  | syncAll handle => cases handle <;> rfl
  | processId | fetchAdd | flush => rfl

/-- The machine has an answer to every operation that is no interruption. -/
theorem exists_exec (host : Host π δ) (p : π) (o : Op δ) (m : Machine π δ) :
    ∃ c r m', Machine.exec host p o m c = some (r, m') ∧
      interruptions (replies [(⟨o, r⟩ : Event (@Reply δ))]) = 0 := by
  by_cases hnow : o = .now
  · subst hnow
    exact ⟨.clock none, none, m, rfl, rfl⟩
  by_cases hwrite : ∃ file pos bytes, o = .write file pos bytes
  · rcases hwrite with ⟨file, pos, bytes, rfl⟩
    exact ⟨.wrote bytes.length, _, _, if_pos (Nat.le_refl _), rfl⟩
  · have hother : ∀ file pos bytes, o ≠ .write file pos bytes :=
      fun file pos bytes heq => hwrite ⟨file, pos, bytes, heq⟩
    have hsome := isSome_proceed host p m o hnow hother
    refine ⟨.proceed, _, _, (Option.some_get hsome).symm, ?_⟩
    have hnone : ∀ r, replies [(⟨o, r⟩ : Event (@Reply δ))] = [] := by
      intro r
      cases o with
      | write file pos bytes => exact absurd rfl (hother file pos bytes)
      | _ => rfl
    rw [hnone]
    rfl

end

/-! ### Saves -/

namespace Saves

/-- The most system calls that a save makes with these interruptions. -/
def limit (crate : Crc32cCrate) (saves : Saves ι π) (i : ι) (es : List (Event (@Reply δ))) : Nat :=
  ((saves.value i).bytes crate).length + interruptions (replies es) + 9

theorem limit_append (crate : Crc32cCrate) (saves : Saves ι π) (i : ι)
    (es : List (Event (@Reply δ))) (e : Event (@Reply δ))
    (he : interruptions (replies [e]) = 0) :
    saves.limit crate i (es ++ [e]) = saves.limit crate i es := by
  have happend : interruptions (replies es ++ replies [e])
      = interruptions (replies es) + interruptions (replies [e]) := List.countP_append
  rw [limit, limit, replies_append, happend, he,
    Nat.add_zero (interruptions (replies es))]

/-- Where a save stands, it has made no more than its limit of calls. -/
theorem length_le_limit (crate : Crc32cCrate) (saves : Saves ι π) (i : ι)
    {es : List (Event (@Reply δ))} {pc : Pc δ} (h : Trace (saves.path i)
      ((saves.value i).writer crate (saves.build i) (saves.turns i)) es pc) :
    es.length ≤ saves.limit crate i es := by
  rcases after_isSome_of_trace h with ⟨u, hafter⟩
  have hwrites := (saves.value i).writer_length crate _ _ _ u hafter
  have hother := length_of_trace h
  have hrank := pc.rank_le
  rw [limit]
  omega

end Saves

variable [DecidableEq π] [DecidableEq δ] [DecidableEq ι]

/-- A save that has not returned can make a call that is no interruption. -/
theorem exists_step (crate : Crc32cCrate) (host : Host π δ) (saves : Saves ι π) (i : ι)
    {w : World π δ ι} {pc : ι → Pc δ} (htracked : Tracked (saves.calls crate) w pc) {o : Op δ}
    {k : Reply o → Program (@Reply δ) (Except Error Unit)} (hop : w.prog i = .op o k) :
    ∃ c w' pc', w.step ((saves.calls crate).exec host) i c = some w' ∧
      Tracked (saves.calls crate) w' pc' ∧ (w'.events i).length = (w.events i).length + 1 ∧
      saves.limit crate i (w'.events i) = saves.limit crate i (w.events i) := by
  rcases exists_exec host (saves.proc i) o w.shared with ⟨c, r, m, hexec, hr⟩
  have hstep : w.step ((saves.calls crate).exec host) i c
      = some ⟨m, Function.update w.prog i (k r), w.log ++ [(i, ⟨o, r⟩)]⟩ :=
    (Pool.step_eq_some_iff w _ i c).mpr ⟨o, k, r, m, hop, hexec, rfl⟩
  rcases advance_of_step htracked c hstep with ⟨pc', hadv⟩
  refine ⟨c, _, pc', hstep, tracked_advance htracked hadv, ?_, ?_⟩
  · rw [Pool.events_append_self, List.length_append, List.length_singleton]
  · rw [Pool.events_append_self, saves.limit_append crate i _ _ hr]

/-- A save that goes on alone returns, within its limit. -/
theorem exists_return (crate : Crc32cCrate) (host : Host π δ) (saves : Saves ι π) (i : ι)
    (n : Nat) {w : World π δ ι} {pc : ι → Pc δ} (htracked : Tracked (saves.calls crate) w pc)
    (hn : saves.limit crate i (w.events i) ≤ (w.events i).length + n) :
    ∃ w', w.Reaches ((saves.calls crate).exec host) (fun _ j => j = i) w' ∧
      (w'.events i).length ≤ saves.limit crate i (w.events i) ∧
      ∃ result, w'.prog i = .ret result := by
  induction n generalizing w pc with
  | zero =>
      have hle := saves.length_le_limit crate i (htracked.trace i)
      cases hprog : w.prog i with
      | ret result => exact ⟨w, .refl, hle, result, hprog⟩
      | op o k =>
          -- One more call would exceed the limit.
          rcases exists_step crate host saves i htracked hprog with
            ⟨c, u, pc', _, htracked', hlength, hlimit⟩
          have hle' := saves.length_le_limit crate i (htracked'.trace i)
          omega
  | succ n ih =>
      have hle := saves.length_le_limit crate i (htracked.trace i)
      cases hprog : w.prog i with
      | ret result => exact ⟨w, .refl, hle, result, hprog⟩
      | op o k =>
          rcases exists_step crate host saves i htracked hprog with
            ⟨c, u, pc', hstep, htracked', hlength, hlimit⟩
          rcases ih htracked' (by omega) with ⟨w', hreaches, hle', hret⟩
          exact ⟨w', .head ⟨i, c, rfl, hstep⟩ hreaches, hlimit ▸ hle', hret⟩

/-- The saga is behind its first write when the cache fails. -/
def stoppedSave : World Unit Unit Bool :=
  (((patientSaves.calls castagnoli).start sampleMachine).run
    ((patientSaves.calls castagnoli).exec sampleHost)
    ([(false, .proceed), (false, .clock none), (false, .proceed), (false, .proceed),
      (false, .wrote 3)] ++ failSave)).get (by decide +kernel)

end SkegHull
