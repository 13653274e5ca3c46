import SkegHull.Store.Values

/-!
# What a Save Returns

A save returns an error exactly when there is a reason to, and then it returns the reason.
The reasons are that the path has no parent or no file name, that a system call up to the
rename has failed, that the value is refused, and that a write took nothing. An interrupted
write is no reason, and neither is anything that happens after the rename or while the call
cleans up behind a failure. There is at most one reason, since a call makes no more than the
cleanup when it has one.

`Cause` says it of any call of `atomicWrite`, where the writer is one of the reasons, and
`save_error_iff` of the saves, whose writers are known.

## Main definitions

* `faultOf`: The failure that an event is.
* `Cause`: The reasons of a call.
* `Saves.Cause`: The reasons of a save.

## Theorems

* `cause_of_error`, `error_of_cause`: A call returns an error exactly for its cause.
* `save_error_iff`: The same of a save.
-/

namespace SkegHull

open Lib

variable {π δ ι : Type}

/-! ### Any call -/

/-- The failure that an event is, for those that end the call and are not for its writer to
    deal with. -/
def faultOf : Event (@Reply δ) → Option IoError
  | ⟨.createNew _, .error e⟩ | ⟨.flush _, .error e⟩ | ⟨.syncAll (.file _), .error e⟩
  | ⟨.rename _ _, .error e⟩ => some e
  | _ => none

/-- The error that a call is going to return, or has returned. -/
def Pc.error : Pc δ → Option Error
  | .cleanup _ _ e | .done _ _ (.error e) => some e
  | _ => none

/-- Why a call returns an error. -/
inductive Cause (target : Bytes) (f : Writer) (es : List (Event (@Reply δ))) : Error → Prop where
  | noParent (h : Path.parent target = none) : Cause target f es noParent
  | noFileName (hparent : Path.parent target ≠ none) (h : Path.fileName target = none) :
      Cause target f es noFileName
  | fault (e : Event (@Reply δ)) (io : IoError) (hmem : e ∈ es) (h : faultOf e = some io) :
      Cause target f es (.io io)
  | writer (error : Error) (hcreated : created es ≠ [])
      (h : f.after (replies es) = some (.ret (.error error))) : Cause target f es error

section

variable {target : Bytes} {f : Writer} {es : List (Event (@Reply δ))} {pc : Pc δ} {error : Error}

theorem Pc.error_writing (tmp : Bytes) (file : Nat) (w : Writer) :
    (writing tmp file w : Pc δ).error = some error ↔ w = .ret (.error error) := by
  rcases w with ⟨_ | _⟩ | _
  · exact ⟨fun h => by cases h; rfl, fun h => by cases h; rfl⟩
  · exact ⟨fun h => (nomatch h), fun h => (nomatch h)⟩
  · exact ⟨fun h => (nomatch h), fun h => (nomatch h)⟩

/-- A cause stays one while the call makes no more writes. -/
theorem Cause.append (h : Cause target f es error) (e : Event (@Reply δ))
    (he : replies [e] = []) : Cause target f (es ++ [e]) error := by
  cases h with
  | noParent h => exact .noParent h
  | noFileName hparent h => exact .noFileName hparent h
  | fault e' io hmem h => exact .fault e' io (List.mem_append_left _ hmem) h
  | writer error hcreated h =>
      refine .writer error (fun hnone => hcreated ?_) ?_
      · rw [created_append] at hnone
        exact (List.append_eq_nil_iff.mp hnone).1
      · rw [replies_append, he, List.append_nil]
        exact h

/-- Without a parent nothing happens. -/
theorem start_of_noParent (h : Trace target f es pc) (hparent : Path.parent target = none) :
    pc = .done none none (.error noParent) ∧ es = [] := by
  induction h with
  | start => exact ⟨by rw [Pc.start, hparent], rfl⟩
  | next _ hnext ih =>
      rw [ih.1] at hnext
      cases hnext

/-- A call that makes its name has a parent. -/
theorem parent_of_ticket (pid : UInt32) (time : Option Nat)
    (h : Trace target f es (.ticket pid time : Pc δ)) : Path.parent target ≠ none := by
  intro hparent
  cases (start_of_noParent h hparent).1

/-- A call that is going to return an error has a cause to. -/
theorem cause_of_error (h : Trace target f es pc) (herror : pc.error = some error) :
    Cause target f es error := by
  induction h generalizing error with
  | start =>
      rw [Pc.start] at herror
      cases hparent : Path.parent target with
      | none =>
          rw [hparent] at herror
          cases herror
          exact .noParent hparent
      | some dir =>
          rw [hparent] at herror
          cases herror
  | @next es q q' e before hnext ih =>
      have hlast : e ∈ es ++ [e] := List.mem_append_right _ List.mem_cons_self
      cases hnext with
      | fetchAdd pid time counter =>
          rw [Pc.named] at herror
          cases hname : Path.fileName target with
          | none =>
              rw [hname] at herror
              cases herror
              exact .noFileName (parent_of_ticket pid time before) hname
          | some name =>
              rw [hname] at herror
              cases herror
      | createOk tmp file =>
          cases (Pc.error_writing tmp file f).mp herror
          refine .writer error ?_ ?_
          · rw [created_append]
            exact List.append_ne_nil_of_right_ne_nil _ (List.cons_ne_nil file [])
          · rw [replies_append]
            exact (List.append_nil (replies es)).symm ▸ after_of_trace before _ rfl
      | write tmp file pos bytes k r =>
          have hk := (Pc.error_writing tmp file (k r)).mp herror
          refine .writer error ?_ ?_
          · rw [created_append, created_of_trace before]
            exact List.cons_ne_nil file _
          · rw [replies_append, ← hk]
            exact Writer.after_append f _ r pos bytes k (after_of_trace before _ rfl)
      | createErr tmp e | flushErr tmp file e | syncErr tmp file e | renameErr tmp file e =>
          cases herror
          exact .fault _ e hlast rfl
      | removeFile tmp file e r => exact (ih herror).append _ rfl
      | _ => cases herror

/-- Without a file name the call makes no temp path. -/
theorem named_of_noFileName (h : Trace target f es pc) (hparent : Path.parent target ≠ none)
    (hname : Path.fileName target = none) :
    pc.tmp = none ∧ ∀ tmp file r, pc = .done tmp file r → r = .error noFileName := by
  induction h with
  | start =>
      refine ⟨Pc.tmp_start target, fun tmp file r hdone => ?_⟩
      rcases Option.ne_none_iff_exists'.mp hparent with ⟨dir, hdir⟩
      rw [Pc.start, hdir] at hdone
      cases hdone
  | next _ hnext ih =>
      have hnone := ih.1
      cases hnext with
      | processId =>
          refine ⟨rfl, fun tmp file r hdone => ?_⟩
          cases hdone
      | now =>
          refine ⟨rfl, fun tmp file r hdone => ?_⟩
          cases hdone
      | fetchAdd pid time counter =>
          rw [Pc.named, hname]
          refine ⟨rfl, fun tmp file r hdone => ?_⟩
          cases hdone
          rfl
      | _ => cases hnone

/-- A call that has a fault behind it is going to return it. -/
theorem error_of_fault (h : Trace target f es pc) (e : Event (@Reply δ)) (io : IoError)
    (hmem : e ∈ es) (hfault : faultOf e = some io) : pc.error = some (.io io) := by
  induction h with
  | start => cases hmem
  | next before hnext ih =>
      rcases List.mem_append.mp hmem with hmem | hmem
      -- After a fault there is only the cleanup.
      · have hq := ih hmem
        cases hnext with
        | removeFile => exact hq
        | _ => cases hq
      · cases List.mem_singleton.mp hmem
        cases hnext with
        | createErr => cases hfault; rfl
        | flushErr => cases hfault; rfl
        | syncErr => cases hfault; rfl
        | renameErr => cases hfault; rfl
        | _ => cases hfault

/-- A call whose writer has failed is going to return that. -/
theorem error_of_writer (h : Trace target f es pc) (hcreated : created es ≠ [])
    (hafter : f.after (replies es) = some (.ret (.error error))) : pc.error = some error := by
  induction h with
  | start => exact absurd rfl hcreated
  | @next es q q' e before hnext ih =>
      rw [created_append, created_of_trace before] at hcreated
      rw [created_of_trace before] at ih
      rw [replies_append] at hafter
      have hbefore := after_of_trace before
      cases hnext with
      | createOk tmp file =>
          have hf : f.after (replies es ++ []) = some (.ret (.error error)) := hafter
          rw [List.append_nil, hbefore f rfl, Option.some.injEq] at hf
          exact (Pc.error_writing tmp file f).mpr hf
      | write tmp file pos bytes k r =>
          have hk := Writer.after_append f _ r pos bytes k (hbefore _ rfl)
          exact (Pc.error_writing tmp file (k r)).mpr (Option.some.inj (hk.symm.trans hafter))
      | removeFile tmp file e r =>
          have hf : f.after (replies es ++ []) = some (.ret (.error error)) := hafter
          rw [List.append_nil] at hf
          have hfile : file.toList ++ [] ≠ [] := hcreated
          rw [List.append_nil] at hfile
          exact ih hfile hf
      | processId | now | fetchAdd | createErr => exact absurd rfl hcreated
      -- In all other states the writer has returned `Ok`.
      | _ =>
          have hf : f.after (replies es ++ []) = some (.ret (.error error)) := hafter
          rw [List.append_nil, hbefore (.ret (.ok ())) rfl] at hf
          cases hf

/-- A call that has returned has returned its cause. -/
theorem error_of_cause {tmp : Option Bytes} {file : Option Nat} {result : Except Error Unit}
    (h : Trace target f es (.done tmp file result : Pc δ)) (hcause : Cause target f es error) :
    result = .error error := by
  have herror : ∀ e, (Pc.done tmp file result : Pc δ).error = some e → result = .error e := by
    intro e he
    cases result with
    | ok u => cases he
    | error e' =>
        cases he
        rfl
  cases hcause with
  | noParent hparent =>
      cases (start_of_noParent h hparent).1
      rfl
  | noFileName hparent hname => exact (named_of_noFileName h hparent hname).2 tmp file result rfl
  | fault e io hmem hfault => exact herror _ (error_of_fault h e io hmem hfault)
  | writer error hcreated hafter => exact herror _ (error_of_writer h hcreated hafter)

/-- The replies are ones that the writer was waiting for. -/
theorem after_isSome_of_trace (h : Trace target f es pc) : ∃ u, f.after (replies es) = some u := by
  induction h with
  | start => exact ⟨f, Writer.after_nil f⟩
  | next before hnext ih =>
      rw [replies_append]
      cases hnext with
      | write tmp file pos bytes k r =>
          exact ⟨k r, Writer.after_append f _ r pos bytes k (after_of_trace before _ rfl)⟩
      | _ => exact (List.append_nil _).symm ▸ ih

/-- A call that has no file has made no writes. -/
theorem replies_of_trace (h : Trace target f es pc) (hcreated : created es = []) :
    replies es = [] := by
  induction h with
  | start => rfl
  | next before hnext ih =>
      rw [created_append] at hcreated
      have hbefore := (List.append_eq_nil_iff.mp hcreated).1
      rw [replies_append, ih hbefore]
      cases hnext with
      | write tmp file pos bytes k r =>
          rw [created_of_trace before] at hbefore
          cases hbefore
      | _ => rfl

end

/-! ### Saves -/

/-- Why a save returns an error. -/
inductive Saves.Cause (crate : Crc32cCrate) (saves : Saves ι π) (i : ι)
    (es : List (Event (@Reply δ))) : Error → Prop where
  | noParent (h : Path.parent (saves.path i) = none) : Cause crate saves i es noParent
  | noFileName (hparent : Path.parent (saves.path i) ≠ none)
      (h : Path.fileName (saves.path i) = none) : Cause crate saves i es noFileName
  | fault (e : Event (@Reply δ)) (io : IoError) (hmem : e ∈ es) (h : faultOf e = some io) :
      Cause crate saves i es (.io io)
  | write (r : Except IoError Nat) (io : IoError) (hmem : r ∈ replies es)
      (h : fatalReply r = some io) : Cause crate saves i es (.io io)
  | refused (error : Error) (hcreated : created es ≠ [])
      (h : (saves.value i).value.image crate (saves.build i) = .err error) :
      Cause crate saves i es error

variable [DecidableEq π] [DecidableEq δ] [DecidableEq ι]

/-- A save that has returned, in any run, has returned an error exactly when there is a cause,
    and it has returned the cause, if `write_all` has turns for all interruptions. -/
theorem save_error_iff (crate : Crc32cCrate) (host : Host π δ) (saves : Saves ι π)
    (m₀ : Machine π δ) (w : World π δ ι) (i : ι)
    (hrun : ((saves.calls crate).start m₀).Reaches ((saves.calls crate).exec host)
      (fun _ _ => True) w)
    (result : Except Error Unit) (hret : w.prog i = .ret result)
    (hturns : ((saves.value i).bytes crate).length + interruptions (replies (w.events i))
      ≤ saves.turns i) (error : Error) :
    result = .error error ↔ saves.Cause crate i (w.events i) error := by
  have htracked : ∃ pc, Tracked (saves.calls crate) w pc ∧ True :=
    reaches_induction trivial (fun _ _ _ _ => trivial) hrun
  rcases htracked with ⟨pc, htracked, -⟩
  rcases htracked.done hret with ⟨tmp, file, hdone⟩
  have htrace : Trace (saves.path i) ((saves.value i).writer crate (saves.build i)
      (saves.turns i)) (w.events i) (.done tmp file result) := hdone ▸ htracked.trace i
  rcases after_isSome_of_trace htrace with ⟨u, hafter⟩
  have hwriter := (saves.value i).writer_error_iff crate (saves.build i) (saves.turns i)
    (replies (w.events i)) u hafter hturns error
  constructor
  · rintro rfl
    cases cause_of_error htrace rfl with
    | noParent h => exact .noParent h
    | noFileName hparent h => exact .noFileName hparent h
    | fault e io hmem h => exact .fault e io hmem h
    | writer _ hcreated h =>
        rcases hwriter.mp (Option.some.inj (hafter.symm.trans h)) with
          himage | ⟨r, hr, e, hfatal, rfl⟩
        · exact .refused error hcreated himage
        · exact .write r e hr hfatal
  · intro hcause
    refine error_of_cause htrace ?_
    cases hcause with
    | noParent h => exact .noParent h
    | noFileName hparent h => exact .noFileName hparent h
    | fault e io hmem h => exact .fault e io hmem h
    | write r io hmem h =>
        refine .writer _ (fun hnone => ?_) ?_
        · rw [replies_of_trace htrace hnone] at hmem
          cases hmem
        · rw [hafter, hwriter.mpr (Or.inr ⟨r, hmem, io, h, rfl⟩)]
    | refused _ hcreated h =>
        refine .writer _ hcreated ?_
        rw [hafter, hwriter.mpr (Or.inl h)]

def noSpace : IoError := ⟨.other, "No space left on device (os error 28)"⟩

/-- The saves with turns for many interruptions. -/
def patientSaves : Saves Bool Unit := { sampleSaves with turns := fun _ => 400 }

/-- The first write of the cache is interrupted, the second takes a part, the third fails. -/
def failSave : List (Bool × Choice) :=
  [(true, .proceed), (true, .clock (some 9)), (true, .proceed), (true, .proceed),
    (true, .fault interruption), (true, .wrote 100), (true, .fault noSpace), (true, .proceed)]

def failedSave : World Unit Unit Bool :=
  (((patientSaves.calls castagnoli).start sampleMachine).run
    ((patientSaves.calls castagnoli).exec sampleHost) failSave).get (by decide +kernel)

/-- Whether a program has returned. -/
def hasReturned {Op α : Type} {Reply : Op → Type} : Program Reply α → Bool
  | .ret _ => true
  | .op _ _ => false

theorem failedSave_returned : ∃ result, failedSave.prog true = .ret result := by
  have hreturned : hasReturned (failedSave.prog true) = true := by decide +kernel
  cases hprog : failedSave.prog true with
  | ret result => exact ⟨result, rfl⟩
  | op o k =>
      rw [hprog] at hreturned
      cases hreturned

/-- The save returns the failure of the third write, and not the interruption. -/
theorem save_error_iff_sample : failedSave.prog true = .ret (.error (.io noSpace)) := by
  rcases failedSave_returned with ⟨result, hret⟩
  have hcause : patientSaves.Cause castagnoli true (failedSave.events true) (.io noSpace) :=
    .write (.error noSpace) noSpace (by decide +kernel) rfl
  rw [hret, (save_error_iff castagnoli sampleHost patientSaves sampleMachine failedSave true
    (Pool.reaches_of_run failSave _ _ (Option.some_get _).symm) result hret
    (by decide +kernel) (.io noSpace)).mpr hcause]

end SkegHull
