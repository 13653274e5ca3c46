import SkegHull.Atomic

/-!
# The Replacement Protocol

`atomicWrite` as a state machine: where a call stands, and what it has learned
from the replies so far. The program of the source is the machine's program in
its first state, and every operation takes a machine's program to another one.

The states carry two things the program itself does not need any more at the
end, the temp path and the number of the temp file, so that what a call owns can
be read off its state.

`Trace` is a call's history and the state it leads to. The state sums the history
up: the temp file the call tried to create, the file it created, the renames it
made, and what its writer has left to do.

## Main definitions

* `Pc`, `Pc.prog`: Where a call stands, and what it still has to do.
* `Pc.Next`: One event.
* `Trace`: A history and its state.
* `temps`, `created`, `replies`, `written`, `renames`, `tickets`: What a history
  contains.
* `Completed`: The writer returned `Ok` after writing these bytes.
* `Pc.tried`, `Pc.file`, `Pc.renamed`, `Pc.remaining`: What a state says about its
  history.
* `Named`: How a history made its temp path.

## Theorems

* `prog_start`: The machine starts as the program of the source.
* `next_of_prog`: Every operation of the machine's program is one of its events.
* `temps_of_trace`, `created_of_trace`, `renames_of_trace`, `after_of_trace`: A
  state sums its history up.
* `rename_of_trace`, `removeFile_of_trace`: A call renames and removes its own
  temp file.
* `named_of_trace`: A temp path comes from the target, the process, and the
  ticket.
* `completed_of_moved`: What was renamed is what a writer completed.
-/

namespace SkegHull

open Lib

/-- Where a call of `atomicWrite` stands. -/
inductive Pc (δ : Type) where
  | begin
  | clock (pid : UInt32)
  | ticket (pid : UInt32) (time : Option Nat)
  | create (tmp : Bytes)
  | body (tmp : Bytes) (file pos : Nat) (bytes : Bytes) (k : Except IoError Nat → Writer)
  | flush (tmp : Bytes) (file : Nat)
  | sync (tmp : Bytes) (file : Nat)
  | rename (tmp : Bytes) (file : Nat)
  | openDir (tmp : Bytes) (file : Nat)
  | syncDir (tmp : Bytes) (file : Nat) (dir : δ)
  | cleanup (tmp : Bytes) (file : Option Nat) (e : Error)
  | done (tmp : Option Bytes) (file : Option Nat) (result : Except Error Unit)

variable {δ : Type}

/-- The directory of a target that has one. -/
def dirPath (target : Bytes) : Bytes := (Path.parent target).getD []

/-- What follows the closure. -/
def settle (tmpPath : Bytes) : Except Error Unit → Program (@Reply δ) (Except Error Unit)
  | .ok () => pure (.ok ())
  | .error e => do
      let _ ← sys (.removeFile tmpPath)
      pure (.error e)

section

variable (target : Bytes) (f : Writer)

/-- What the closure still has to do after the rename, after synchronising the
    file, after flushing it, after the writer, and after opening it. -/
def afterRename : ExceptT Error (Program (@Reply δ)) Unit :=
  ExceptT.lift (fsyncDir (dirPath target))

def afterSync (tmp : Bytes) : ExceptT Error (Program (@Reply δ)) Unit := do
  io (sys (.rename tmp target))
  afterRename target

def afterFlush (tmp : Bytes) (file : Nat) : ExceptT Error (Program (@Reply δ)) Unit := do
  io (sys (.syncAll (.file file)))
  afterSync target tmp

def afterBody (tmp : Bytes) (file : Nat) : ExceptT Error (Program (@Reply δ)) Unit := do
  io (sys (.flush file))
  afterFlush target tmp file

def afterCreate (tmp : Bytes) (file : Nat) (w : Writer) :
    ExceptT Error (Program (@Reply δ)) Unit := do
  ExceptT.mk (w.on file)
  afterBody target tmp file

/-- What follows the ticket. -/
def afterTicket (pid : UInt32) (time : Option Nat) (counter : UInt64) :
    Program (@Reply δ) (Except Error Unit) :=
  match Path.fileName target with
  | none => pure (.error noFileName)
  | some name => do
      let tmpPath := Path.join (dirPath target) (tmpName name pid (nanosOf time) counter)
      settle tmpPath (← (replace (dirPath target) tmpPath target f).run)

/-- What a call still has to do. -/
def Pc.prog : Pc δ → Program (@Reply δ) (Except Error Unit)
  | .begin => do
      let pid ← sys .processId
      let time ← sys .now
      let counter ← sys .fetchAdd
      afterTicket target f pid time counter
  | .clock pid => do
      let time ← sys .now
      let counter ← sys .fetchAdd
      afterTicket target f pid time counter
  | .ticket pid time => do
      let counter ← sys .fetchAdd
      afterTicket target f pid time counter
  | .create tmp => (replace (dirPath target) tmp target f).run >>= settle tmp
  | .body tmp file pos bytes k =>
      (afterCreate target tmp file (.write pos bytes k)).run >>= settle tmp
  | .flush tmp file => (afterBody target tmp file).run >>= settle tmp
  | .sync tmp file => (afterFlush target tmp file).run >>= settle tmp
  | .rename tmp _ => (afterSync target tmp).run >>= settle tmp
  | .openDir tmp _ => (afterRename target).run >>= settle tmp
  | .syncDir _ _ dir => do
      let _ ← sys (.syncAll (.dir dir))
      pure (.ok ())
  | .cleanup tmp _ e => settle tmp (.error e)
  | .done _ _ result => pure result

/-- Where a call stands when its writer has this much left to do. -/
def Pc.writing (tmp : Bytes) (file : Nat) : Writer → Pc δ
  | .write pos bytes k => .body tmp file pos bytes k
  | .ret (.ok ()) => .flush tmp file
  | .ret (.error e) => .cleanup tmp (some file) e

/-- Where a call stands once it has its ticket. -/
def Pc.named (pid : UInt32) (time : Option Nat) (counter : UInt64) : Pc δ :=
  match Path.fileName target with
  | none => .done none none (.error noFileName)
  | some name => .create (Path.join (dirPath target) (tmpName name pid (nanosOf time) counter))

/-- Where a call starts. -/
def Pc.start : Pc δ :=
  match Path.parent target with
  | none => .done none none (.error noParent)
  | some _ => .begin

theorem Pc.start_cases : (Pc.start target : Pc δ) = .begin ∨
    (Pc.start target : Pc δ) = .done none none (.error noParent) := by
  unfold Pc.start
  cases Path.parent target with
  | none => exact Or.inr rfl
  | some dir => exact Or.inl rfl

/-- One event of a call. -/
inductive Pc.Next : Pc δ → Event (@Reply δ) → Pc δ → Prop where
  | processId (pid : UInt32) : Next .begin ⟨.processId, pid⟩ (.clock pid)
  | now (pid : UInt32) (time : Option Nat) :
      Next (.clock pid) ⟨.now, time⟩ (.ticket pid time)
  | fetchAdd (pid : UInt32) (time : Option Nat) (counter : UInt64) :
      Next (.ticket pid time) ⟨.fetchAdd, counter⟩ (.named target pid time counter)
  | createOk (tmp : Bytes) (file : Nat) :
      Next (.create tmp) ⟨.createNew tmp, .ok file⟩ (.writing tmp file f)
  | createErr (tmp : Bytes) (e : IoError) :
      Next (.create tmp) ⟨.createNew tmp, .error e⟩ (.cleanup tmp none (.io e))
  | write (tmp : Bytes) (file pos : Nat) (bytes : Bytes) (k : Except IoError Nat → Writer)
      (r : Except IoError Nat) :
      Next (.body tmp file pos bytes k) ⟨.write file pos bytes, r⟩ (.writing tmp file (k r))
  | flushOk (tmp : Bytes) (file : Nat) :
      Next (.flush tmp file) ⟨.flush file, .ok ()⟩ (.sync tmp file)
  | flushErr (tmp : Bytes) (file : Nat) (e : IoError) :
      Next (.flush tmp file) ⟨.flush file, .error e⟩ (.cleanup tmp (some file) (.io e))
  | syncOk (tmp : Bytes) (file : Nat) :
      Next (.sync tmp file) ⟨.syncAll (.file file), .ok ()⟩ (.rename tmp file)
  | syncErr (tmp : Bytes) (file : Nat) (e : IoError) :
      Next (.sync tmp file) ⟨.syncAll (.file file), .error e⟩ (.cleanup tmp (some file) (.io e))
  | renameOk (tmp : Bytes) (file : Nat) :
      Next (.rename tmp file) ⟨.rename tmp target, .ok ()⟩ (.openDir tmp file)
  | renameErr (tmp : Bytes) (file : Nat) (e : IoError) :
      Next (.rename tmp file) ⟨.rename tmp target, .error e⟩ (.cleanup tmp (some file) (.io e))
  | openDirOk (tmp : Bytes) (file : Nat) (dir : δ) :
      Next (.openDir tmp file) ⟨.openDir (dirPath target), .ok dir⟩ (.syncDir tmp file dir)
  | openDirErr (tmp : Bytes) (file : Nat) (e : IoError) :
      Next (.openDir tmp file) ⟨.openDir (dirPath target), .error e⟩
        (.done (some tmp) (some file) (.ok ()))
  | syncDir (tmp : Bytes) (file : Nat) (dir : δ) (r : Except IoError Unit) :
      Next (.syncDir tmp file dir) ⟨.syncAll (.dir dir), r⟩
        (.done (some tmp) (some file) (.ok ()))
  | removeFile (tmp : Bytes) (file : Option Nat) (e : Error) (r : Except IoError Unit) :
      Next (.cleanup tmp file e) ⟨.removeFile tmp, r⟩ (.done (some tmp) file (.error e))

/-- The machine starts as the program of the source. -/
theorem prog_start : atomicWrite target f = (Pc.start target : Pc δ).prog target f := by
  cases hparent : Path.parent target with
  | none => simp only [atomicWrite, Pc.start, hparent, Pc.prog]
  | some dir =>
      have hdir : dirPath target = dir := by rw [dirPath, hparent, Option.getD_some]
      simp only [atomicWrite, Pc.start, hparent, Pc.prog, afterTicket, hdir]
      rfl

theorem prog_named (pid : UInt32) (time : Option Nat) (counter : UInt64) :
    (Pc.named target pid time counter : Pc δ).prog target f
      = afterTicket target f pid time counter := by
  rw [Pc.named, afterTicket]
  cases Path.fileName target with
  | none => rfl
  | some name => rfl

theorem prog_writing (tmp : Bytes) (file : Nat) (w : Writer) :
    (Pc.writing tmp file w : Pc δ).prog target f
      = (afterCreate target tmp file w).run >>= settle tmp := by
  cases w with
  | write pos bytes k => rfl
  | ret result =>
      cases result with
      | ok _ => rfl
      | error e => rfl

/-- Every operation of the machine's program is one of its events. -/
theorem next_of_prog (pc : Pc δ) (o : Op δ) (k : Reply o → Program (@Reply δ) (Except Error Unit))
    (h : pc.prog target f = .op o k) (r : Reply o) :
    ∃ pc' : Pc δ, pc.Next target f ⟨o, r⟩ pc' ∧ k r = pc'.prog target f := by
  -- Each state stands in front of one operation, and the reply picks the next state.
  cases pc with
  | begin =>
      cases h
      exact ⟨_, .processId r, rfl⟩
  | clock pid =>
      cases h
      exact ⟨_, .now pid r, rfl⟩
  | ticket pid time =>
      cases h
      exact ⟨_, .fetchAdd pid time r, (prog_named target f pid time r).symm⟩
  | create tmp =>
      cases h
      cases r with
      | ok file => exact ⟨_, .createOk tmp file, (prog_writing target f tmp file f).symm⟩
      | error e => exact ⟨_, .createErr tmp e, rfl⟩
  | body tmp file pos bytes k =>
      cases h
      exact ⟨_, .write tmp file pos bytes k r, (prog_writing target f tmp file (k r)).symm⟩
  | flush tmp file =>
      cases h
      cases r with
      | ok _ => exact ⟨_, .flushOk tmp file, rfl⟩
      | error e => exact ⟨_, .flushErr tmp file e, rfl⟩
  | sync tmp file =>
      cases h
      cases r with
      | ok _ => exact ⟨_, .syncOk tmp file, rfl⟩
      | error e => exact ⟨_, .syncErr tmp file e, rfl⟩
  | rename tmp file =>
      cases h
      cases r with
      | ok _ => exact ⟨_, .renameOk tmp file, rfl⟩
      | error e => exact ⟨_, .renameErr tmp file e, rfl⟩
  | openDir tmp file =>
      cases h
      cases r with
      | ok dir => exact ⟨_, .openDirOk tmp file dir, rfl⟩
      | error e => exact ⟨_, .openDirErr tmp file e, rfl⟩
  | syncDir tmp file dir =>
      cases h
      exact ⟨_, .syncDir tmp file dir r, rfl⟩
  | cleanup tmp file e =>
      cases h
      exact ⟨_, .removeFile tmp file e r, rfl⟩
  | done tmp file result => cases h

end

/-! ### Histories -/

/-- The tickets taken in a history. -/
def tickets (events : List (Event (@Reply δ))) : List UInt64 :=
  events.filterMap fun
    | ⟨.fetchAdd, counter⟩ => some counter
    | _ => none

/-- The temp files that a history tried to create. -/
def temps (events : List (Event (@Reply δ))) : List Bytes :=
  events.filterMap fun
    | ⟨.createNew path, _⟩ => some path
    | _ => none

/-- The files that a history created. -/
def created (events : List (Event (@Reply δ))) : List Nat :=
  events.filterMap fun
    | ⟨.createNew _, .ok file⟩ => some file
    | _ => none

/-- What the writer was told about its writes. -/
def replies (events : List (Event (@Reply δ))) : List (Except IoError Nat) :=
  events.filterMap fun
    | ⟨.write _ _ _, r⟩ => some r
    | _ => none

/-- The renames that a history made. -/
def renames (events : List (Event (@Reply δ))) : List (Bytes × Bytes) :=
  events.filterMap fun
    | ⟨.rename src dst, .ok ()⟩ => some (src, dst)
    | _ => none

/-- What one event makes of the content. -/
def writtenBy (content : Bytes) : Event (@Reply δ) → Bytes
  | ⟨.write _ pos bytes, .ok count⟩ => writeAt content pos (bytes.take count)
  | _ => content

/-- The bytes that a history wrote to an empty file. -/
def written (events : List (Event (@Reply δ))) : Bytes := events.foldl writtenBy []

/-- The writer was called, returned `Ok`, and wrote these bytes. -/
def Completed (f : Writer) (events : List (Event (@Reply δ))) (bytes : Bytes) : Prop :=
  created events ≠ [] ∧ f.after (replies events) = some (.ret (.ok ())) ∧ written events = bytes

theorem tickets_append (es es' : List (Event (@Reply δ))) :
    tickets (es ++ es') = tickets es ++ tickets es' := List.filterMap_append

theorem temps_append (es es' : List (Event (@Reply δ))) :
    temps (es ++ es') = temps es ++ temps es' := List.filterMap_append

theorem created_append (es es' : List (Event (@Reply δ))) :
    created (es ++ es') = created es ++ created es' := List.filterMap_append

theorem replies_append (es es' : List (Event (@Reply δ))) :
    replies (es ++ es') = replies es ++ replies es' := List.filterMap_append

theorem renames_append (es es' : List (Event (@Reply δ))) :
    renames (es ++ es') = renames es ++ renames es' := List.filterMap_append

theorem written_append (es : List (Event (@Reply δ))) (e : Event (@Reply δ)) :
    written (es ++ [e]) = writtenBy (written es) e := List.foldl_concat _ _ _ _

theorem Writer.after_nil (w : Writer) : w.after [] = some w := by
  cases w <;> rfl

theorem Writer.after_append (w : Writer) (rs : List (Except IoError Nat)) (r : Except IoError Nat)
    (pos : Nat) (bytes : Bytes) (k : Except IoError Nat → Writer)
    (h : w.after rs = some (.write pos bytes k)) : w.after (rs ++ [r]) = some (k r) := by
  induction rs generalizing w with
  | nil =>
      rw [Writer.after_nil, Option.some.injEq] at h
      rw [h, List.nil_append]
      exact (k r).after_nil
  | cons s rs ih =>
      cases w with
      -- A writer that has returned takes no reply.
      | ret result => cases h
      | write pos' bytes' k' => exact ih (k' s) h

/-! ### What a history says about its state -/

namespace Pc

/-- The name a call has made for its temp file. -/
def tmp : Pc δ → Option Bytes
  | .begin | .clock _ | .ticket _ _ => none
  | .create tmp | .body tmp _ _ _ _ | .flush tmp _ | .sync tmp _ | .rename tmp _
  | .openDir tmp _ | .syncDir tmp _ _ | .cleanup tmp _ _ => some tmp
  | .done tmp _ _ => tmp

/-- The temp file a call has tried to create. -/
def tried : Pc δ → Option Bytes
  | .create _ => none
  | pc => pc.tmp

/-- The file a call has created. -/
def file : Pc δ → Option Nat
  | .begin | .clock _ | .ticket _ _ | .create _ => none
  | .body _ file _ _ _ | .flush _ file | .sync _ file | .rename _ file | .openDir _ file
  | .syncDir _ file _ => some file
  | .cleanup _ file _ | .done _ file _ => file

/-- The rename a call has made. -/
def renamed (target : Bytes) : Pc δ → List (Bytes × Bytes)
  | .openDir tmp _ | .syncDir tmp _ _ | .done (some tmp) _ (.ok _) => [(tmp, target)]
  | _ => []

/-- What the writer still has to do, while that matters. -/
def remaining (f : Writer) : Pc δ → Option Writer
  | .begin | .clock _ | .ticket _ _ | .create _ => some f
  | .body _ _ pos bytes k => some (.write pos bytes k)
  | .flush _ _ | .sync _ _ | .rename _ _ | .openDir _ _ | .syncDir _ _ _
  | .done _ _ (.ok _) => some (.ret (.ok ()))
  | .cleanup _ _ _ | .done _ _ _ => none

/-- The file a call has synchronised. -/
def synced : Pc δ → Option Nat
  | .rename _ file | .openDir _ file | .syncDir _ file _ => some file
  | .done _ file (.ok _) => file
  | _ => none

/-- The file a call has renamed onto its target. -/
def moved : Pc δ → Option Nat
  | .openDir _ file | .syncDir _ file _ => some file
  | .done _ file (.ok _) => file
  | _ => none

/-- The name and the file of a call that has not renamed it yet. -/
def held : Pc δ → Option (Bytes × Nat)
  | .body tmp file _ _ _ | .flush tmp file | .sync tmp file | .rename tmp file => some (tmp, file)
  | _ => none

/-- The name of a call whose temp file should be gone. -/
def gone : Pc δ → Option Bytes
  | .openDir tmp _ | .syncDir tmp _ _ => some tmp
  | .done tmp _ _ => tmp
  | _ => none

theorem tmp_start (target : Bytes) : (start target : Pc δ).tmp = none := by
  rcases start_cases target with h | h
  · rw [h]; rfl
  · rw [h]; rfl

theorem file_start (target : Bytes) : (start target : Pc δ).file = none := by
  rcases start_cases target with h | h
  · rw [h]; rfl
  · rw [h]; rfl

/-- A file that was synchronised, or renamed, is the call's file. -/
theorem file_of_synced (pc : Pc δ) (file : Nat) (h : pc.synced = some file) :
    pc.file = some file := by
  cases pc with
  | done tmp f r =>
      cases r with
      | ok _ => exact h
      | error e => cases h
  | rename tmp f => exact h
  | openDir tmp f => exact h
  | syncDir tmp f d => exact h
  | _ => cases h

theorem synced_of_moved (pc : Pc δ) (file : Nat) (h : pc.moved = some file) :
    pc.synced = some file := by
  cases pc with
  | done tmp f r =>
      cases r with
      | ok _ => exact h
      | error e => cases h
  | openDir tmp f => exact h
  | syncDir tmp f d => exact h
  | _ => cases h

theorem tmp_of_tried (pc : Pc δ) (tmp : Bytes) (h : pc.tried = some tmp) : pc.tmp = some tmp := by
  cases pc with
  | create t => cases h
  | _ => exact h

theorem tried_of_held (pc : Pc δ) (tmp : Bytes) (file : Nat) (h : pc.held = some (tmp, file)) :
    pc.tried = some tmp := by
  cases pc with
  | body t f pos bytes k => cases h; rfl
  | flush t f => cases h; rfl
  | sync t f => cases h; rfl
  | rename t f => cases h; rfl
  | _ => cases h

theorem tried_of_gone (pc : Pc δ) (tmp : Bytes) (h : pc.gone = some tmp) :
    pc.tried = some tmp := by
  cases pc with
  | openDir t f => exact h
  | syncDir t f d => exact h
  | done t f r => exact h
  | _ => cases h

@[simp] theorem tried_writing (tmp : Bytes) (file : Nat) (w : Writer) :
    (writing tmp file w : Pc δ).tried = some tmp := by
  rcases w with ⟨_ | _⟩ | _ <;> rfl

@[simp] theorem file_writing (tmp : Bytes) (file : Nat) (w : Writer) :
    (writing tmp file w : Pc δ).file = some file := by
  rcases w with ⟨_ | _⟩ | _ <;> rfl

@[simp] theorem renamed_writing (target tmp : Bytes) (file : Nat) (w : Writer) :
    (writing tmp file w : Pc δ).renamed target = [] := by
  rcases w with ⟨_ | _⟩ | _ <;> rfl

@[simp] theorem synced_writing (tmp : Bytes) (file : Nat) (w : Writer) :
    (writing tmp file w : Pc δ).synced = none := by
  rcases w with ⟨_ | _⟩ | _ <;> rfl

@[simp] theorem moved_writing (tmp : Bytes) (file : Nat) (w : Writer) :
    (writing tmp file w : Pc δ).moved = none := by
  rcases w with ⟨_ | _⟩ | _ <;> rfl

@[simp] theorem gone_writing (tmp : Bytes) (file : Nat) (w : Writer) :
    (writing tmp file w : Pc δ).gone = none := by
  rcases w with ⟨_ | _⟩ | _ <;> rfl

theorem writing_ne_done (tmp : Bytes) (file : Nat) (w : Writer) (t : Option Bytes)
    (i : Option Nat) (r : Except Error Unit) : (writing tmp file w : Pc δ) ≠ .done t i r := by
  intro h
  rcases w with ⟨_ | _⟩ | _ <;> cases h

theorem held_writing (tmp : Bytes) (file : Nat) (w : Writer) (x : Bytes × Nat)
    (h : (writing tmp file w : Pc δ).held = some x) : x = (tmp, file) := by
  rcases w with ⟨_ | _⟩ | _
  · cases h
  · exact (Option.some.inj h).symm
  · exact (Option.some.inj h).symm

theorem remaining_writing (f : Writer) (tmp : Bytes) (file : Nat) (w w' : Writer)
    (h : (writing tmp file w : Pc δ).remaining f = some w') : w' = w := by
  rcases w with ⟨_ | _⟩ | _
  · cases h
  · exact (Option.some.inj h).symm
  · exact (Option.some.inj h).symm

/-- A call that has made a temp path tries to create it with its next event, or has done
    so. -/
theorem tried_of_next {target : Bytes} {f : Writer} {e : Event (@Reply δ)} {q q' : Pc δ}
    (h : q.Next target f e q') (path : Bytes) (hpath : q.tmp = some path) :
    q'.tried = some path := by
  cases h with
  | processId => cases hpath
  | now => cases hpath
  | fetchAdd => cases hpath
  | createOk t i => exact (tried_writing t i f).trans hpath
  | write t i pos bytes k r => exact (tried_writing t i (k r)).trans hpath
  | _ => exact hpath

/-- A call keeps its file. -/
theorem file_of_next {target : Bytes} {f : Writer} {e : Event (@Reply δ)} {q q' : Pc δ}
    (h : q.Next target f e q') (i : Nat) (hi : q.file = some i) : q'.file = some i := by
  cases h with
  | processId => cases hi
  | now => cases hi
  | fetchAdd => cases hi
  | createOk => cases hi
  | createErr => cases hi
  | write t j pos bytes k r => exact (file_writing t j (k r)).trans hi
  | _ => exact hi

end Pc

/-- A call's history and the state it leads to. -/
inductive Trace (target : Bytes) (f : Writer) : List (Event (@Reply δ)) → Pc δ → Prop where
  | start : Trace target f [] (.start target)
  | next {es : List (Event (@Reply δ))} {pc pc' : Pc δ} {e : Event (@Reply δ)}
      (before : Trace target f es pc) (h : pc.Next target f e pc') : Trace target f (es ++ [e]) pc'

section

variable {target : Bytes} {f : Writer} {es : List (Event (@Reply δ))} {pc : Pc δ}

theorem temps_of_trace (h : Trace target f es pc) : temps es = pc.tried.toList := by
  induction h with
  | start =>
      rcases Pc.start_cases target with h | h
      · rw [h]; rfl
      · rw [h]; rfl
  | next _ hnext ih =>
      rw [temps_append, ih]
      -- Creating is the only event that adds a name, and it leaves its state for good.
      cases hnext with
      | fetchAdd pid time counter =>
          rw [Pc.named]
          cases Path.fileName target <;> rfl
      | createOk tmp file => rw [Pc.tried_writing]; rfl
      | write tmp file pos bytes k r => rw [Pc.tried_writing]; rfl
      | _ => rfl

theorem created_of_trace (h : Trace target f es pc) : created es = pc.file.toList := by
  induction h with
  | start =>
      rcases Pc.start_cases target with h | h
      · rw [h]; rfl
      · rw [h]; rfl
  | next _ hnext ih =>
      rw [created_append, ih]
      -- A file is created once, from a state that has none.
      cases hnext with
      | fetchAdd pid time counter =>
          rw [Pc.named]
          cases Path.fileName target <;> rfl
      | createOk tmp file => rw [Pc.file_writing]; rfl
      | write tmp file pos bytes k r => rw [Pc.file_writing]; rfl
      | removeFile tmp file e r => exact List.append_nil _
      | _ => rfl

theorem renames_of_trace (h : Trace target f es pc) : renames es = pc.renamed target := by
  induction h with
  | start =>
      rcases Pc.start_cases target with h | h
      · rw [h]; rfl
      · rw [h]; rfl
  | next _ hnext ih =>
      rw [renames_append, ih]
      -- A rename is made once, and a call that has made it cannot fail any more.
      cases hnext with
      | fetchAdd pid time counter =>
          rw [Pc.named]
          cases Path.fileName target <;> rfl
      | createOk tmp file => rw [Pc.renamed_writing]; rfl
      | write tmp file pos bytes k r => rw [Pc.renamed_writing]; rfl
      | _ => rfl

/-- The writer has this much left to do. -/
theorem after_of_trace (h : Trace target f es pc) (w : Writer) (hw : pc.remaining f = some w) :
    f.after (replies es) = some w := by
  induction h generalizing w with
  | start =>
      rcases Pc.start_cases target with h | h
      · rw [h] at hw
        exact (Writer.after_nil f).trans hw
      · rw [h] at hw
        cases hw
  | next _ hnext ih =>
      rw [replies_append]
      cases hnext with
      | fetchAdd pid time counter =>
          rw [Pc.named] at hw
          cases hname : Path.fileName target with
          | none => rw [hname] at hw; cases hw
          | some name => rw [hname] at hw; exact (List.append_nil _).symm ▸ ih w hw
      | createOk tmp file =>
          rw [Pc.remaining_writing f tmp file f w hw]
          exact (List.append_nil _).symm ▸ ih f rfl
      | write tmp file pos bytes k r =>
          rw [Pc.remaining_writing f tmp file (k r) w hw]
          exact Writer.after_append f _ r pos bytes k (ih _ rfl)
      -- After a failure it does not matter what the writer has left to do.
      | createErr tmp e => cases hw
      | flushErr tmp file e => cases hw
      | syncErr tmp file e => cases hw
      | renameErr tmp file e => cases hw
      | removeFile tmp file e r => cases hw
      | _ => exact (List.append_nil _).symm ▸ ih w hw

/-- A call renames its own temp file, and onto its target. -/
theorem rename_of_trace (h : Trace target f es pc) (src dst : Bytes) (r : Except IoError Unit)
    (hmem : ⟨.rename src dst, r⟩ ∈ es) : src ∈ temps es ∧ dst = target := by
  induction h with
  | start => cases hmem
  | next before hnext ih =>
      rw [temps_append]
      rcases List.mem_append.mp hmem with hmem | hmem
      · exact ⟨List.mem_append_left _ (ih hmem).1, (ih hmem).2⟩
      -- The event is the last one, and its state knows the name.
      · rw [temps_of_trace before]
        cases List.mem_singleton.mp hmem
        cases hnext with
        | renameOk => exact ⟨List.mem_cons_self, rfl⟩
        | renameErr => exact ⟨List.mem_cons_self, rfl⟩

/-- A call removes its own temp file. -/
theorem removeFile_of_trace (h : Trace target f es pc) (path : Bytes) (r : Except IoError Unit)
    (hmem : ⟨.removeFile path, r⟩ ∈ es) : path ∈ temps es := by
  induction h with
  | start => cases hmem
  | next before hnext ih =>
      rw [temps_append]
      rcases List.mem_append.mp hmem with hmem | hmem
      · exact List.mem_append_left _ (ih hmem)
      -- The event is the last one, and its state knows the name.
      · rw [temps_of_trace before]
        cases List.mem_singleton.mp hmem
        cases hnext with
        | removeFile => exact List.mem_cons_self

/-- Nothing is written before a file was created. -/
theorem written_of_trace (h : Trace target f es pc) (hfile : pc.file = none) : written es = [] := by
  induction h with
  | start => rfl
  | next _ hnext ih =>
      rw [written_append]
      cases hnext with
      | fetchAdd pid time counter => exact ih rfl
      | createOk tmp file =>
          rw [Pc.file_writing] at hfile
          cases hfile
      | write tmp file pos bytes k r =>
          rw [Pc.file_writing] at hfile
          cases hfile
      | _ => exact ih hfile

/-- How the temp path of a history was made. -/
def Named (target : Bytes) (es : List (Event (@Reply δ))) (tmp : Bytes) : Prop :=
  ∃ name pid nanos counter, Path.fileName target = some name ∧
    tmp = Path.join (dirPath target) (tmpName name pid nanos counter) ∧
    ⟨.processId, pid⟩ ∈ es ∧ tickets es = [counter]

/-- What a history says about the name it made, or has yet to make. -/
def Pc.Ready (target : Bytes) (es : List (Event (@Reply δ))) : Pc δ → Prop
  | .begin => tickets es = []
  | .clock pid | .ticket pid _ => ⟨.processId, pid⟩ ∈ es ∧ tickets es = []
  | pc => ∀ tmp, pc.tmp = some tmp → Named target es tmp

theorem Named.append {tmp : Bytes} (h : Named target es tmp) (e : Event (@Reply δ))
    (he : tickets [e] = []) : Named target (es ++ [e]) tmp := by
  rcases h with ⟨name, pid, nanos, counter, hname, htmp, hpid, hticket⟩
  refine ⟨name, pid, nanos, counter, hname, htmp, List.mem_append_left _ hpid, ?_⟩
  rw [tickets_append, hticket, he, List.append_nil]

theorem Pc.ready_writing (tmp : Bytes) (file : Nat) (w : Writer) (h : Named target es tmp) :
    (writing tmp file w : Pc δ).Ready target es := by
  have hall : ∀ t, some tmp = some t → Named target es t := fun t ht => Option.some.inj ht ▸ h
  rcases w with ⟨_ | _⟩ | _ <;> exact hall

theorem ready_of_trace (h : Trace target f es pc) : pc.Ready target es := by
  induction h with
  | start =>
      rcases Pc.start_cases target with h | h
      · rw [h]
        rfl
      · rw [h]
        intro tmp htmp
        cases htmp
  | @next es pc pc' e _ hnext ih =>
      cases hnext with
      | processId pid =>
          exact ⟨List.mem_append_right _ List.mem_cons_self, by rw [tickets_append, ih]; rfl⟩
      | now pid time =>
          exact ⟨List.mem_append_left _ ih.1, by rw [tickets_append, ih.2]; rfl⟩
      | fetchAdd pid time counter =>
          rw [Pc.named]
          cases hname : Path.fileName target with
          | none =>
              intro tmp htmp
              cases htmp
          -- The name is made from the number and the ticket that were just read.
          | some name =>
              intro tmp htmp
              refine ⟨name, pid, nanosOf time, counter, hname, (Option.some.inj htmp).symm,
                List.mem_append_left _ ih.1, ?_⟩
              rw [tickets_append, ih.2]
              rfl
      | createOk tmp file =>
          exact Pc.ready_writing tmp file f ((ih tmp rfl).append _ rfl)
      | write tmp file pos bytes k r =>
          exact Pc.ready_writing tmp file (k r) ((ih tmp rfl).append _ rfl)
      | _ => exact fun tmp htmp => (ih tmp htmp).append _ rfl

/-- A name that a call made came from its target, its process, and its ticket. -/
theorem named_of_trace (h : Trace target f es pc) (tmp : Bytes) (htmp : pc.tmp = some tmp) :
    Named target es tmp := by
  have hready := ready_of_trace h
  cases pc with
  | begin => cases htmp
  | clock pid => cases htmp
  | ticket pid time => cases htmp
  | _ => exact hready tmp htmp

/-- A call that has renamed its file had a writer that returned `Ok`. -/
theorem completed_of_moved (h : Trace target f es pc) (file : Nat) (hmoved : pc.moved = some file) :
    Completed f es (written es) := by
  have hfile := Pc.file_of_synced pc file (Pc.synced_of_moved pc file hmoved)
  refine ⟨?_, after_of_trace h (.ret (.ok ())) ?_, rfl⟩
  · rw [created_of_trace h, hfile]
    exact List.cons_ne_nil file []
  · cases pc with
    | openDir tmp f => rfl
    | syncDir tmp f d => rfl
    | done tmp f r =>
        cases r with
        | ok _ => rfl
        | error e => cases hmoved
    | _ => cases hmoved

/-- A call that returned `Ok` has created a file. -/
theorem done_ok_of_trace (h : Trace target f es pc) (tmp : Option Bytes) (file : Option Nat)
    (hpc : pc = .done tmp file (.ok ())) : ∃ t i, tmp = some t ∧ file = some i := by
  cases h with
  | start =>
      rcases Pc.start_cases target with h | h
      · rw [h] at hpc
        cases hpc
      · rw [h] at hpc
        cases hpc
  | next _ hnext =>
      -- A call becomes done with `Ok` only behind the directory.
      cases hnext with
      | fetchAdd pid time counter =>
          rw [Pc.named] at hpc
          cases hname : Path.fileName target with
          | none => rw [hname] at hpc; cases hpc
          | some name => rw [hname] at hpc; cases hpc
      | createOk t i => exact absurd hpc (Pc.writing_ne_done t i f _ _ _)
      | write t i pos bytes k r => exact absurd hpc (Pc.writing_ne_done t i (k r) _ _ _)
      | openDirErr t i e =>
          cases hpc
          exact ⟨t, i, rfl, rfl⟩
      | syncDir t i d r =>
          cases hpc
          exact ⟨t, i, rfl, rfl⟩
      | _ => cases hpc

/-- A call without a history is at its start. -/
theorem start_of_trace (h : Trace target f es pc) (hes : es = []) : pc = .start target := by
  cases h with
  | start => rfl
  | next _ _ => exact absurd hes (List.append_ne_nil_of_right_ne_nil _ (List.cons_ne_nil _ []))

/-- A program that has returned is that of a call that is done. -/
theorem done_of_prog (pc : Pc δ) (r : Except Error Unit) (h : pc.prog target f = .ret r) :
    ∃ tmp file, pc = .done tmp file r := by
  cases pc with
  | done tmp file result =>
      cases h
      exact ⟨tmp, file, rfl⟩
  | _ => cases h

end

end SkegHull
