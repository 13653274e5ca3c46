import SkegHull.Lib.Program
import SkegHull.Lib.Storage
import SkegHull.Lib.Stream
import SkegHull.Lib.UnixPath

/-!
# System Calls

What the programs of a few processes ask of one machine: who they are, what the
clock says, a ticket from a counter that the threads of a process share, and
operations on files.

A `Choice` settles what a program cannot know beforehand. It sets the clock,
says how much of a write was taken, and makes an operation fail. Every operation
that can fail can be made to fail in any way, except that creating a new file
says that the file exists only when it does. A failed operation changes nothing.

Opening a directory is the only way to get hold of one, and the only thing to do
with it is to synchronise it.

## Main definitions

* `Op`, `Reply`: The operations and what they return.
* `Op.paths`: The names an operation may change.
* `Choice`: What the program cannot know.
* `Host`: What the machine fixes: its directories and its process numbers.
* `Machine`, `Machine.exec`: The state, and an operation on it.

## Theorems

* `exec_createNew`, `exec_rename`, `exec_removeFile`: What an operation on a name
  does, and likewise for the other operations.
* `exec_frame`: What it leaves alone.
-/

namespace Lib

/-- An open file or directory. -/
inductive Handle (δ : Type) where
  | file (file : Nat)
  | dir (dir : δ)

/-- The operations of a program. -/
inductive Op (δ : Type) where
  | processId
  | now
  | fetchAdd
  | createNew (path : Bytes)
  | write (file pos : Nat) (bytes : Bytes)
  | flush (file : Nat)
  | syncAll (handle : Handle δ)
  | rename (src dst : Bytes)
  | openDir (path : Bytes)
  | removeFile (path : Bytes)

/-- What an operation returns. The clock counts nanoseconds since the epoch, and
    has nothing to say before it. -/
abbrev Reply {δ : Type} : Op δ → Type
  | .processId => UInt32
  | .now => Option Nat
  | .fetchAdd => UInt64
  | .createNew _ => Except IoError Nat
  | .write _ _ _ => Except IoError Nat
  | .flush _ => Except IoError Unit
  | .syncAll _ => Except IoError Unit
  | .rename _ _ => Except IoError Unit
  | .openDir _ => Except IoError δ
  | .removeFile _ => Except IoError Unit

/-- The names that an operation may change. -/
def Op.paths {δ : Type} : Op δ → List Bytes
  | .createNew path => [path]
  | .removeFile path => [path]
  | .rename src dst => [src, dst]
  | _ => []

/-- What a program cannot know before it asks. -/
inductive Choice where
  | proceed
  | fault (error : IoError)
  | clock (time : Option Nat)
  | wrote (count : Nat)

/-- What a machine fixes. -/
structure Host (π δ : Type) where
  tree : DirTree δ
  pid : π → UInt32

/-- The state of a machine: its storage, and one counter for each process. -/
structure Machine (π δ : Type) where
  storage : Storage δ Bytes
  counter : π → UInt64

/-- No such file or directory. -/
def notFound : IoError := ⟨.notFound, "No such file or directory (os error 2)"⟩

/-- The file is there already. -/
def alreadyExists : IoError := ⟨.alreadyExists, "File exists (os error 17)"⟩

namespace Machine

variable {π δ : Type} [DecidableEq π] [DecidableEq δ]

/-- An operation that only answers. -/
def answer {β : Type} (m : Machine π δ) (r : β) : Option (β × Machine π δ) := some (r, m)

/-- An operation that changes the storage. -/
def store {β : Type} (m : Machine π δ) (r : β) (s : Storage δ Bytes) :
    Option (β × Machine π δ) := some (r, { m with storage := s })

/-- One operation of a process. -/
def exec (host : Host π δ) (p : π) :
    (o : Op δ) → Machine π δ → Choice → Option (Reply o × Machine π δ)
  | .processId, m, .proceed => m.answer (host.pid p)
  | .now, m, .clock time => m.answer time
  | .fetchAdd, m, .proceed =>
      some (m.counter p, { m with counter := Function.update m.counter p (m.counter p + 1) })
  | .createNew path, m, .proceed =>
      match host.tree.resolveFile path with
      | none => m.answer (.error notFound)
      | some k =>
          match m.storage.lookup k with
          | some _ => m.answer (.error alreadyExists)
          | none => m.store (.ok m.storage.fresh) (m.storage.create k)
  -- Only a file that is there makes the kernel say so.
  | .createNew _, m, .fault e =>
      if e.kind = .alreadyExists then none else m.answer (.error e)
  | .write file pos bytes, m, .wrote count =>
      -- A write takes a prefix of the bytes, which may be all of them.
      if count ≤ bytes.length then
        m.store (.ok count) (m.storage.write file pos (bytes.take count))
      else none
  | .write _ _ _, m, .fault e => m.answer (.error e)
  | .flush _, m, .proceed => m.answer (.ok ())
  | .flush _, m, .fault e => m.answer (.error e)
  | .syncAll (.file file), m, .proceed => m.store (.ok ()) (m.storage.syncFile file)
  | .syncAll (.dir d), m, .proceed => m.store (.ok ()) (m.storage.syncDir d)
  | .syncAll _, m, .fault e => m.answer (.error e)
  | .rename src dst, m, .proceed =>
      match host.tree.resolveFile src, host.tree.resolveFile dst with
      | some a, some b =>
          match m.storage.rename a b with
          | none => m.answer (.error notFound)
          | some s => m.store (.ok ()) s
      | _, _ => m.answer (.error notFound)
  | .rename _ _, m, .fault e => m.answer (.error e)
  | .openDir path, m, .proceed =>
      match host.tree.resolveDir path with
      | none => m.answer (.error notFound)
      | some d => m.answer (.ok d)
  | .openDir _, m, .fault e => m.answer (.error e)
  | .removeFile path, m, .proceed =>
      match host.tree.resolveFile path with
      | none => m.answer (.error notFound)
      | some k =>
          match m.storage.lookup k with
          | none => m.answer (.error notFound)
          | some _ => m.store (.ok ()) (m.storage.unlink k)
  | .removeFile _, m, .fault e => m.answer (.error e)
  -- The choice does not fit the operation.
  | _, _, _ => none

/-! ### What each operation does -/

section

-- Every lemma of this section needs the equations of `exec`, so they are made once.
attribute [local simp] exec

variable (host : Host π δ) (p : π) (m m' : Machine π δ) (c : Choice)

omit [DecidableEq π] [DecidableEq δ] in
theorem answer_eq_some_iff {β : Type} (r r' : β) :
    m.answer r = some (r', m') ↔ r' = r ∧ m' = m := by
  rw [answer, Option.some.injEq, Prod.mk.injEq]
  exact ⟨fun h => ⟨h.1.symm, h.2.symm⟩, fun h => ⟨h.1.symm, h.2.symm⟩⟩

omit [DecidableEq π] [DecidableEq δ] in
theorem store_eq_some_iff {β : Type} (r r' : β) (s : Storage δ Bytes) :
    m.store r s = some (r', m') ↔ r' = r ∧ m' = { m with storage := s } := by
  rw [store, Option.some.injEq, Prod.mk.injEq]
  exact ⟨fun h => ⟨h.1.symm, h.2.symm⟩, fun h => ⟨h.1.symm, h.2.symm⟩⟩

theorem exec_processId (r : UInt32) (h : exec host p .processId m c = some (r, m')) :
    r = host.pid p ∧ m' = m := by
  cases c with
  | proceed => exact (answer_eq_some_iff m m' _ r).mp h
  | fault e => simp only [exec, reduceCtorEq] at h
  | clock time => simp only [exec, reduceCtorEq] at h
  | wrote count => simp only [exec, reduceCtorEq] at h

theorem exec_now (r : Option Nat) (h : exec host p .now m c = some (r, m')) : m' = m := by
  cases c with
  | proceed => simp only [exec, reduceCtorEq] at h
  | fault e => simp only [exec, reduceCtorEq] at h
  | clock time => exact ((answer_eq_some_iff m m' _ r).mp h).2
  | wrote count => simp only [exec, reduceCtorEq] at h

theorem exec_fetchAdd (r : UInt64) (h : exec host p .fetchAdd m c = some (r, m')) :
    r = m.counter p ∧
      m' = { m with counter := Function.update m.counter p (m.counter p + 1) } := by
  cases c with
  | proceed =>
      simp only [exec, Option.some.injEq, Prod.mk.injEq] at h
      exact ⟨h.1.symm, h.2.symm⟩
  | fault e => simp only [exec, reduceCtorEq] at h
  | clock time => simp only [exec, reduceCtorEq] at h
  | wrote count => simp only [exec, reduceCtorEq] at h

theorem exec_createNew (path : Bytes) (r : Except IoError Nat)
    (h : exec host p (.createNew path) m c = some (r, m')) :
    (∃ e, r = .error e ∧ m' = m ∧ (e.kind = .alreadyExists →
      ∃ k file, host.tree.resolveFile path = some k ∧ m.storage.lookup k = some file)) ∨
    ∃ k, host.tree.resolveFile path = some k ∧ m.storage.lookup k = none ∧
      r = .ok m.storage.fresh ∧ m' = { m with storage := m.storage.create k } := by
  cases c with
  | proceed =>
      cases hk : host.tree.resolveFile path with
      | none =>
          simp only [exec, hk, answer_eq_some_iff] at h
          exact Or.inl ⟨notFound, h.1, h.2, fun hkind => IoErrorKind.noConfusion hkind⟩
      | some k =>
          cases hfile : m.storage.lookup k with
          | none =>
              simp only [exec, hk, hfile, store_eq_some_iff] at h
              exact Or.inr ⟨k, rfl, hfile, h⟩
          | some file =>
              simp only [exec, hk, hfile, answer_eq_some_iff] at h
              exact Or.inl ⟨alreadyExists, h.1, h.2, fun _ => ⟨k, file, rfl, hfile⟩⟩
  | fault e =>
      by_cases hkind : e.kind = .alreadyExists
      · simp only [exec, if_pos hkind, reduceCtorEq] at h
      · simp only [exec, if_neg hkind, answer_eq_some_iff] at h
        exact Or.inl ⟨e, h.1, h.2, fun hk => absurd hk hkind⟩
  | clock time => simp only [exec, reduceCtorEq] at h
  | wrote count => simp only [exec, reduceCtorEq] at h

theorem exec_write (file pos : Nat) (bytes : Bytes) (r : Except IoError Nat)
    (h : exec host p (.write file pos bytes) m c = some (r, m')) :
    (∃ e, r = .error e ∧ m' = m) ∨
    ∃ count ≤ bytes.length, r = .ok count ∧
      m' = { m with storage := m.storage.write file pos (bytes.take count) } := by
  cases c with
  | proceed => simp only [exec, reduceCtorEq] at h
  | fault e =>
      simp only [exec, answer_eq_some_iff] at h
      exact Or.inl ⟨e, h⟩
  | clock time => simp only [exec, reduceCtorEq] at h
  | wrote count =>
      by_cases hcount : count ≤ bytes.length
      · simp only [exec, if_pos hcount, store_eq_some_iff] at h
        exact Or.inr ⟨count, hcount, h⟩
      · simp only [exec, if_neg hcount, reduceCtorEq] at h

theorem exec_flush (file : Nat) (r : Except IoError Unit)
    (h : exec host p (.flush file) m c = some (r, m')) : m' = m := by
  cases c with
  | proceed => exact ((answer_eq_some_iff m m' _ r).mp h).2
  | fault e => exact ((answer_eq_some_iff m m' _ r).mp h).2
  | clock time => simp only [exec, reduceCtorEq] at h
  | wrote count => simp only [exec, reduceCtorEq] at h

theorem exec_syncFile (file : Nat) (r : Except IoError Unit)
    (h : exec host p (.syncAll (.file file)) m c = some (r, m')) :
    (∃ e, r = .error e ∧ m' = m) ∨
    r = .ok () ∧ m' = { m with storage := m.storage.syncFile file } := by
  cases c with
  | proceed => exact Or.inr ((store_eq_some_iff m m' _ r _).mp h)
  | fault e => exact Or.inl ⟨e, (answer_eq_some_iff m m' _ r).mp h⟩
  | clock time => simp only [exec, reduceCtorEq] at h
  | wrote count => simp only [exec, reduceCtorEq] at h

theorem exec_syncDir (d : δ) (r : Except IoError Unit)
    (h : exec host p (.syncAll (.dir d)) m c = some (r, m')) :
    (∃ e, r = .error e ∧ m' = m) ∨
    r = .ok () ∧ m' = { m with storage := m.storage.syncDir d } := by
  cases c with
  | proceed => exact Or.inr ((store_eq_some_iff m m' _ r _).mp h)
  | fault e => exact Or.inl ⟨e, (answer_eq_some_iff m m' _ r).mp h⟩
  | clock time => simp only [exec, reduceCtorEq] at h
  | wrote count => simp only [exec, reduceCtorEq] at h

theorem exec_rename (src dst : Bytes) (r : Except IoError Unit)
    (h : exec host p (.rename src dst) m c = some (r, m')) :
    (∃ e, r = .error e ∧ m' = m) ∨
    ∃ a b file, host.tree.resolveFile src = some a ∧ host.tree.resolveFile dst = some b ∧
      ∃ hfile : m.storage.lookup a = some file, r = .ok () ∧
        m' = { m with
          storage := m.storage.move a b file (m.storage.lookup_lt a file hfile) } := by
  cases c with
  | proceed =>
      cases ha : host.tree.resolveFile src with
      | none =>
          simp only [exec, ha, answer_eq_some_iff] at h
          exact Or.inl ⟨notFound, h⟩
      | some a =>
          cases hb : host.tree.resolveFile dst with
          | none =>
              simp only [exec, ha, hb, answer_eq_some_iff] at h
              exact Or.inl ⟨notFound, h⟩
          | some b =>
              cases hfile : m.storage.lookup a with
              | none =>
                  simp only [exec, ha, hb, m.storage.rename_of_lookup_none a b hfile,
                    answer_eq_some_iff] at h
                  exact Or.inl ⟨notFound, h⟩
              | some file =>
                  simp only [exec, ha, hb, m.storage.rename_of_lookup a b file hfile,
                    store_eq_some_iff] at h
                  exact Or.inr ⟨a, b, file, rfl, rfl, hfile, h⟩
  | fault e => exact Or.inl ⟨e, (answer_eq_some_iff m m' _ r).mp h⟩
  | clock time => simp only [exec, reduceCtorEq] at h
  | wrote count => simp only [exec, reduceCtorEq] at h

theorem exec_openDir (path : Bytes) (r : Except IoError δ)
    (h : exec host p (.openDir path) m c = some (r, m')) :
    m' = m ∧ ∀ d, r = .ok d → host.tree.resolveDir path = some d := by
  cases c with
  | proceed =>
      cases hd : host.tree.resolveDir path with
      | none =>
          simp only [exec, hd, answer_eq_some_iff] at h
          exact ⟨h.2, fun d hr => by rw [h.1] at hr; cases hr⟩
      | some d =>
          simp only [exec, hd, answer_eq_some_iff] at h
          exact ⟨h.2, fun d' hr => by rw [h.1, Except.ok.injEq] at hr; rw [hr]⟩
  | fault e =>
      simp only [exec, answer_eq_some_iff] at h
      exact ⟨h.2, fun d hr => by rw [h.1] at hr; cases hr⟩
  | clock time => simp only [exec, reduceCtorEq] at h
  | wrote count => simp only [exec, reduceCtorEq] at h

theorem exec_removeFile (path : Bytes) (r : Except IoError Unit)
    (h : exec host p (.removeFile path) m c = some (r, m')) :
    (∃ e, r = .error e ∧ m' = m) ∨
    ∃ k, host.tree.resolveFile path = some k ∧ r = .ok () ∧
      m' = { m with storage := m.storage.unlink k } := by
  cases c with
  | proceed =>
      cases hk : host.tree.resolveFile path with
      | none =>
          simp only [exec, hk, answer_eq_some_iff] at h
          exact Or.inl ⟨notFound, h⟩
      | some k =>
          cases hfile : m.storage.lookup k with
          | none =>
              simp only [exec, hk, hfile, answer_eq_some_iff] at h
              exact Or.inl ⟨notFound, h⟩
          | some file =>
              simp only [exec, hk, hfile, store_eq_some_iff] at h
              exact Or.inr ⟨k, rfl, h⟩
  | fault e => exact Or.inl ⟨e, (answer_eq_some_iff m m' _ r).mp h⟩
  | clock time => simp only [exec, reduceCtorEq] at h
  | wrote count => simp only [exec, reduceCtorEq] at h

/-- An operation leaves the other names alone, and what a crash can make of them. -/
theorem exec_frame (o : Op δ) (r : Reply o) (h : exec host p o m c = some (r, m'))
    (k : δ × Bytes) (hk : ∀ path ∈ o.paths, host.tree.resolveFile path ≠ some k) :
    m'.storage.lookup k = m.storage.lookup k ∧
      ∀ P, m.storage.Only k P → m'.storage.Only k P := by
  cases o with
  | processId =>
      rw [(exec_processId host p m m' c r h).2]
      exact ⟨rfl, fun _ hP => hP⟩
  | now =>
      rw [exec_now host p m m' c r h]
      exact ⟨rfl, fun _ hP => hP⟩
  | fetchAdd =>
      rw [(exec_fetchAdd host p m m' c r h).2]
      exact ⟨rfl, fun _ hP => hP⟩
  | createNew path =>
      rcases exec_createNew host p m m' c path r h with ⟨_, _, rfl, _⟩ | ⟨k', hk', _, _, rfl⟩
      · exact ⟨rfl, fun _ hP => hP⟩
      -- The name that changes is the one the path leads to.
      · have hne : k ≠ k' := fun heq => hk path List.mem_cons_self (heq ▸ hk')
        exact ⟨m.storage.lookup_create_of_ne k' k hne, fun _ hP => hP.create k' hne⟩
  | write file pos bytes =>
      rcases exec_write host p m m' c file pos bytes r h with ⟨_, _, rfl⟩ | ⟨_, _, _, rfl⟩
      · exact ⟨rfl, fun _ hP => hP⟩
      · exact ⟨rfl, fun _ hP => hP⟩
  | flush file =>
      rw [exec_flush host p m m' c file r h]
      exact ⟨rfl, fun _ hP => hP⟩
  | syncAll handle =>
      cases handle with
      | file file =>
          rcases exec_syncFile host p m m' c file r h with ⟨_, _, rfl⟩ | ⟨_, rfl⟩
          · exact ⟨rfl, fun _ hP => hP⟩
          · exact ⟨rfl, fun _ hP => hP⟩
      | dir d =>
          rcases exec_syncDir host p m m' c d r h with ⟨_, _, rfl⟩ | ⟨_, rfl⟩
          · exact ⟨rfl, fun _ hP => hP⟩
          · exact ⟨m.storage.lookup_syncDir d k, fun _ hP => hP.syncDir d⟩
  | rename src dst =>
      rcases exec_rename host p m m' c src dst r h with
        ⟨_, _, rfl⟩ | ⟨a, b, file, ha, hb, hfile, _, rfl⟩
      · exact ⟨rfl, fun _ hP => hP⟩
      · have hlt := m.storage.lookup_lt a file hfile
        -- A rename changes two names, and neither is `k`.
        have hsrc : k ≠ a := fun heq => hk src List.mem_cons_self (heq ▸ ha)
        have hdst : k ≠ b := fun heq =>
          hk dst (List.mem_cons_of_mem src List.mem_cons_self) (heq ▸ hb)
        exact ⟨m.storage.lookup_move_of_ne a b k file hlt hsrc hdst,
          fun _ hP => hP.move a b file hlt hsrc fun heq => absurd heq hdst⟩
  | openDir path =>
      rw [(exec_openDir host p m m' c path r h).1]
      exact ⟨rfl, fun _ hP => hP⟩
  | removeFile path =>
      rcases exec_removeFile host p m m' c path r h with ⟨_, _, rfl⟩ | ⟨k', hk', _, rfl⟩
      · exact ⟨rfl, fun _ hP => hP⟩
      · have hne : k ≠ k' := fun heq => hk path List.mem_cons_self (heq ▸ hk')
        exact ⟨m.storage.lookup_unlink_of_ne k' k hne, fun _ hP => hP.unlink k' hne⟩

/-- Only taking a ticket changes a counter. -/
theorem counter_of_exec (o : Op δ) (r : Reply o) (h : exec host p o m c = some (r, m'))
    (ho : o ≠ .fetchAdd) : m'.counter = m.counter := by
  cases o with
  | processId => rw [(exec_processId host p m m' c r h).2]
  | now => rw [exec_now host p m m' c r h]
  | fetchAdd => exact absurd rfl ho
  | createNew path =>
      rcases exec_createNew host p m m' c path r h with ⟨_, _, rfl, _⟩ | ⟨_, _, _, _, rfl⟩ <;> rfl
  | write file pos bytes =>
      rcases exec_write host p m m' c file pos bytes r h with ⟨_, _, rfl⟩ | ⟨_, _, _, rfl⟩ <;> rfl
  | flush file => rw [exec_flush host p m m' c file r h]
  | syncAll handle =>
      cases handle with
      | file file =>
          rcases exec_syncFile host p m m' c file r h with ⟨_, _, rfl⟩ | ⟨_, rfl⟩ <;> rfl
      | dir d => rcases exec_syncDir host p m m' c d r h with ⟨_, _, rfl⟩ | ⟨_, rfl⟩ <;> rfl
  | rename src dst =>
      rcases exec_rename host p m m' c src dst r h with
        ⟨_, _, rfl⟩ | ⟨_, _, _, _, _, _, _, rfl⟩ <;> rfl
  | openDir path => rw [(exec_openDir host p m m' c path r h).1]
  | removeFile path =>
      rcases exec_removeFile host p m m' c path r h with ⟨_, _, rfl⟩ | ⟨_, _, _, rfl⟩ <;> rfl

end

end Machine

end Lib
