import Mathlib.Data.List.DropRight
import SkegHull.Lib.Bytes

/-!
# Unix Paths

Two readings of one byte string. A path library cuts it into components, skips
the empty ones and the `.` ones, and gives out a parent and a file name. The
kernel walks the same bytes from a directory it starts in. The two disagree on
the empty path, which the library hands out as the parent of a bare file name
and which the kernel refuses to open.

`DirTree.resolveFile_parent` says what the parent of a path is good for: it is the
directory the kernel puts the file in, unless it is empty, and then that
directory is the current one.

## Main definitions

* `Path.parent`, `Path.fileName`, `Path.join`: The path library.
* `DirTree`: The directories a kernel knows.
* `DirTree.resolveDir`, `DirTree.resolveFile`: What the kernel makes of a path.
* `DirTree.dirOf`: The directory a parent path stands for.

## Theorems

* `DirTree.resolveFile_parent`: Where a path leads, from its parent and file name.
* `DirTree.resolveFile_join`: Where a joined path leads.
* `Path.isName_of_fileName`, `Path.lastPiece_join`: What a file name is, and that
  a joined path ends in it.
-/

namespace Lib

/-- `/`. -/
abbrev slash : UInt8 := 0x2f

/-- `.`. -/
abbrev dot : UInt8 := 0x2e

/-- The component that names the directory it stands in. -/
abbrev curDir : Bytes := [dot]

/-- The component that names the directory above. -/
abbrev parentDir : Bytes := [dot, dot]

namespace Path

/-- The pieces between the separators. -/
def pieces (p : Bytes) : List Bytes := p.splitOn slash

/-- The piece that a path ends in. -/
def lastPiece (p : Bytes) : Option Bytes := (pieces p).getLast?

/-- The pieces that both readings pass over. -/
def skipped (c : Bytes) : Bool := c = [] || c = curDir

/-- The piece names a file, and no directory relative to where it stands. -/
def IsName (c : Bytes) : Prop := c ≠ [] ∧ c ≠ curDir ∧ c ≠ parentDir ∧ slash ∉ c

instance (c : Bytes) : Decidable (IsName c) :=
  inferInstanceAs (Decidable (c ≠ [] ∧ c ≠ curDir ∧ c ≠ parentDir ∧ slash ∉ c))

/-- The path starts at the root. -/
def hasRoot (p : Bytes) : Bool := p.head? = some slash

/-- A leading `.` is a component of its own. -/
def includeCurDir : Bytes → Bool
  | [a] => a = dot
  | a :: b :: _ => a = dot && b = slash
  | [] => false

/-- How many bytes stand before the pieces. -/
def lenBeforeBody (p : Bytes) : Nat := if hasRoot p || includeCurDir p then 1 else 0

/-- What a component is. -/
inductive Component where
  | rootDir
  | curDir
  | parentDir
  | normal (name : Bytes)
  deriving DecidableEq

/-- The last component, and the path that remains without it. -/
def nextBack (p : Bytes) : Option (Component × Bytes) :=
  let k := lenBeforeBody p
  -- Empty pieces and lone dots at the end are passed over.
  let body := (pieces (p.drop k)).rdropWhile skipped
  match body.getLast? with
  | none =>
      if hasRoot p then some (.rootDir, [])
      else if includeCurDir p then some (.curDir, [])
      else none
  | some c =>
      -- They are passed over in front of the last component, too.
      let rest := p.take k ++ List.intercalate [slash] (body.dropLast.rdropWhile skipped)
      some (if c = parentDir then .parentDir else .normal c, rest)

/-- The path without its last component. -/
def parent (p : Bytes) : Option Bytes :=
  match nextBack p with
  | none => none
  | some (.rootDir, _) => none
  | some (_, rest) => some rest

/-- The last component, if it is a name. -/
def fileName (p : Bytes) : Option Bytes :=
  match nextBack p with
  | some (.normal name, _) => some name
  | _ => none

/-- A name appended to a path. -/
def join (dir name : Bytes) : Bytes :=
  if hasRoot name then name
  else if dir = [] ∨ dir.getLast? = some slash then dir ++ name
  else dir ++ slash :: name

end Path

/-- The directories a kernel knows: the root, the one it is in, and where a piece
    leads from each. -/
structure DirTree (δ : Type) where
  root : δ
  cwd : δ
  enter : δ → Bytes → Option δ

namespace DirTree

variable {δ : Type} (tree : DirTree δ)

/-- Where a walk along a path starts. -/
def start (p : Bytes) : δ := if Path.hasRoot p then tree.root else tree.cwd

/-- One piece of a walk. -/
def walk (d : δ) (c : Bytes) : Option δ := if Path.skipped c then some d else tree.enter d c

/-- A walk along pieces. -/
def walkAll (d : δ) (cs : List Bytes) : Option δ := cs.foldlM tree.walk d

/-- The directory a path leads to. The empty path leads nowhere. -/
def resolveDir (p : Bytes) : Option δ :=
  if p = [] then none else tree.walkAll (tree.start p) (Path.pieces p)

/-- The directory a path leads into, and the name it ends in. A path that ends in
    a separator or in a directory's own name is no path to a file. -/
def resolveFile (p : Bytes) : Option (δ × Bytes) :=
  match Path.lastPiece p with
  | none => none
  | some name =>
      if Path.skipped name ∨ name = parentDir then none
      else (tree.walkAll (tree.start p) (Path.pieces p).dropLast).map (·, name)

/-- The directory that a parent path stands for: the current one when it is
    empty. -/
def dirOf (dir : Bytes) : Option δ := if dir = [] then some tree.cwd else tree.resolveDir dir

theorem walkAll_append (d : δ) (xs ys : List Bytes) :
    tree.walkAll d (xs ++ ys) = (tree.walkAll d xs).bind (tree.walkAll · ys) := by
  simp only [walkAll, List.foldlM_append]
  rfl

theorem walkAll_skipped (d : δ) (xs : List Bytes) (h : ∀ c ∈ xs, Path.skipped c = true) :
    tree.walkAll d xs = some d := by
  induction xs with
  | nil => rfl
  | cons c cs ih =>
      have hc : tree.walk d c = some d := by rw [walk, if_pos (h c List.mem_cons_self)]
      have hcs := ih fun c' hc' => h c' (List.mem_cons_of_mem c hc')
      rw [walkAll, List.foldlM_cons, hc]
      exact hcs

theorem walkAll_cons_skipped (d : δ) (c : Bytes) (xs : List Bytes) (h : Path.skipped c = true) :
    tree.walkAll d (c :: xs) = tree.walkAll d xs := by
  rw [walkAll, List.foldlM_cons, walk, if_pos h]
  rfl

/-- The pieces skipped at the end of a walk do not matter. -/
theorem walkAll_append_skipped (d : δ) (xs ys : List Bytes)
    (h : ∀ c ∈ ys, Path.skipped c = true) : tree.walkAll d (xs ++ ys) = tree.walkAll d xs := by
  rw [walkAll_append]
  cases tree.walkAll d xs with
  | none => rfl
  | some e => exact tree.walkAll_skipped e ys h

theorem walkAll_rdropWhile (d : δ) (xs : List Bytes) :
    tree.walkAll d (xs.rdropWhile Path.skipped) = tree.walkAll d xs := by
  -- The pieces that were dropped are all skipped ones.
  have hsplit : xs.rdropWhile Path.skipped ++ xs.rtakeWhile Path.skipped = xs :=
    List.rdropWhile_append_rtakeWhile
  rw [← tree.walkAll_append_skipped d (xs.rdropWhile Path.skipped)
    (xs.rtakeWhile Path.skipped) fun c hc => List.mem_rtakeWhile_imp hc, hsplit]

end DirTree

namespace Path

theorem skipped_eq_false_iff (c : Bytes) : skipped c = false ↔ c ≠ [] ∧ c ≠ curDir := by
  simp only [skipped, Bool.or_eq_false_iff, decide_eq_false_iff_not]

theorem IsName.not_skipped {c : Bytes} (h : IsName c) : skipped c = false :=
  (skipped_eq_false_iff c).mpr ⟨h.1, h.2.1⟩

theorem pieces_slash (p : Bytes) : pieces (slash :: p) = [] :: pieces p :=
  List.splitOn_append_cons_self [] p

theorem pieces_append_slash (p q : Bytes) : pieces (p ++ slash :: q) = pieces p ++ pieces q :=
  List.splitOn_append_cons_self p q

theorem pieces_of_not_mem (c : Bytes) (h : slash ∉ c) : pieces c = [c] :=
  List.splitOn_eq_singleton h

theorem pieces_ne_nil (p : Bytes) : pieces p ≠ [] := List.splitOn_ne_nil slash p

theorem pieces_cons (a : UInt8) (p : Bytes) (ha : a ≠ slash) :
    pieces (a :: p) = (pieces p).modifyHead (a :: ·) := by
  rw [pieces, List.splitOn_cons_eq_if_modifyHead, if_neg (by simpa only [beq_iff_eq] using ha)]
  rfl

theorem not_mem_pieces (p c : Bytes) (h : c ∈ pieces p) : slash ∉ c := by
  induction p generalizing c with
  | nil =>
      rw [show pieces [] = [[]] from rfl, List.mem_singleton] at h
      rw [h]
      exact List.not_mem_nil
  | cons a p ih =>
      -- A separator starts a new piece, and any other byte goes on with the first one.
      by_cases ha : a = slash
      · rw [ha, pieces_slash, List.mem_cons] at h
        rcases h with rfl | h
        · exact List.not_mem_nil
        · exact ih c h
      · rw [pieces_cons a p ha] at h
        rcases List.exists_cons_of_ne_nil (pieces_ne_nil p) with ⟨b, bs, hb⟩
        rw [hb, List.modifyHead_cons, List.mem_cons] at h
        rcases h with rfl | h
        · rw [List.mem_cons, not_or]
          exact ⟨Ne.symm ha, ih b (hb ▸ List.mem_cons_self)⟩
        · exact ih c (hb ▸ List.mem_cons_of_mem b h)

theorem pieces_intercalate (cs : List Bytes) (hne : cs ≠ []) (h : ∀ c ∈ cs, slash ∉ c) :
    pieces (List.intercalate [slash] cs) = cs :=
  List.splitOn_intercalate slash h hne

/-- Only a path from the root, or the empty one, starts with an empty piece. -/
theorem head_pieces_ne_nil (p c : Bytes) (cs : List Bytes) (hp : p ≠ [])
    (hroot : hasRoot p = false) (h : pieces p = c :: cs) : c ≠ [] := by
  cases p with
  | nil => exact absurd rfl hp
  | cons a p =>
      -- The first byte is no separator, so it is in the first piece.
      have ha : a ≠ slash := by
        intro ha
        rw [ha] at hroot
        exact absurd hroot Bool.true_eq_false.mp
      rcases List.exists_cons_of_ne_nil (pieces_ne_nil p) with ⟨b, bs, hb⟩
      rw [pieces_cons a p ha, hb, List.modifyHead_cons, List.cons.injEq] at h
      rw [← h.1]
      exact List.cons_ne_nil a b

theorem hasRoot_append (p q : Bytes) (hp : p ≠ []) : hasRoot (p ++ q) = hasRoot p := by
  cases p with
  | nil => exact absurd rfl hp
  | cons a p => rfl

theorem hasRoot_of_not_mem (p : Bytes) (h : slash ∉ p) : hasRoot p = false := by
  cases p with
  | nil => rfl
  | cons a p =>
      refine decide_eq_false fun ha => h ?_
      rw [List.head?_cons, Option.some.injEq] at ha
      rw [ha]
      exact List.mem_cons_self

/-- How a path starts: at the root, with a leading `.`, or with its first piece. -/
theorem start_cases (p : Bytes) :
    (∃ q, p = slash :: q) ∨ (∃ q, p = dot :: slash :: q) ∨ p = curDir ∨
      (hasRoot p = false ∧ includeCurDir p = false) := by
  cases p with
  | nil => exact Or.inr (Or.inr (Or.inr ⟨rfl, rfl⟩))
  | cons a p =>
      by_cases ha : a = slash
      · exact Or.inl ⟨p, by rw [ha]⟩
      have hroot : hasRoot (a :: p) = false :=
        decide_eq_false fun h => ha (Option.some.inj h)
      by_cases hd : a = dot
      · cases p with
        | nil => exact Or.inr (Or.inr (Or.inl (by rw [hd])))
        | cons b p =>
            by_cases hb : b = slash
            · exact Or.inr (Or.inl ⟨p, by rw [hd, hb]⟩)
            · refine Or.inr (Or.inr (Or.inr ⟨hroot, ?_⟩))
              simp only [includeCurDir, hb, decide_false, Bool.and_false]
      · refine Or.inr (Or.inr (Or.inr ⟨hroot, ?_⟩))
        cases p with
        | nil => exact decide_eq_false hd
        | cons b p => simp only [includeCurDir, hd, decide_false, Bool.false_and]

/-- The last component of a path whose last piece is a name. -/
theorem nextBack_of_name (p name : Bytes) (init : List Bytes)
    (hbody : pieces (p.drop (lenBeforeBody p)) = init ++ [name]) (hname : IsName name) :
    nextBack p = some (.normal name,
      p.take (lenBeforeBody p) ++ List.intercalate [slash] (init.rdropWhile skipped)) := by
  -- A name is not passed over, so it stays the last component.
  have hkeep : (init ++ [name]).rdropWhile skipped = init ++ [name] :=
    List.rdropWhile_concat_neg skipped init name (by
      rw [hname.not_skipped]
      exact Bool.false_ne_true)
  simp only [nextBack, hbody, hkeep, List.getLast?_concat, List.dropLast_concat,
    if_neg hname.2.2.1]

/-- A joined path ends in the name. -/
theorem lastPiece_join (dir name : Bytes) (h : IsName name) :
    lastPiece (join dir name) = some name := by
  have hpieces : pieces name = [name] := pieces_of_not_mem name h.2.2.2
  rw [lastPiece, join, hasRoot_of_not_mem name h.2.2.2, if_neg Bool.false_ne_true]
  -- No separator is added behind an empty path or behind a separator.
  by_cases hdir : dir = [] ∨ dir.getLast? = some slash
  · rw [if_pos hdir]
    rcases hdir with rfl | hend
    · rw [List.nil_append, hpieces, List.getLast?_singleton]
    · rcases List.getLast?_eq_some_iff.mp hend with ⟨ys, rfl⟩
      rw [List.append_assoc, List.singleton_append, pieces_append_slash, hpieces,
        List.getLast?_concat]
  · rw [if_neg hdir, pieces_append_slash, hpieces, List.getLast?_concat]

/-- A path without a parent has no file name either. -/
theorem fileName_of_parent_eq_none (p : Bytes) (h : parent p = none) : fileName p = none := by
  unfold parent at h
  unfold fileName
  -- Only the root has no parent, and it has no name.
  split at h
  · rename_i hnone
    rw [hnone]
  · rename_i hroot
    rw [hroot]
  · cases h

/-- What the path library gives out as a file name is one. -/
theorem isName_of_fileName (p name : Bytes) (h : fileName p = some name) : IsName name := by
  have hpieces := not_mem_pieces (p.drop (lenBeforeBody p))
  simp only [fileName, nextBack] at h
  generalize pieces (p.drop (lenBeforeBody p)) = body at h hpieces
  cases hlast : (body.rdropWhile skipped).getLast? with
  | none =>
      rw [hlast] at h
      by_cases hr : hasRoot p
      · simp only [hr, if_true, reduceCtorEq] at h
      · by_cases hc : includeCurDir p
        · simp only [hr, hc, if_true, Bool.false_eq_true, if_false, reduceCtorEq] at h
        · simp only [hr, hc, Bool.false_eq_true, if_false, reduceCtorEq] at h
  | some c =>
      rw [hlast] at h
      by_cases hp : c = parentDir
      · simp only [if_pos hp, reduceCtorEq] at h
      simp only [if_neg hp, Option.some.injEq] at h
      rw [← h]
      -- A component that was not dropped is neither empty nor a lone dot.
      rcases List.getLast?_eq_some_iff.mp hlast with ⟨cs, hcs⟩
      have hne : body.rdropWhile skipped ≠ [] := by
        rw [hcs]
        exact List.append_ne_nil_of_right_ne_nil cs (List.cons_ne_nil c [])
      have hkeep := List.rdropWhile_last_not skipped body hne
      rw [List.getLast_congr hne (by simp) hcs, List.getLast_append_singleton,
        Bool.not_eq_true, skipped_eq_false_iff] at hkeep
      have hmem : c ∈ body := (List.rdropWhile_prefix skipped body).subset
        (by rw [hcs]; exact List.mem_append_right cs List.mem_cons_self)
      exact ⟨hkeep.1, hkeep.2, hp, hpieces c hmem⟩

end Path

namespace DirTree

theorem uncons_append_singleton {α : Type} {a x : α} {xs init : List α}
    (h : a :: xs = init ++ [x]) (hxs : xs ≠ []) :
    ∃ body, init = a :: body ∧ xs = body ++ [x] := by
  rcases List.cons_eq_append_iff.mp h with ⟨_, hx⟩ | ⟨body, hinit, hx⟩
  · exact absurd (List.cons.inj hx).2.symm hxs
  · exact ⟨body, hinit, hx⟩

theorem head?_eq_of_isInit {α : Type} {c : α} {l l' : List α} (h : l <+: l')
    (hc : l.head? = some c) : l'.head? = some c := by
  rcases h with ⟨t, rfl⟩
  cases l with
  | nil => cases hc
  | cons a l => exact hc

variable {δ : Type} (tree : DirTree δ)

/-- The walk along a rejoined path is the walk along its pieces. -/
theorem walkAll_pieces_intercalate (d : δ) (cs : List Bytes) (h : ∀ c ∈ cs, slash ∉ c) :
    tree.walkAll d (Path.pieces (List.intercalate [slash] cs)) = tree.walkAll d cs := by
  by_cases hcs : cs = []
  · rw [hcs]
    exact tree.walkAll_cons_skipped d [] [] rfl
  · rw [Path.pieces_intercalate cs hcs h]

/-- A path to a file ends in its name. -/
theorem resolveFile_eq_some (p name : Bytes) (d : δ)
    (h : tree.resolveFile p = some (d, name)) :
    ∃ init, Path.pieces p = init ++ [name] ∧ Path.IsName name ∧
      tree.walkAll (tree.start p) init = some d := by
  rcases List.eq_nil_or_concat' (Path.pieces p) with hnil | ⟨init, last, hsplit⟩
  · exact absurd hnil (Path.pieces_ne_nil p)
  rw [resolveFile, Path.lastPiece, hsplit, List.getLast?_concat, List.dropLast_concat] at h
  -- The last piece has to name a file.
  by_cases hbad : Path.skipped last ∨ last = parentDir
  · simp only [if_pos hbad, reduceCtorEq] at h
  simp only [if_neg hbad] at h
  rcases Option.map_eq_some_iff.mp h with ⟨e, hwalk, hpair⟩
  rw [Prod.mk.injEq] at hpair
  rw [not_or, Bool.not_eq_true, Path.skipped_eq_false_iff] at hbad
  rw [← hpair.1, ← hpair.2]
  refine ⟨init, hsplit, ⟨hbad.1.1, hbad.1.2, hbad.2, ?_⟩, hwalk⟩
  exact Path.not_mem_pieces p last
    (by rw [hsplit]; exact List.mem_append_right _ List.mem_cons_self)

/-- The directory of a path that starts at the root. -/
theorem dirOf_slash (cs : List Bytes) (h : ∀ c ∈ cs, slash ∉ c) :
    tree.dirOf (slash :: List.intercalate [slash] cs) = tree.walkAll tree.root cs := by
  have hstart : tree.start (slash :: List.intercalate [slash] cs) = tree.root := rfl
  rw [dirOf, if_neg (List.cons_ne_nil _ _), resolveDir, if_neg (List.cons_ne_nil _ _), hstart,
    Path.pieces_slash, walkAll_cons_skipped _ _ _ _ rfl, walkAll_pieces_intercalate _ _ _ h]

/-- The directory of a path with a leading `.`. -/
theorem dirOf_dot (cs : List Bytes) (h : ∀ c ∈ cs, slash ∉ c) (hhead : ∀ c ∈ cs.head?, c = []) :
    tree.dirOf (dot :: List.intercalate [slash] cs) = tree.walkAll tree.cwd cs := by
  have hstart : tree.start (dot :: List.intercalate [slash] cs) = tree.cwd := rfl
  rw [dirOf, if_neg (List.cons_ne_nil _ _), resolveDir, if_neg (List.cons_ne_nil _ _), hstart]
  -- The dot is a skipped piece, and so is the empty piece behind it.
  cases cs with
  | nil => exact tree.walkAll_cons_skipped tree.cwd curDir [] rfl
  | cons c cs =>
      rw [hhead c rfl, walkAll_cons_skipped _ _ _ _ rfl]
      cases cs with
      | nil => exact tree.walkAll_cons_skipped tree.cwd curDir [] rfl
      | cons b cs =>
          rw [List.intercalate_cons_cons, List.nil_append,
            show dot :: ([slash] ++ List.intercalate [slash] (b :: cs))
              = curDir ++ slash :: List.intercalate [slash] (b :: cs) from rfl,
            Path.pieces_append_slash, Path.pieces_of_not_mem curDir (by decide),
            List.singleton_append, walkAll_cons_skipped _ _ _ _ rfl]
          exact tree.walkAll_pieces_intercalate _ _
            fun x hx => h x (List.mem_cons_of_mem c hx)

/-- The directory of a path that starts with its first piece. -/
theorem dirOf_plain (cs : List Bytes) (h : ∀ c ∈ cs, slash ∉ c) (hhead : ∀ c ∈ cs.head?, c ≠ []) :
    tree.dirOf (List.intercalate [slash] cs) = tree.walkAll tree.cwd cs := by
  cases cs with
  | nil => rfl
  | cons c cs =>
      have hc : c ≠ [] := hhead c rfl
      -- The path starts with its first piece, which is not empty, so it is not rooted.
      have hsplit : ∃ x, List.intercalate [slash] (c :: cs) = c ++ x := by
        cases cs with
        | nil => exact ⟨[], by rw [List.intercalate_singleton, List.append_nil]⟩
        | cons b cs => exact ⟨_, by rw [List.intercalate_cons_cons, List.append_assoc]⟩
      rcases hsplit with ⟨x, hx⟩
      have hne : List.intercalate [slash] (c :: cs) ≠ [] := by
        rw [hx]
        exact List.append_ne_nil_of_left_ne_nil hc x
      have hstart : tree.start (List.intercalate [slash] (c :: cs)) = tree.cwd := by
        rw [start, hx, Path.hasRoot_append c x hc,
          Path.hasRoot_of_not_mem c (h c List.mem_cons_self)]
        rfl
      rw [dirOf, if_neg hne, resolveDir, if_neg hne, hstart, walkAll_pieces_intercalate _ _ _ h]

/-- A path to a file leads into the directory its parent stands for. -/
theorem resolveFile_parent (p name : Bytes) (d : δ)
    (h : tree.resolveFile p = some (d, name)) :
    ∃ dir, Path.parent p = some dir ∧ Path.fileName p = some name ∧ tree.dirOf dir = some d := by
  rcases tree.resolveFile_eq_some p name d h with ⟨init, hsplit, hname, hwalk⟩
  -- The pieces behind the start of the path, and the directory that they leave over.
  have hparent : ∀ body, Path.pieces (p.drop (Path.lenBeforeBody p)) = body ++ [name] →
      tree.dirOf (p.take (Path.lenBeforeBody p)
        ++ List.intercalate [slash] (body.rdropWhile Path.skipped)) = some d →
      ∃ dir, Path.parent p = some dir ∧ Path.fileName p = some name ∧
        tree.dirOf dir = some d := by
    intro body hbody hdir
    have hback := Path.nextBack_of_name p name body hbody hname
    exact ⟨_, by rw [Path.parent, hback], by rw [Path.fileName, hback], hdir⟩
  have hpieces : ∀ c ∈ init, slash ∉ c := fun c hc =>
    Path.not_mem_pieces p c (by rw [hsplit]; exact List.mem_append_left _ hc)
  have hkept : ∀ cs : List Bytes, ∀ c ∈ cs.rdropWhile Path.skipped, c ∈ cs := fun cs c hc =>
    (List.rdropWhile_prefix Path.skipped cs).subset hc
  -- The four ways a path can start differ in what stands before the pieces.
  rcases Path.start_cases p with ⟨q, rfl⟩ | ⟨q, rfl⟩ | rfl | ⟨hroot, hcur⟩
  -- From the root: the first piece is the empty one in front of the separator.
  · rw [Path.pieces_slash] at hsplit
    rcases uncons_append_singleton hsplit (Path.pieces_ne_nil q) with ⟨body, rfl, hbody⟩
    refine hparent body hbody ?_
    have hdir := tree.dirOf_slash (body.rdropWhile Path.skipped) fun c hc =>
      hpieces c (List.mem_cons_of_mem [] (hkept body c hc))
    rw [walkAll_rdropWhile, ← tree.walkAll_cons_skipped tree.root [] body rfl] at hdir
    exact hdir.trans hwalk
  -- With a leading dot: the dot is a component, and the parent keeps it.
  · rw [show dot :: slash :: q = curDir ++ slash :: q from rfl, Path.pieces_append_slash,
      Path.pieces_of_not_mem curDir (by decide), List.singleton_append] at hsplit
    rcases uncons_append_singleton hsplit (Path.pieces_ne_nil q) with ⟨body, rfl, hbody⟩
    refine hparent ([] :: body) ?_ ?_
    · rw [show (dot :: slash :: q).drop (Path.lenBeforeBody (dot :: slash :: q)) = slash :: q
        from rfl, Path.pieces_slash, hbody, List.cons_append]
    have hdir := tree.dirOf_dot (([] :: body).rdropWhile Path.skipped)
      (fun c hc => by
        rcases List.mem_cons.mp (hkept _ c hc) with rfl | hc
        · exact List.not_mem_nil
        · exact hpieces c (List.mem_cons_of_mem curDir hc))
      (fun c hc => (Option.some.inj
        (head?_eq_of_isInit (List.rdropWhile_prefix Path.skipped ([] :: body)) hc)).symm)
    rw [walkAll_rdropWhile, tree.walkAll_cons_skipped tree.cwd [] body rfl,
      ← tree.walkAll_cons_skipped tree.cwd curDir body rfl] at hdir
    exact hdir.trans hwalk
  · rw [Path.pieces_of_not_mem curDir (by decide)] at hsplit
    -- A lone dot names no file.
    rcases List.singleton_eq_append_iff.mp hsplit with ⟨_, hlast⟩ | ⟨_, hlast⟩
    · exact absurd (List.cons.inj hlast).1 hname.2.1
    · exact absurd hlast (List.cons_ne_nil name [])
  -- Neither: the parent is what stands before the last piece, or empty.
  · have hk : Path.lenBeforeBody p = 0 := by
      rw [Path.lenBeforeBody, hroot, hcur]
      rfl
    have hne : p ≠ [] := by
      rintro rfl
      rcases List.singleton_eq_append_iff.mp hsplit with ⟨_, hlast⟩ | ⟨_, hlast⟩
      · exact hname.1 (List.cons.inj hlast).1
      · exact List.cons_ne_nil name [] hlast
    refine hparent init (by rw [hk, List.drop_zero, hsplit]) ?_
    rw [hk, List.take_zero, List.nil_append]
    have hdir := tree.dirOf_plain (init.rdropWhile Path.skipped)
      (fun c hc => hpieces c (hkept init c hc))
      (fun c hc => by
        have hfirst := head?_eq_of_isInit (List.rdropWhile_prefix Path.skipped init) hc
        rcases List.head?_eq_some_iff.mp hfirst with ⟨cs, rfl⟩
        exact Path.head_pieces_ne_nil p c (cs ++ [name]) hne hroot hsplit)
    have hstart : tree.start p = tree.cwd := by rw [start, hroot]; rfl
    rw [walkAll_rdropWhile, ← hstart] at hdir
    exact hdir.trans hwalk

/-- A path to a file ends in the file's name. -/
theorem lastPiece_of_resolveFile (p : Bytes) (k : δ × Bytes) (h : tree.resolveFile p = some k) :
    Path.lastPiece p = some k.2 := by
  rcases tree.resolveFile_eq_some p k.2 k.1 h with ⟨init, hsplit, _⟩
  rw [Path.lastPiece, hsplit, List.getLast?_concat]

/-- A name joined to a path leads into the directory that path stands for. -/
theorem resolveFile_join (dir name : Bytes) (hname : Path.IsName name) :
    tree.resolveFile (Path.join dir name) = (tree.dirOf dir).map (·, name) := by
  have hroot : Path.hasRoot name = false := Path.hasRoot_of_not_mem name hname.2.2.2
  have hok : ¬(Path.skipped name = true ∨ name = parentDir) := by
    rw [not_or, hname.not_skipped]
    exact ⟨Bool.false_ne_true, hname.2.2.1⟩
  have hlast : ∀ p init, Path.pieces p = init ++ [name] →
      tree.resolveFile p = (tree.walkAll (tree.start p) init).map (·, name) := by
    intro p init hp
    rw [resolveFile, Path.lastPiece, hp, List.getLast?_concat, List.dropLast_concat]
    exact if_neg hok
  have hpieces : Path.pieces name = [name] := Path.pieces_of_not_mem name hname.2.2.2
  rw [Path.join, if_neg (by rw [hroot]; exact Bool.false_ne_true)]
  by_cases hdir : dir = []
  · rw [if_pos (Or.inl hdir), hdir, List.nil_append, hlast name [] hpieces, dirOf, if_pos rfl,
      start, hroot]
    rfl
  rw [dirOf, if_neg hdir, resolveDir, if_neg hdir]
  -- A separator at the end of the directory is one more skipped piece.
  by_cases hend : dir.getLast? = some slash
  · rw [if_pos (Or.inr hend)]
    rcases List.getLast?_eq_some_iff.mp hend with ⟨ys, rfl⟩
    have hjoin : Path.pieces (ys ++ [slash] ++ name) = Path.pieces ys ++ [name] := by
      rw [List.append_assoc, List.singleton_append, Path.pieces_append_slash, hpieces]
    have hown : Path.pieces (ys ++ [slash]) = Path.pieces ys ++ [[]] :=
      Path.pieces_append_slash ys []
    rw [hlast _ _ hjoin, hown, start, start, Path.hasRoot_append _ name hdir,
      walkAll_append_skipped _ _ _ [[]] fun c hc => by rw [List.mem_singleton.mp hc]; rfl]
  · rw [if_neg (not_or.mpr ⟨hdir, hend⟩),
      hlast _ _ (by rw [Path.pieces_append_slash, hpieces]), start, start,
      Path.hasRoot_append dir _ hdir]

end DirTree

end Lib
