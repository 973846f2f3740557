/-
  File:      Nvecd/Lib/FileTree.lean
  Subject:   A tree of files, directories and symbolic links, and where a path leads in it.

  A walk takes one element after the other and stops at the first link; behind a link it goes on
  with the elements of its target before the ones that were left. Only so many links are followed,
  and a walk that has an end without that bound has the same one with it, or fails for it.

  * `FileNode.find`, `walk`, `resolve` -- what a name leads to, one walk, and a walk through links;
  * `resolve_append` -- first the one path and then the other;
  * `resolve_mono` -- more links that may be followed change nothing but that failure;
  * `Linkless`, `resolve_linkless`, `resolve_real` -- where a walk ends no link is on the way, and a
    way without links leads to itself;
  * `FileSystem`, `canonical`, `weaklyCanonical`, `weaklyCanonical_spec` -- paths as a process has
    them resolved.
-/
import Nvecd.Lib.FilePath

namespace Nvecd.Lib

open FilePath (cut dot dotDot slash Plain)

/-- What `stat` says of a directory; whether it can be read and searched is said for the process
    that asks. -/
structure DirInfo where
  owner : Nat
  groupWrite : Bool
  otherWrite : Bool
  sticky : Bool
  readable : Bool
  searchable : Bool
  deriving DecidableEq, Repr

inductive FileNode where
  | file
  | dir (info : DirInfo) (entries : List (List UInt8 × FileNode))
  | link (target : List UInt8)

namespace FileNode

def child : FileNode → List UInt8 → Option FileNode
  | dir _ entries, name => entries.lookup name
  | _, _ => none

/-- What stands at the end of a list of names; no link is followed. -/
def find : FileNode → List (List UInt8) → Option FileNode
  | node, [] => some node
  | node, name :: names => (node.child name).bind fun c => c.find names

end FileNode

/-- Why a path leads nowhere. -/
inductive PathErr where
  | noEntry
  | notDirectory
  | denied
  | tooManyLinks
  deriving DecidableEq, Repr

/-- It says that nothing is there; the others do not say what is there. -/
def PathErr.isNotFound : PathErr → Bool
  | noEntry | notDirectory => true
  | denied | tooManyLinks => false

/-! ## 1. Walks -/

inductive Walked where
  | reached (names : List (List UInt8))
  | failed (err : PathErr)
  /-- A link with this name, in the directory `dir`. -/
  | link (dir : List (List UInt8)) (name target : List UInt8) (rest : List (List UInt8))

/-- **From the directory `cur` along the elements**, to the end or to the first link. -/
def walk (root : FileNode) : List (List UInt8) → List (List UInt8) → Walked
  | cur, [] => .reached cur
  | cur, e :: rest =>
    match root.find cur with
    | some (.dir info _) =>
      if e = [] then walk root cur rest
      else if !info.searchable then .failed .denied
      else if e = dot then walk root cur rest
      else if e = dotDot then walk root cur.dropLast rest
      else
        match root.find (cur ++ [e]) with
        | none => .failed .noEntry
        | some (.link target) => .link cur e target rest
        | some _ => walk root (cur ++ [e]) rest
    | _ => .failed .notDirectory

/-- Where a link leads from its directory: elements, and the directory they start from. -/
def linkElems (target : List UInt8) : List (List UInt8) := cut (FilePath.parse target).elems

def linkStart (dir : List (List UInt8)) (target : List UInt8) : List (List UInt8) :=
  if (FilePath.parse target).absolute then [] else dir

/-- **The names a path ends at**, and how many links may still be followed. A link at the very end
    is not followed if `follow` is false. -/
def resolve (root : FileNode) (follow : Bool) (links : Nat) (cur elems : List (List UInt8)) :
    Except PathErr (List (List UInt8) × Nat) :=
  match walk root cur elems with
  | .reached names => .ok (names, links)
  | .failed err => .error err
  | .link dir name target rest =>
    if rest = [] ∧ follow = false then .ok (dir ++ [name], links)
    else
      match links with
      | 0 => .error .tooManyLinks
      | links + 1 =>
        if target = [] then .error .noEntry
        else resolve root follow links (linkStart dir target) (linkElems target ++ rest)

theorem resolve_eq (root : FileNode) (follow : Bool) (links : Nat)
    (cur elems : List (List UInt8)) : resolve root follow links cur elems =
      match walk root cur elems with
      | .reached names => .ok (names, links)
      | .failed err => .error err
      | .link dir name target rest =>
        if rest = [] ∧ follow = false then .ok (dir ++ [name], links)
        else
          match links with
          | 0 => .error .tooManyLinks
          | links + 1 =>
            if target = [] then .error .noEntry
            else resolve root follow links (linkStart dir target) (linkElems target ++ rest) :=
  resolve.eq_def root follow links cur elems

section Walk

variable {root : FileNode} {cur xs ys : List (List UInt8)} {e : List UInt8}

/-- A walk along one list and then along another. -/
def Walked.andThen (root : FileNode) (ys : List (List UInt8)) : Walked → Walked
  | reached names => walk root names ys
  | failed err => failed err
  | link dir name target rest => link dir name target (rest ++ ys)

theorem walk_append (root : FileNode) (cur xs ys : List (List UInt8)) :
    walk root cur (xs ++ ys) = (walk root cur xs).andThen root ys := by
  induction xs generalizing cur with
  | nil => rfl
  | cons e xs ih =>
    rw [List.cons_append, walk, walk]
    split
    · split
      · exact ih cur
      · split
        · rfl
        · split
          · exact ih cur
          · split
            · exact ih cur.dropLast
            · split
              · rfl
              · rfl
              · exact ih (cur ++ [e])
    · rfl

section Resolve

variable {follow : Bool} {links : Nat} {names dir rest : List (List UInt8)}
  {name target : List UInt8} {err : PathErr}

theorem resolve_reached (h : walk root cur xs = .reached names) :
    resolve root follow links cur xs = .ok (names, links) := by rw [resolve_eq, h]

theorem resolve_failed (h : walk root cur xs = .failed err) :
    resolve root follow links cur xs = .error err := by rw [resolve_eq, h]

theorem resolve_last (h : walk root cur xs = .link dir name target []) :
    resolve root false links cur xs = .ok (dir ++ [name], links) := by
  rw [resolve_eq, h]
  rfl

theorem resolve_link_zero (h : walk root cur xs = .link dir name target rest)
    (hfollow : ¬ (rest = [] ∧ follow = false)) :
    resolve root follow 0 cur xs = .error .tooManyLinks := by
  rw [resolve_eq, h]
  exact if_neg hfollow

theorem resolve_link_succ (h : walk root cur xs = .link dir name target rest)
    (hfollow : ¬ (rest = [] ∧ follow = false)) :
    resolve root follow (links + 1) cur xs =
      if target = [] then .error .noEntry
      else resolve root follow links (linkStart dir target) (linkElems target ++ rest) := by
  rw [resolve_eq, h]
  exact if_neg hfollow

end Resolve

theorem not_last {rest : List (List UInt8)} : ¬ (rest = [] ∧ true = false) :=
  fun h => Bool.noConfusion h.2

/-- **First along `xs` and then along `ys`**, where every link is followed. -/
theorem resolve_append (root : FileNode) (links : Nat) (cur xs ys : List (List UInt8)) :
    resolve root true links cur (xs ++ ys) =
      (resolve root true links cur xs).bind fun r => resolve root true r.2 r.1 ys := by
  induction links generalizing cur xs with
  | zero =>
    have happ := walk_append root cur xs ys
    cases hw : walk root cur xs with
    | reached names =>
      rw [hw, Walked.andThen] at happ
      rw [resolve_reached hw, resolve_eq, happ, Except.bind, resolve_eq _ _ _ names]
    | failed err =>
      rw [hw, Walked.andThen] at happ
      rw [resolve_failed hw, resolve_failed happ, Except.bind]
    | link dir name target rest =>
      rw [hw, Walked.andThen] at happ
      rw [resolve_link_zero hw not_last, resolve_link_zero happ not_last, Except.bind]
  | succ links ih =>
    have happ := walk_append root cur xs ys
    cases hw : walk root cur xs with
    | reached names =>
      rw [hw, Walked.andThen] at happ
      rw [resolve_reached hw, resolve_eq, happ, Except.bind, resolve_eq _ _ _ names]
    | failed err =>
      rw [hw, Walked.andThen] at happ
      rw [resolve_failed hw, resolve_failed happ, Except.bind]
    | link dir name target rest =>
      rw [hw, Walked.andThen] at happ
      rw [resolve_link_succ hw not_last, resolve_link_succ happ not_last]
      split
      · rfl
      · rw [← List.append_assoc]
        exact ih _ _

/-- **Links that may be followed beyond those that are** change nothing. -/
theorem resolve_mono (root : FileNode) (follow : Bool) (links more : Nat)
    (cur xs : List (List UInt8)) :
    resolve root follow links cur xs = .error .tooManyLinks ∨
      resolve root follow (links + more) cur xs =
        (resolve root follow links cur xs).map fun r => (r.1, r.2 + more) := by
  induction links generalizing cur xs with
  | zero =>
    cases hw : walk root cur xs with
    | reached names =>
      rw [resolve_reached hw, resolve_reached hw]
      exact .inr rfl
    | failed err =>
      rw [resolve_failed hw, resolve_failed hw]
      exact .inr rfl
    | link dir name target rest =>
      by_cases hlast : rest = [] ∧ follow = false
      · obtain ⟨rfl, rfl⟩ := hlast
        rw [resolve_last hw, resolve_last hw]
        exact .inr rfl
      · exact .inl (resolve_link_zero hw hlast)
  | succ links ih =>
    cases hw : walk root cur xs with
    | reached names =>
      rw [resolve_reached hw, resolve_reached hw]
      exact .inr rfl
    | failed err =>
      rw [resolve_failed hw, resolve_failed hw]
      exact .inr rfl
    | link dir name target rest =>
      by_cases hlast : rest = [] ∧ follow = false
      · obtain ⟨rfl, rfl⟩ := hlast
        rw [resolve_last hw, resolve_last hw]
        exact .inr rfl
      · rw [Nat.add_right_comm, resolve_link_succ hw hlast, resolve_link_succ hw hlast]
        split
        · exact .inr rfl
        · exact ih _ _

/-! ## 2. Ways without links -/

/-- **Names that no link is on the way of**. -/
structure Linkless (root : FileNode) (names : List (List UInt8)) : Prop where
  plain : ∀ e ∈ names, Plain e
  noLink : ∀ ps, ps <+: names → ∀ target, root.find ps ≠ some (.link target)

/-- Elements as a system call gets them: no separator and no NUL in them. -/
def Clean (elems : List (List UInt8)) : Prop := ∀ e ∈ elems, slash ∉ e ∧ 0 ∉ e

theorem Linkless.nil (hroot : ∀ target, root ≠ .link target) : Linkless root [] where
  plain := fun _ h => absurd h List.not_mem_nil
  noLink := fun ps hps target h => by
    rw [List.prefix_nil.mp hps, FileNode.find, Option.some.injEq] at h
    exact hroot target h

theorem Linkless.of_prefix {ps : List (List UInt8)} (h : Linkless root cur) (hps : ps <+: cur) :
    Linkless root ps where
  plain := fun e he => h.plain e (hps.subset he)
  noLink := fun qs hqs => h.noLink qs (hqs.trans hps)

theorem Linkless.concat (h : Linkless root cur) (he : Plain e)
    (hnode : ∀ target, root.find (cur ++ [e]) ≠ some (.link target)) :
    Linkless root (cur ++ [e]) where
  plain := fun x hx => by
    rcases List.mem_append.mp hx with hx | hx
    · exact h.plain x hx
    · exact List.mem_singleton.mp hx ▸ he
  noLink := fun ps hps => by
    rcases List.prefix_concat_iff.mp hps with rfl | hps
    · exact hnode
    · exact h.noLink ps hps

theorem clean_cut {elems : List (List UInt8)} (h : ∀ e ∈ elems, slash ∉ e) : Clean (cut elems) := by
  intro e he
  obtain ⟨h0, x, hx, hpre⟩ := FilePath.cut_mem he
  exact ⟨fun hs => h x hx (hpre.subset hs), h0⟩

theorem clean_linkElems (target : List UInt8) : Clean (linkElems target) :=
  clean_cut fun _ he => FilePath.no_slash_of_mem_elemsOf he

theorem Clean.append (hxs : Clean xs) (hys : Clean ys) : Clean (xs ++ ys) := by
  intro e he
  rcases List.mem_append.mp he with he | he
  · exact hxs e he
  · exact hys e he

/-- What a walk stops at stands in a directory that no link is on the way of. -/
def Walked.Linkless (root : FileNode) : Walked → Prop
  | reached names => Lib.Linkless root names
  | failed _ => True
  | link dir _ _ rest => Lib.Linkless root dir ∧ Clean rest

theorem walk_linkless (hcur : Linkless root cur) (hxs : Clean xs) :
    (walk root cur xs).Linkless root := by
  induction xs generalizing cur with
  | nil => exact hcur
  | cons e xs ih =>
    have hrest : Clean xs := fun x hx => hxs x (List.mem_cons_of_mem _ hx)
    rw [walk]
    split
    · split
      · exact ih hcur hrest
      · split
        · trivial
        · split
          · exact ih hcur hrest
          · split
            · exact ih (hcur.of_prefix (List.dropLast_prefix cur)) hrest
            · split
              · trivial
              · exact ⟨hcur, hrest⟩
              · rename_i hne _ hdot hdotDot _ node hnolink hnode
                have he := hxs e List.mem_cons_self
                refine ih (hcur.concat ⟨hne, he.1, he.2, hdot, hdotDot⟩ ?_) hrest
                intro target htarget
                rw [hnode, Option.some.injEq] at htarget
                exact hnolink target htarget
    · trivial

/-- **Where every link is followed no link is left.** -/
theorem resolve_linkless {links links' : Nat} {names : List (List UInt8)}
    (hroot : ∀ target, root ≠ .link target) (hcur : Linkless root cur) (hxs : Clean xs)
    (h : resolve root true links cur xs = .ok (names, links')) :
    Linkless root names ∧ links' ≤ links := by
  induction links generalizing cur xs with
  | zero =>
    have hwalk := walk_linkless hcur hxs
    cases hw : walk root cur xs with
    | reached reached =>
      rw [hw] at hwalk
      rw [resolve_reached hw, Except.ok.injEq, Prod.mk.injEq] at h
      exact ⟨h.1 ▸ hwalk, h.2.ge⟩
    | failed err =>
      rw [resolve_failed hw] at h
      cases h
    | link dir name target rest =>
      rw [resolve_link_zero hw not_last] at h
      cases h
  | succ links ih =>
    have hwalk := walk_linkless hcur hxs
    cases hw : walk root cur xs with
    | reached reached =>
      rw [hw] at hwalk
      rw [resolve_reached hw, Except.ok.injEq, Prod.mk.injEq] at h
      exact ⟨h.1 ▸ hwalk, h.2.ge⟩
    | failed err =>
      rw [resolve_failed hw] at h
      cases h
    | link dir name target rest =>
      rw [hw] at hwalk
      rw [resolve_link_succ hw not_last] at h
      split at h
      · cases h
      · have hstart : Linkless root (linkStart dir target) := by
          rw [linkStart]
          split
          · exact .nil hroot
          · exact hwalk.1
        obtain ⟨hnames, hle⟩ := ih hstart ((clean_linkElems target).append hwalk.2) h
        exact ⟨hnames, by omega⟩

/-- A walk along names without links does not leave them. -/
theorem walk_of_linkless (h : Linkless root (cur ++ xs)) :
    (walk root cur xs = .reached (cur ++ xs) ∧
        ∀ ps, ps <+: xs → ps ≠ xs →
          ∃ info entries, root.find (cur ++ ps) = some (.dir info entries)) ∨
      ∃ err, walk root cur xs = .failed err := by
  induction xs generalizing cur with
  | nil =>
    refine .inl ⟨by rw [walk, List.append_nil], fun ps hps hne => ?_⟩
    exact absurd (List.prefix_nil.mp hps) hne
  | cons e xs ih =>
    have he := h.plain e (List.mem_append_right _ List.mem_cons_self)
    have happ : cur ++ e :: xs = (cur ++ [e]) ++ xs := by simp
    rw [walk]
    split
    · rename_i info entries hdir
      rw [if_neg he.ne_nil]
      split
      · exact .inr ⟨_, rfl⟩
      · rw [if_neg he.ne_dot, if_neg he.ne_dotDot]
        split
        · exact .inr ⟨_, rfl⟩
        · rename_i target htarget
          exact absurd htarget (h.noLink _ (by rw [happ]; exact List.prefix_append _ _) target)
        · rcases ih (happ ▸ h) with ⟨hw, hdirs⟩ | hfail
          · refine .inl ⟨by rw [hw, happ], fun ps hps hne => ?_⟩
            cases ps with
            | nil => exact ⟨info, entries, by rw [List.append_nil, hdir]⟩
            | cons p ps =>
              obtain ⟨rfl, htail⟩ := List.cons_prefix_cons.mp hps
              have hdir := hdirs ps htail fun h => hne (by rw [h])
              rwa [List.append_assoc, List.singleton_append] at hdir
          · exact .inr hfail
    · exact .inr ⟨_, rfl⟩

/-- **A way without links leads to itself**, through directories, or nowhere. -/
theorem resolve_real {follow : Bool} {links links' : Nat} {names names' : List (List UInt8)}
    (h : Linkless root names)
    (hok : resolve root follow links [] names = .ok (names', links')) :
    names' = names ∧ links' = links ∧ walk root [] names = .reached names ∧
      ∀ ps, ps <+: names → ps ≠ names →
        ∃ info entries, root.find ps = some (.dir info entries) := by
  rcases @walk_of_linkless root [] names (by rwa [List.nil_append]) with
    ⟨hw, hdirs⟩ | ⟨err, hw⟩
  · rw [List.nil_append] at hw
    rw [resolve_reached hw, Except.ok.injEq, Prod.mk.injEq] at hok
    exact ⟨hok.1.symm, hok.2.symm, hw, hdirs⟩
  · rw [resolve_failed hw] at hok
    cases hok

end Walk

/-! ## 3. Paths of a process -/

/-- The tree as a process sees it: its working directory, its user, and how many links one path may
    lead through. -/
structure FileSystem where
  rootInfo : DirInfo
  entries : List (List UInt8 × FileNode)
  cwd : List (List UInt8)
  user : Nat
  maxLinks : Nat
  /-- The working directory is a directory, under whatever path it was entered. -/
  cwd_linkless : Linkless (.dir rootInfo entries) cwd

namespace FileSystem

variable {fs : FileSystem} {p : FilePath} {xs ys : List (List UInt8)}

def root (fs : FileSystem) : FileNode := .dir fs.rootInfo fs.entries

def start (fs : FileSystem) (absolute : Bool) : List (List UInt8) := if absolute then [] else fs.cwd

/-- **The names a path leads to.** The empty path leads nowhere. -/
def locate (fs : FileSystem) (follow : Bool) (p : FilePath) : Except PathErr (List (List UInt8)) :=
  if p.absolute = false ∧ (cut p.elems).headD [] = [] then .error .noEntry
  else (resolve fs.root follow fs.maxLinks (fs.start p.absolute) (cut p.elems)).map Prod.fst

def lstat (fs : FileSystem) (p : FilePath) : Option FileNode :=
  match fs.locate false p with
  | .ok names => fs.root.find names
  | .error _ => none

/-- `canonical`: an absolute path without links, for what exists. -/
def canonical (fs : FileSystem) (p : FilePath) : Except PathErr FilePath :=
  (fs.locate true p).map fun names => ⟨true, names⟩

/-- The leading elements that exist, behind those already found, and the others. -/
def leading (fs : FileSystem) (absolute : Bool) :
    List (List UInt8) → List (List UInt8) →
      Except PathErr (List (List UInt8) × List (List UInt8))
  | found, [] => .ok (found, [])
  | found, e :: rest =>
    match fs.locate true ⟨absolute, found ++ [e]⟩ with
    | .ok _ => fs.leading absolute (found ++ [e]) rest
    | .error err => if err.isNotFound then .ok (found, e :: rest) else .error err

/-- `weakly_canonical`: of what does not exist, the leading elements that do are made canonical. -/
def weaklyCanonical (fs : FileSystem) (p : FilePath) : Except PathErr FilePath :=
  match fs.locate true p with
  | .ok names => .ok ⟨true, names⟩
  | .error err =>
    if err.isNotFound then
      match fs.leading p.absolute [] p.elems with
      | .error err => .error err
      | .ok (found, rest) =>
        let first : FilePath := ⟨p.absolute, found⟩
        if first.isEmpty then .ok (first.adjoin rest).lexicallyNormal
        else (fs.canonical first).map fun base => (base.adjoin rest).lexicallyNormal
    else .error err

theorem root_ne_link (fs : FileSystem) (target : List UInt8) : fs.root ≠ .link target :=
  FileNode.noConfusion

theorem start_linkless (fs : FileSystem) (absolute : Bool) :
    Linkless fs.root (fs.start absolute) := by
  rw [start]
  split
  · exact .nil fs.root_ne_link
  · exact fs.cwd_linkless

theorem locate_ok {follow : Bool} {names : List (List UInt8)} (h : fs.locate follow p = .ok names) :
    ∃ links, resolve fs.root follow fs.maxLinks (fs.start p.absolute) (cut p.elems) =
      .ok (names, links) := by
  rw [locate] at h
  split at h
  · cases h
  · cases hr : resolve fs.root follow fs.maxLinks (fs.start p.absolute) (cut p.elems) with
    | error err => rw [hr] at h; cases h
    | ok r =>
      rw [hr] at h
      obtain rfl := Except.ok.inj h
      exact ⟨r.2, rfl⟩

theorem canonical_ok {q : FilePath} :
    fs.canonical p = .ok q ↔ q.absolute = true ∧ fs.locate true p = .ok q.elems := by
  rw [canonical]
  cases fs.locate true p with
  | error err => simp [Except.map]
  | ok names =>
    obtain ⟨absolute, elems⟩ := q
    simp [Except.map, eq_comm]

theorem locate_linkless {names : List (List UInt8)} (hp : ∀ e ∈ p.elems, slash ∉ e)
    (h : fs.locate true p = .ok names) : Linkless fs.root names := by
  obtain ⟨links, hr⟩ := locate_ok h
  exact (resolve_linkless fs.root_ne_link (fs.start_linkless _) (clean_cut hp) hr).1

theorem headD_cut_append (hxs : xs ≠ []) :
    (cut (xs ++ ys)).headD [] = (cut xs).headD [] := by
  obtain ⟨x, xs, rfl⟩ := List.exists_cons_of_ne_nil hxs
  rw [List.cons_append, cut, cut]
  split <;> rfl

/-- Where a path leads somewhere every beginning of it does. -/
theorem locate_of_append {absolute : Bool} {names : List (List UInt8)}
    (h : fs.locate true ⟨absolute, xs ++ ys⟩ = .ok names) (hxs : absolute = true ∨ xs ≠ []) :
    ∃ names, fs.locate true ⟨absolute, xs⟩ = .ok names := by
  obtain ⟨links, hr⟩ := locate_ok h
  obtain ⟨more, hmore⟩ := FilePath.cut_prefix xs ys
  have hhead : ¬ (absolute = false ∧ (cut xs).headD [] = []) := by
    rintro ⟨rfl, hnil⟩
    have hne := hxs.resolve_left Bool.false_ne_true
    rw [locate, if_pos ⟨rfl, (headD_cut_append hne).trans hnil⟩] at h
    cases h
  rw [← hmore, resolve_append] at hr
  rw [locate, if_neg hhead]
  cases hfirst : resolve fs.root true fs.maxLinks (fs.start absolute) (cut xs) with
  | error err => rw [hfirst] at hr; cases hr
  | ok r => exact ⟨r.1, rfl⟩

/-- What stands between the leading elements that exist and the others. -/
theorem leading_spec {absolute : Bool} {l r : List (List UInt8)}
    (h : fs.leading absolute xs ys = .ok (l, r)) :
    l ++ r = xs ++ ys ∧ (l = xs ∨ ∃ names, fs.locate true ⟨absolute, l⟩ = .ok names) ∧
      ∀ e rest, r = e :: rest →
        ∃ err, err.isNotFound ∧ fs.locate true ⟨absolute, l ++ [e]⟩ = .error err := by
  induction ys generalizing xs with
  | nil =>
    rw [leading, Except.ok.injEq, Prod.mk.injEq] at h
    obtain ⟨rfl, rfl⟩ := h
    exact ⟨rfl, .inl rfl, fun _ _ h => nomatch h⟩
  | cons e ys ih =>
    rw [leading] at h
    cases hl : fs.locate true ⟨absolute, xs ++ [e]⟩ with
    | ok names =>
      rw [hl] at h
      obtain ⟨happ, hfound, hnext⟩ := ih h
      refine ⟨by rw [happ, List.append_assoc, List.singleton_append], .inr ?_, hnext⟩
      rcases hfound with rfl | hfound
      · exact ⟨names, hl⟩
      · exact hfound
    | error err =>
      rw [hl] at h
      simp only at h
      split at h
      · rename_i hnot
        rw [Except.ok.injEq, Prod.mk.injEq] at h
        obtain ⟨rfl, rfl⟩ := h
        refine ⟨rfl, .inl rfl, fun e' rest heq => ?_⟩
        obtain ⟨rfl, rfl⟩ := List.cons.inj heq
        exact ⟨err, hnot, hl⟩
      · cases h

/-- Where no element but a name can be missing: behind a directory. -/
theorem not_dir_of_special {root : FileNode} {links : Nat} {cur : List (List UInt8)}
    {e : List UInt8} {err : PathErr} (he : FilePath.isName e = false) (hnot : err.isNotFound)
    (h : resolve root true links cur (cut [e]) = .error err) :
    ∀ info entries, root.find cur ≠ some (.dir info entries) := by
  intro info entries hdir
  have hspecial : e = [] ∨ e = dot := by
    rw [FilePath.isName, decide_eq_false_iff_not, not_and_or, not_not, not_not] at he
    exact he
  have hcut : cut [e] = [e] := by rcases hspecial with rfl | rfl <;> rfl
  rw [hcut] at h
  have hw : walk root cur [e] =
      if e = [] then .reached cur else if !info.searchable then .failed .denied else
        .reached cur := by
    rw [walk, hdir]
    rcases hspecial with rfl | rfl
    · rfl
    · simp [walk, dot]
  split at hw
  · rw [resolve_reached hw] at h
    cases h
  · split at hw
    · rw [resolve_failed hw, Except.error.injEq] at h
      exact absurd hnot (h ▸ Bool.false_ne_true)
    · rw [resolve_reached hw] at h
      cases h

/-- **The first missing element**: where it is missing behind `cur`, so is the first name there. -/
theorem missing_name {root : FileNode} {links more : Nat} {cur rest : List (List UInt8)}
    {e x : List UInt8} {err : PathErr} (hnot : err.isNotFound)
    (h : resolve root true links cur (cut [e]) = .error err)
    (hx : ((e :: rest).filter FilePath.isName).head? = some x) (hle : links ≤ more) :
    ∀ r, resolve root true more cur (cut [x]) ≠ .ok r := by
  intro r hr
  by_cases he : FilePath.isName e
  · rw [List.filter_cons_of_pos he, List.head?_cons, Option.some.injEq] at hx
    subst hx
    obtain ⟨k, rfl⟩ := Nat.exists_eq_add_of_le hle
    rcases resolve_mono root true links k cur (cut [e]) with hmany | hmono
    · rw [h, Except.error.injEq] at hmany
      exact absurd hnot (hmany ▸ Bool.false_ne_true)
    · rw [h, hr] at hmono
      cases hmono
  · have hdir := not_dir_of_special (Bool.not_eq_true _ ▸ he) hnot h
    obtain ⟨c, hc⟩ := FilePath.cut_singleton x
    have hw : walk root cur [c] = .failed .notDirectory := by
      rw [walk]
      split
      · rename_i info entries hd
        exact absurd hd (hdir info entries)
      · rfl
    rw [hc, resolve_failed hw] at hr
    cases hr

theorem no_slash_weaklyCanonical {q : FilePath} (hp : ∀ e ∈ p.elems, slash ∉ e)
    (h : fs.weaklyCanonical p = .ok q) : ∀ e ∈ q.elems, slash ∉ e := by
  rw [weaklyCanonical] at h
  cases hloc : fs.locate true p with
  | ok names =>
    rw [hloc] at h
    obtain rfl := Except.ok.inj h
    exact fun e he => ((locate_linkless hp hloc).plain e he).no_slash
  | error err =>
    rw [hloc] at h
    simp only at h
    split at h
    · cases hlead : fs.leading p.absolute [] p.elems with
      | error err => rw [hlead] at h; cases h
      | ok lr =>
        obtain ⟨l, r⟩ := lr
        rw [hlead] at h
        simp only at h
        have happ : l ++ r = p.elems := (leading_spec hlead).1
        have hl : ∀ e ∈ l, slash ∉ e := fun e he => hp e (happ ▸ List.mem_append_left _ he)
        have hr : ∀ e ∈ r, slash ∉ e := fun e he => hp e (happ ▸ List.mem_append_right _ he)
        split at h
        · obtain rfl := Except.ok.inj h
          refine FilePath.no_slash_lexicallyNormal fun e he => ?_
          exact (List.mem_append.mp he).elim (hl e) (hr e)
        · cases hbase : fs.locate true ⟨p.absolute, l⟩ with
          | error err => rw [canonical, hbase] at h; cases h
          | ok base =>
            rw [canonical, hbase] at h
            obtain rfl := Except.ok.inj h
            refine FilePath.no_slash_lexicallyNormal fun e he => ?_
            rcases List.mem_append.mp he with he | he
            · exact ((locate_linkless hl hbase).plain e he).no_slash
            · exact hr e he
    · cases h

/-- Names, and behind them one that is missing, or a directory without it. -/
structure Missing (fs : FileSystem) (dir : List (List UInt8)) (name : List UInt8) : Prop where
  linkless : Linkless fs.root dir
  isName : FilePath.isName name
  no_slash : slash ∉ name
  ne_dotDot : name ≠ dotDot
  missing : ∀ q, fs.canonical ⟨true, dir ++ [name]⟩ ≠ .ok q

theorem canonical_linkless {names : List (List UInt8)} {q : FilePath}
    (hnames : Linkless fs.root names) (h : fs.canonical ⟨true, names⟩ = .ok q) :
    q = ⟨true, names⟩ ∧ resolve fs.root true fs.maxLinks [] names = .ok (names, fs.maxLinks) ∧
      ∀ ps, ps <+: names → ps ≠ names →
        ∃ info entries, fs.root.find ps = some (.dir info entries) := by
  obtain ⟨habs, hloc⟩ := canonical_ok.1 h
  obtain ⟨links, hr⟩ := locate_ok hloc
  have hcut : cut names = names := FilePath.cut_eq_self fun e he => (hnames.plain e he).no_nul
  simp only [start, if_true, hcut] at hr
  obtain ⟨heq, hlinks, -, hdirs⟩ := resolve_real hnames hr
  obtain ⟨absolute, elems⟩ := q
  subst habs heq hlinks
  exact ⟨rfl, hr, hdirs⟩

/-- Behind names without links a path goes on from the last of them. -/
theorem canonical_append {names : List (List UInt8)} {q : FilePath}
    (hnames : Linkless fs.root names) (h : fs.canonical ⟨true, names ++ ys⟩ = .ok q) :
    ∃ links, resolve fs.root true fs.maxLinks names (cut ys) = .ok (q.elems, links) := by
  obtain ⟨-, hloc⟩ := canonical_ok.1 h
  obtain ⟨links, hr⟩ := locate_ok hloc
  simp only [start, if_true] at hr
  rw [FilePath.cut_append fun e he => (hnames.plain e he).no_nul, resolve_append] at hr
  cases hfirst : resolve fs.root true fs.maxLinks [] names with
  | error err => rw [hfirst] at hr; cases hr
  | ok r =>
    obtain ⟨names', links'⟩ := r
    obtain ⟨rfl, rfl, -⟩ := resolve_real hnames hfirst
    rw [hfirst] at hr
    exact ⟨links, hr⟩

theorem missing_of_parent {base rest : List (List UInt8)} {e : List UInt8} {links : Nat}
    {err : PathErr} {parent : FilePath} {info : DirInfo}
    {entries : List (List UInt8 × FileNode)} (hbase : Linkless fs.root base)
    (hslash : ∀ x ∈ e :: rest, slash ∉ x) (hdots : dotDot ∉ e :: rest) (hnot : err.isNotFound)
    (hmiss : resolve fs.root true links base (cut [e]) = .error err) (hle : links ≤ fs.maxLinks)
    (hparent : fs.canonical (FilePath.lexicallyNormal ⟨true, base ++ e :: rest⟩).parentPath =
      .ok parent)
    (hdir : fs.root.find parent.elems = some (.dir info entries)) :
    ∃ name, (FilePath.lexicallyNormal ⟨true, base ++ e :: rest⟩).elems = base ++ [name] ∧
      parent.elems = base ∧ Missing fs base name := by
  have hspecial : (e :: rest).filter FilePath.isName = [] →
      ∀ info entries, fs.root.find base ≠ some (.dir info entries) := by
    intro hnil
    rw [List.filter_eq_nil_iff] at hnil
    exact not_dir_of_special (Bool.eq_false_iff.mpr (hnil e List.mem_cons_self)) hnot hmiss
  have hsome : base ++ (e :: rest).filter FilePath.isName ≠ [] := by
    intro h
    obtain ⟨rfl, hnil⟩ := List.append_eq_nil_iff.mp h
    exact hspecial hnil _ _ rfl
  have hgone : ∀ x more q, ((e :: rest).filter FilePath.isName).head? = some x →
      fs.canonical ⟨true, base ++ x :: more⟩ ≠ .ok q := by
    intro x more q hx hq
    obtain ⟨k, hr⟩ := canonical_append hbase hq
    obtain ⟨behind, hcut⟩ := FilePath.cut_prefix [x] more
    rw [List.singleton_append] at hcut
    rw [← hcut, resolve_append] at hr
    cases hfirst : resolve fs.root true fs.maxLinks base (cut [x]) with
    | error err => rw [hfirst] at hr; cases hr
    | ok r => exact missing_name hnot hmiss hx hle r hfirst
  have hlast : (e :: rest).getLastD [] ∈ e :: rest := by
    rw [List.getLastD_eq_getLast?, List.getLast?_eq_some_getLast (List.cons_ne_nil _ _),
      Option.getD_some]
    exact List.getLast_mem _
  rw [FilePath.lexicallyNormal_spec hbase.plain hdots (List.cons_ne_nil _ _) hsome] at hparent ⊢
  rw [FilePath.parentPath] at hparent
  -- what is behind the directory that exists: names, and a separator if the last is none
  cases hnames : (e :: rest).filter FilePath.isName with
  | nil =>
    have htrail : ¬ FilePath.isName ((e :: rest).getLastD []) := by
      rw [List.filter_eq_nil_iff] at hnames
      exact hnames _ hlast
    rw [hnames, if_neg htrail, List.append_nil, List.dropLast_concat] at hparent
    rw [(canonical_linkless hbase hparent).1] at hdir
    exact absurd hdir (hspecial hnames _ _)
  | cons x names =>
    have hx : ((e :: rest).filter FilePath.isName).head? = some x := by rw [hnames]; rfl
    rw [hnames] at hparent
    by_cases htrail : FilePath.isName ((e :: rest).getLastD [])
    · rw [if_pos htrail, List.append_nil] at hparent ⊢
      rw [List.dropLast_append_of_ne_nil (List.cons_ne_nil _ _)] at hparent
      cases names with
      | nil =>
        rw [List.dropLast_singleton, List.append_nil] at hparent
        have hmem : x ∈ e :: rest := List.mem_of_mem_filter (hnames ▸ List.mem_cons_self)
        refine ⟨x, rfl, by rw [(canonical_linkless hbase hparent).1], hbase, ?_, hslash x hmem,
          fun h => hdots (h ▸ hmem), fun q => hgone x [] q hx⟩
        exact (List.mem_filter.mp (hnames ▸ List.mem_cons_self)).2
      | cons y names => exact absurd hparent (hgone x _ _ hx)
    · rw [if_neg htrail, List.dropLast_concat] at hparent
      exact absurd hparent (hgone x _ _ hx)

/-- One element behind a path that leads somewhere is looked up from there. -/
theorem locate_next {absolute : Bool} {base : List (List UInt8)} {e : List UInt8} {err : PathErr}
    (hslash : ∀ x ∈ xs, slash ∉ x) (hxs : absolute = true ∨ xs ≠ [])
    (hbase : fs.locate true ⟨absolute, xs⟩ = .ok base)
    (hnext : fs.locate true ⟨absolute, xs ++ [e]⟩ = .error err) :
    ∃ links, resolve fs.root true links base (cut [e]) = .error err ∧ links ≤ fs.maxLinks := by
  have hhead : absolute = false ∧ (cut (xs ++ [e])).headD [] = [] ↔
      absolute = false ∧ (cut xs).headD [] = [] := by
    rcases hxs with rfl | hxs
    · simp
    · rw [headD_cut_append hxs]
  have hnul : ∀ x ∈ xs, 0 ∉ x := by
    by_contra h
    push Not at h
    -- nothing of the element would be seen
    rw [locate, FilePath.cut_append_of_nul h] at hnext
    rw [locate, hnext] at hbase
    cases hbase
  obtain ⟨links, hr⟩ := locate_ok hbase
  have hcut : cut xs = xs := FilePath.cut_eq_self hnul
  have hle := (resolve_linkless fs.root_ne_link (fs.start_linkless _) (clean_cut hslash) hr).2
  refine ⟨links, ?_, hle⟩
  rw [locate] at hbase hnext
  split at hbase
  · cases hbase
  · rename_i hsome
    rw [if_neg (hhead.not.mpr hsome)] at hnext
    simp only at hr
    rw [hcut] at hr
    rw [FilePath.cut_append hnul, resolve_append, hr] at hnext
    cases hlast : resolve fs.root true links base (cut [e]) with
    | error err' =>
      simp only [Except.bind, hlast, Except.map, Except.error.injEq] at hnext
      rw [hnext]
    | ok r =>
      simp only [Except.bind, hlast, Except.map] at hnext
      cases hnext

/-- Where two lists of elements meet at the first one that is missing. -/
theorem leading_covers {absolute : Bool} {zs l rest : List (List UInt8)} {e : List UInt8}
    {err : PathErr} (happ : xs ++ ys = l ++ e :: rest)
    (hxs : xs = [] ∨ ∃ names, fs.locate true ⟨absolute, xs⟩ = .ok names)
    (hnext : fs.locate true ⟨absolute, l ++ [e]⟩ = .error err) (hzs : zs = e :: rest) :
    zs <:+ ys := by
  subst hzs
  rcases List.append_eq_append_iff.mp happ with ⟨m, rfl, rfl⟩ | ⟨m, rfl, hm⟩
  · exact List.suffix_append _ _
  · cases m with
    | nil =>
      rw [List.nil_append] at hm
      rw [hm]
    | cons m ms =>
      obtain ⟨rfl, -⟩ := List.cons.inj hm
      rcases hxs with h | ⟨names, hnames⟩
      · simp at h
      · have hsplit : l ++ e :: ms = (l ++ [e]) ++ ms := by simp
        rw [hsplit] at hnames
        obtain ⟨names', hok⟩ := locate_of_append hnames (.inr (by simp))
        rw [hnext] at hok
        cases hok

/-- **What `weakly_canonical` finds in a directory that exists**: the path is canonical, or all of
    it but the last name is, and that name is missing. -/
theorem weaklyCanonical_spec {q parent : FilePath} {info : DirInfo}
    {entries : List (List UInt8 × FileNode)} (hslash : ∀ e ∈ p.elems, slash ∉ e)
    (hp : p.elems = xs ++ ys) (hys : dotDot ∉ ys)
    (hxs : xs = [] ∨ ∃ names, fs.locate true ⟨p.absolute, xs⟩ = .ok names)
    (h : fs.weaklyCanonical p = .ok q) (habs : q.absolute = true)
    (hparent : fs.canonical q.parentPath = .ok parent)
    (hdir : fs.root.find parent.elems = some (.dir info entries)) :
    fs.canonical p = .ok q ∨
      ∃ dir name, q.elems = dir ++ [name] ∧ parent.elems = dir ∧ Missing fs dir name := by
  rw [weaklyCanonical] at h
  cases hloc : fs.locate true p with
  | ok names =>
    rw [hloc] at h
    obtain rfl := Except.ok.inj h
    exact .inl (canonical_ok.2 ⟨rfl, hloc⟩)
  | error err =>
    right
    rw [hloc] at h
    simp only at h
    split at h
    · cases hlead : fs.leading p.absolute [] p.elems with
      | error err => rw [hlead] at h; cases h
      | ok lr =>
        obtain ⟨l, r⟩ := lr
        rw [hlead] at h
        simp only at h
        obtain ⟨happ, hfound, hnext⟩ := leading_spec hlead
        rw [List.nil_append] at happ
        split at h
        · rename_i hempty
          obtain rfl := Except.ok.inj h
          rw [FilePath.lexicallyNormal_absolute] at habs
          simp only [FilePath.isEmpty, Bool.and_eq_true, Bool.not_eq_true'] at hempty
          exact absurd habs (Bool.eq_false_iff.mp hempty.1)
        · rename_i hempty
          cases hbase : fs.locate true ⟨p.absolute, l⟩ with
          | error err => rw [canonical, hbase] at h; cases h
          | ok base =>
            rw [canonical, hbase] at h
            obtain rfl := Except.ok.inj h
            cases r with
            | nil =>
              -- all elements lead somewhere, but then the path does
              rw [List.append_nil] at happ
              subst happ
              rw [hloc] at hbase
              cases hbase
            | cons e rest =>
              obtain ⟨err', hnot, hnext⟩ := hnext e rest rfl
              have hsuffix := leading_covers (hp.symm.trans happ.symm) hxs hnext rfl
              have hl : ∀ x ∈ l, slash ∉ x := fun x hx =>
                hslash x (happ ▸ List.mem_append_left _ hx)
              have hstart : p.absolute = true ∨ l ≠ [] := by
                by_contra hcon
                rw [not_or, not_not, Bool.not_eq_true] at hcon
                rw [hcon.1, hcon.2] at hempty
                exact hempty rfl
              obtain ⟨links, hmiss, hle⟩ := locate_next hl hstart hbase hnext
              obtain ⟨name, hq, hpar, hgone⟩ := missing_of_parent (locate_linkless hl hbase)
                (fun x hx => hslash x (happ ▸ List.mem_append_right _ hx))
                (fun hd => hys (hsuffix.subset hd)) hnot hmiss hle hparent hdir
              exact ⟨base, name, hq, hpar, hgone⟩
    · cases h

end FileSystem

end Nvecd.Lib
