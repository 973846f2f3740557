/-
  File:      Nvecd/Server/DumpPath.lean
  Subject:   Where a snapshot may be written (`utils/path_utils.h`, as the DUMP handlers use it).

  A file path of a request is resolved, compared with the dump directory element by element, and its
  parent directory has to belong to the service. The writer then takes the parent of the accepted
  path for its temporary file.

  * `validatePrivateDirectory`, `resolvePrivateStoragePath`, `validateDumpPath` -- the checks;
  * `Confined` -- the path stands below the dump directory, and so does what the writer makes of it;
  * `validateDumpPath_settled` -- what is accepted is a name in a directory that exists;
  * `dump_path_confined_iff` -- it is confined, unless the request names the dump directory itself.
-/
import Nvecd.Lib.FileTree
import Nvecd.Vectors.VectorStore

namespace Nvecd.Server

open Nvecd.Lib Nvecd.Utils
open Nvecd.Storage (Bytes)
open Nvecd.Vectors (textOf)
open Nvecd.Lib.FilePath (parse dot dotDot slash)

def pathText (p : FilePath) : String := textOf p.text

/-- `(st_mode & (S_IWGRP | S_IWOTH)) != 0`. -/
def sharedWritable (info : DirInfo) : Bool := info.groupWrite || info.otherWrite

section Model

-- `osText` is the text the system has for an error
variable (fs : FileSystem) (osText : PathErr → String)

/-! ## 1. The checks -/

/-- The loop over the components of the canonical path. -/
def checkAncestors : List Bytes → List Bytes → Except Error Unit
  | _, [] => .ok ()
  | current, component :: rest =>
    let path : FilePath := ⟨true, current ++ [component]⟩
    match fs.lstat path with
    | some (.dir info _) =>
      if sharedWritable info && !info.sticky then
        .error (makeError .kPermissionDenied
          ("Directory ancestor is replaceable by another user: " ++ pathText path))
      else checkAncestors (current ++ [component]) rest
    | _ => .error (makeError .kPermissionDenied ("Invalid directory ancestor: " ++ pathText path))

def validateSecureDirectoryAncestors (directory : FilePath) : Except Error Unit :=
  match fs.canonical directory with
  | .error _ => .error (makeError .kPermissionDenied
      ("Cannot resolve directory ancestors: " ++ pathText directory))
  | .ok canonical => checkAncestors fs [] canonical.elems

/-- `open(directory, O_RDONLY | O_DIRECTORY | O_NOFOLLOW)` and `fstat`. -/
def openDirectory (directory : FilePath) : Except PathErr DirInfo :=
  match fs.locate false directory with
  | .error err => .error err
  | .ok names =>
    match fs.root.find names with
    | some (.dir info _) => if info.readable then .ok info else .error .denied
    | _ => .error .notDirectory

-- what was opened with `O_DIRECTORY` is a directory, so the check of its type cannot fail
def validatePrivateDirectory (directory : FilePath) : Except Error Unit :=
  match validateSecureDirectoryAncestors fs directory with
  | .error e => .error e
  | .ok () =>
    match openDirectory fs directory with
    | .error _ => .error (makeError .kPermissionDenied
        ("Cannot securely open storage directory: " ++ pathText directory))
    | .ok info =>
      if info.owner ≠ fs.user then
        .error (makeError .kPermissionDenied
          ("Storage directory must be owned by the service user: " ++ pathText directory))
      else if sharedWritable info then
        .error (makeError .kPermissionDenied
          ("Storage directory must not be writable by group or others: " ++ pathText directory))
      else .ok ()

def resolvePrivateStoragePath (filepath : FilePath) : Except Error FilePath :=
  let parent := if filepath.parentPath.isEmpty then ⟨false, [dot]⟩ else filepath.parentPath
  match fs.canonical parent with
  | .error err => .error (makeError .kInvalidArgument
      ("Invalid storage directory: " ++ pathText parent ++ ": " ++ osText err))
  | .ok canonicalParent =>
    match validatePrivateDirectory fs canonicalParent with
    | .error e => .error e
    | .ok () =>
      if filepath.filename = [] ∨ filepath.filename = dot ∨ filepath.filename = dotDot then
        .error (makeError .kInvalidArgument "Storage path must name a file")
      else .ok (canonicalParent.adjoin [filepath.filename])

/-- Where the writer creates its temporary file and renames it to the snapshot's name. -/
structure PrivateStorageTarget where
  directory : FilePath
  filename : Bytes
  displayPath : Bytes
  deriving DecidableEq, Repr

/-- `PrivateStorageTarget::Open`. Nothing changes the tree meanwhile, so the directory that was
    opened is the one that has the name. -/
def openStorageTarget (filepath : FilePath) : Except Error PrivateStorageTarget :=
  match resolvePrivateStoragePath fs osText filepath with
  | .error e => .error e
  | .ok resolved =>
    let parent := resolved.parentPath
    match openDirectory fs parent with
    | .error err => .error (makeError .kPermissionDenied
        ("Cannot securely open storage directory: " ++ osText err))
    | .ok info =>
      if info.owner ≠ fs.user ∨ sharedWritable info then
        .error (makeError .kPermissionDenied
          ("Storage directory changed during secure open: " ++ pathText parent))
      else .ok ⟨parent, resolved.filename, resolved.text⟩

/-- The path a request names: relative ones are below the dump directory. -/
def resolvedPath (filepath dumpDir : Bytes) : Bytes :=
  if filepath ≠ [] ∧ filepath.head? ≠ some slash then dumpDir ++ slash :: filepath else filepath

def traversalDetected : Error :=
  makeError .kInvalidArgument "Invalid filepath: path traversal detected"

def validateDumpPath (filepath dumpDir : Bytes) : Except Error Bytes :=
  if dotDot <:+: filepath then .error traversalDetected
  else
    match fs.canonical (parse dumpDir) with
    | .error err => .error (makeError .kInvalidArgument ("Invalid dump directory: " ++ osText err))
    | .ok dumpCanonical =>
      match validatePrivateDirectory fs dumpCanonical with
      | .error e => .error e
      | .ok () =>
        match fs.weaklyCanonical (parse (resolvedPath filepath dumpDir)) with
        | .error err => .error (makeError .kInvalidArgument ("Invalid filepath: " ++ osText err))
        | .ok resolvedCanonical =>
          let rel := resolvedCanonical.lexicallyRelative dumpCanonical
          if rel.isEmpty ∨ rel.text.take 2 = dotDot then .error traversalDetected
          else
            let targetParent :=
              if resolvedCanonical.parentPath.isEmpty then dumpCanonical
              else resolvedCanonical.parentPath
            match validatePrivateDirectory fs targetParent with
            | .error e => .error e
            | .ok () => .ok resolvedCanonical.text

end Model

/-! ## 2. Confinement -/

/-- **The path stands below the dump directory**, and so does what the writer makes of it. -/
structure Confined (fs : FileSystem) (osText : PathErr → String) (dump : FilePath) (path : Bytes) :
    Prop where
  absolute : (parse path).absolute = true
  /-- It has at least one element more than the dump directory, and they are names. -/
  below : ∃ tail, tail ≠ [] ∧ (parse path).elems = dump.elems ++ tail ∧
    ∀ e ∈ tail, FilePath.isName e ∧ e ≠ dotDot ∧ slash ∉ e
  /-- No link is on the way. -/
  throughDirs : ∀ ps, ps <+: (parse path).elems → ps ≠ (parse path).elems →
    ∃ info entries, fs.root.find ps = some (.dir info entries)
  /-- A link by the last name leads nowhere. -/
  last : ∀ target, fs.root.find (parse path).elems = some (.link target) →
    ∀ q, fs.canonical (parse path) ≠ .ok q
  /-- The directory of the temporary file. -/
  storage : ∃ target, openStorageTarget fs osText (parse path) = .ok target ∧
    target.directory.absolute = true ∧ dump.elems <+: target.directory.elems

/-- The request names the dump directory itself, and the directory above that one is private to the
    service as well. -/
def NamesDumpDir (fs : FileSystem) (filepath dumpDir : Bytes) : Prop :=
  ¬ dotDot <:+: filepath ∧ ∃ dump, fs.canonical (parse dumpDir) = .ok dump ∧
    fs.canonical (parse (resolvedPath filepath dumpDir)) = .ok dump ∧
    validatePrivateDirectory fs dump = .ok () ∧ validatePrivateDirectory fs dump.parentPath = .ok ()

variable {fs : FileSystem} {osText : PathErr → String} {filepath dumpDir path : Bytes}
  {dump q directory : FilePath}

theorem parse_no_slash (s : Bytes) : ∀ e ∈ (parse s).elems, slash ∉ e :=
  fun _ he => FilePath.no_slash_of_mem_elemsOf he

/-- Every component was looked at. -/
theorem checkAncestors_ok {current rest : List Bytes}
    (h : checkAncestors fs current rest = .ok ()) :
    ∀ ps, ps <+: rest → ps ≠ [] →
      ∃ info entries, fs.lstat ⟨true, current ++ ps⟩ = some (.dir info entries) := by
  induction rest generalizing current with
  | nil => exact fun ps hps hne => absurd (List.prefix_nil.mp hps) hne
  | cons component rest ih =>
    intro ps hps hne
    rw [checkAncestors] at h
    split at h
    · rename_i info entries hdir
      split at h
      · cases h
      · obtain ⟨p, ps, rfl⟩ := List.exists_cons_of_ne_nil hne
        obtain ⟨rfl, htail⟩ := List.cons_prefix_cons.mp hps
        by_cases hps : ps = []
        · subst hps
          exact ⟨info, entries, hdir⟩
        · have hrest := ih h ps htail hps
          rwa [List.append_assoc, List.singleton_append] at hrest
    · cases h

theorem lstat_linkless {names : List Bytes} {info : DirInfo} {entries : List (Bytes × FileNode)}
    (hnames : Linkless fs.root names) (h : fs.lstat ⟨true, names⟩ = some (.dir info entries)) :
    fs.root.find names = some (.dir info entries) := by
  rw [FileSystem.lstat] at h
  cases hloc : fs.locate false ⟨true, names⟩ with
  | error err => rw [hloc] at h; cases h
  | ok names' =>
    rw [hloc] at h
    obtain ⟨links, hr⟩ := FileSystem.locate_ok hloc
    simp only [FileSystem.start, if_true] at hr
    rw [FilePath.cut_eq_self fun e he => (hnames.plain e he).no_nul] at hr
    obtain ⟨rfl, -⟩ := resolve_real hnames hr
    exact h

/-- **A private directory** exists. -/
theorem validatePrivateDirectory_ok (hslash : ∀ e ∈ directory.elems, slash ∉ e)
    (h : validatePrivateDirectory fs directory = .ok ()) :
    ∃ canonical info entries, fs.canonical directory = .ok canonical ∧
      fs.root.find canonical.elems = some (.dir info entries) := by
  rw [validatePrivateDirectory, validateSecureDirectoryAncestors] at h
  cases hcanonical : fs.canonical directory with
  | error err => rw [hcanonical] at h; cases h
  | ok canonical =>
    rw [hcanonical] at h
    cases hcheck : checkAncestors fs [] canonical.elems with
    | error e => simp only [hcheck] at h; cases h
    | ok _ =>
      have hlink : Linkless fs.root canonical.elems :=
        FileSystem.locate_linkless hslash (FileSystem.canonical_ok.mp hcanonical).2
      by_cases hroot : canonical.elems = []
      · exact ⟨canonical, fs.rootInfo, fs.entries, rfl, by rw [hroot]; rfl⟩
      · obtain ⟨info, entries, hdir⟩ :=
          checkAncestors_ok hcheck canonical.elems (List.prefix_refl _) hroot
        exact ⟨canonical, info, entries, rfl, lstat_linkless hlink hdir⟩

/-- What the writer looks at once more. -/
theorem openDirectory_ok (h : validatePrivateDirectory fs directory = .ok ()) :
    ∃ info, openDirectory fs directory = .ok info ∧ info.owner = fs.user ∧
      sharedWritable info = false := by
  rw [validatePrivateDirectory] at h
  split at h
  · cases h
  · split at h
    · cases h
    · rename_i info hopen
      split at h
      · cases h
      · rename_i howner
        split at h
        · cases h
        · rename_i hshared
          exact ⟨info, hopen, not_not.mp howner, Bool.eq_false_iff.mpr hshared⟩

/-- What an accepted path has gone through. -/
theorem validateDumpPath_ok (h : validateDumpPath fs osText filepath dumpDir = .ok path) :
    ¬ dotDot <:+: filepath ∧ ∃ dump q, fs.canonical (parse dumpDir) = .ok dump ∧
      validatePrivateDirectory fs dump = .ok () ∧
      fs.weaklyCanonical (parse (resolvedPath filepath dumpDir)) = .ok q ∧
      ¬ ((q.lexicallyRelative dump).isEmpty ∨ (q.lexicallyRelative dump).text.take 2 = dotDot) ∧
      validatePrivateDirectory fs (if q.parentPath.isEmpty then dump else q.parentPath) = .ok () ∧
      path = q.text := by
  rw [validateDumpPath] at h
  split at h
  · cases h
  · rename_i hdots
    cases hdump : fs.canonical (parse dumpDir) with
    | error err => rw [hdump] at h; cases h
    | ok dump =>
      cases hprivate : validatePrivateDirectory fs dump with
      | error e => simp only [hdump, hprivate] at h; cases h
      | ok _ =>
        cases hq : fs.weaklyCanonical (parse (resolvedPath filepath dumpDir)) with
        | error err => simp only [hdump, hprivate, hq] at h; cases h
        | ok q =>
          simp only [hdump, hprivate, hq] at h
          split at h
          · cases h
          · rename_i hrel
            split at h
            · cases h
            · rename_i hparent
              exact ⟨hdots, dump, q, rfl, hprivate, rfl, hrel, hparent,
                (Except.ok.inj h).symm⟩

/-- The elements of the path a request names: first those of a directory that exists, and then
    elements among which no `..` is. -/
theorem resolved_elems (hdots : ¬ dotDot <:+: filepath)
    (hdump : fs.canonical (parse dumpDir) = .ok dump) :
    ∃ xs ys, (parse (resolvedPath filepath dumpDir)).elems = xs ++ ys ∧ dotDot ∉ ys ∧
      (xs = [] ∨ ∃ names, fs.locate true ⟨(parse (resolvedPath filepath dumpDir)).absolute, xs⟩ =
        .ok names) := by
  have hfile : dotDot ∉ FilePath.elemsOf filepath := fun h =>
    hdots (FilePath.infix_of_mem_elemsOf h)
  by_cases hrel : filepath ≠ [] ∧ filepath.head? ≠ some slash
  · have hdir : dumpDir ≠ [] := by
      rintro rfl
      cases hdump
    have hresolved : resolvedPath filepath dumpDir = dumpDir ++ slash :: filepath := if_pos hrel
    have habs : (parse (resolvedPath filepath dumpDir)).absolute = (parse dumpDir).absolute := by
      obtain ⟨b, rest, rfl⟩ := List.exists_cons_of_ne_nil hdir
      rw [hresolved]
      rfl
    obtain ⟨ds, hds, happ⟩ :=
      FilePath.elemsOf_append dumpDir (FilePath.elemsOf_ne_nil hrel.1 hrel.2)
    refine ⟨ds, FilePath.elemsOf filepath, ?_, hfile, ?_⟩
    · rw [hresolved]
      exact happ
    · by_cases hnil : ds = []
      · exact .inl hnil
      · obtain ⟨more, hmore⟩ := hds
        have hloc := (FileSystem.canonical_ok.mp hdump).2
        have hparse : parse dumpDir = ⟨(parse dumpDir).absolute, ds ++ more⟩ := by rw [hmore]; rfl
        rw [hparse] at hloc
        rw [habs]
        exact .inr (FileSystem.locate_of_append hloc (.inr hnil))
  · refine ⟨[], FilePath.elemsOf filepath, ?_, hfile, .inl rfl⟩
    rw [resolvedPath, if_neg hrel]
    rfl

/-- A name in a directory that exists, with no link on the way to it. -/
structure Settled (fs : FileSystem) (dir : List Bytes) (name : Bytes) : Prop where
  linkless : Linkless fs.root dir
  isName : FilePath.isName name
  no_slash : slash ∉ name
  ne_dotDot : name ≠ dotDot
  last : ∀ target, fs.root.find (dir ++ [name]) = some (.link target) →
    ∀ q, fs.canonical ⟨true, dir ++ [name]⟩ ≠ .ok q

theorem isName_of_plain {e : Bytes} (h : FilePath.Plain e) : FilePath.isName e :=
  decide_eq_true ⟨h.ne_nil, h.ne_dot⟩

theorem lexicallyRelative_accepted (hq : q.absolute = true) (hdump : dump.absolute = true)
    (hplain : ∀ e ∈ dump.elems, FilePath.Plain e)
    (hrel : ¬ ((q.lexicallyRelative dump).isEmpty ∨
      (q.lexicallyRelative dump).text.take 2 = dotDot)) :
    ∃ tail, q.elems = dump.elems ++ tail := by
  obtain ⟨qAbsolute, qElems⟩ := q
  obtain ⟨dumpAbsolute, dumpElems⟩ := dump
  subst hq hdump
  rcases @FilePath.lexicallyRelative_spec qElems _ hplain with ⟨rest, hup⟩ | ⟨tail, heq, -⟩
  · -- the text begins with the two dots
    refine absurd (.inr ?_) hrel
    rw [hup]
    cases rest <;> rfl
  · exact ⟨tail, heq⟩

/-- **What is accepted**: the dump directory itself, or a name in a private directory below it. -/
theorem validateDumpPath_settled (h : validateDumpPath fs osText filepath dumpDir = .ok path) :
    NamesDumpDir fs filepath dumpDir ∨
      ∃ dump dir name, fs.canonical (parse dumpDir) = .ok dump ∧
        path = FilePath.text ⟨true, dir ++ [name]⟩ ∧ Settled fs dir name ∧
        validatePrivateDirectory fs ⟨true, dir⟩ = .ok () ∧
        fs.canonical ⟨true, dir⟩ = .ok ⟨true, dir⟩ ∧
        (∃ info entries, fs.root.find dir = some (.dir info entries)) ∧ dump.elems <+: dir := by
  obtain ⟨hdots, dump, q, hdump, hprivate, hq, hrel, hparent, rfl⟩ := validateDumpPath_ok h
  have hqabs : q.absolute = true := by
    by_contra hcon
    refine hrel (.inl ?_)
    rw [FilePath.lexicallyRelative, if_pos]
    · rfl
    · rw [(FileSystem.canonical_ok.mp hdump).1]
      exact hcon
  have hparentPath : q.parentPath.isEmpty = false := by
    rw [FilePath.isEmpty, FilePath.parentPath, hqabs]
    rfl
  rw [hparentPath, if_neg Bool.false_ne_true] at hparent
  have hdumplink : Linkless fs.root dump.elems :=
    FileSystem.locate_linkless (parse_no_slash _) (FileSystem.canonical_ok.mp hdump).2
  have hqslash := FileSystem.no_slash_weaklyCanonical (parse_no_slash _) hq
  obtain ⟨parent, info, entries, hcanonical, hdir⟩ := validatePrivateDirectory_ok
    (fun e he => hqslash e (List.mem_of_mem_dropLast he)) hparent
  obtain ⟨tail, htail⟩ := lexicallyRelative_accepted hqabs (FileSystem.canonical_ok.mp hdump).1
    hdumplink.plain hrel
  obtain ⟨xs, ys, happ, hys, hxs⟩ := resolved_elems hdots hdump
  have hdumpabs := (FileSystem.canonical_ok.mp hdump).1
  -- a path below the dump directory has its parent there
  have hbelow : ∀ dir name, q.elems = dir ++ [name] → tail ≠ [] → dump.elems <+: dir := by
    intro dir name hsplit hne
    rw [htail] at hsplit
    have hdrop := congrArg List.dropLast hsplit
    rw [List.dropLast_concat, List.dropLast_append_of_ne_nil hne] at hdrop
    exact ⟨_, hdrop⟩
  have hsettled : ∀ dir name, q.elems = dir ++ [name] → tail ≠ [] → Settled fs dir name →
      ∃ dump dir name, fs.canonical (parse dumpDir) = .ok dump ∧
        q.text = FilePath.text ⟨true, dir ++ [name]⟩ ∧ Settled fs dir name ∧
        validatePrivateDirectory fs ⟨true, dir⟩ = .ok () ∧
        fs.canonical ⟨true, dir⟩ = .ok ⟨true, dir⟩ ∧
        (∃ info entries, fs.root.find dir = some (.dir info entries)) ∧ dump.elems <+: dir := by
    intro dir name hsplit hne hdirname
    have hqdir : q.parentPath = ⟨true, dir⟩ := by
      rw [FilePath.parentPath, hqabs, hsplit, List.dropLast_concat]
    rw [hqdir] at hparent hcanonical
    obtain rfl := (FileSystem.canonical_linkless hdirname.linkless hcanonical).1
    refine ⟨dump, dir, name, hdump, ?_, hdirname, hparent, hcanonical, ⟨info, entries, hdir⟩,
      hbelow dir name hsplit hne⟩
    rw [← hsplit, ← hqabs]
  rcases FileSystem.weaklyCanonical_spec (parse_no_slash _) happ hys hxs hq hqabs hcanonical hdir
    with hexists | ⟨dir, name, hsplit, hparentElems, hmissing⟩
  · have hqlink : Linkless fs.root q.elems :=
      FileSystem.locate_linkless (parse_no_slash _) (FileSystem.canonical_ok.mp hexists).2
    by_cases hnil : tail = []
    · have hqdump : q = dump := by
        obtain ⟨qAbsolute, qElems⟩ := q
        obtain ⟨dumpAbsolute, dumpElems⟩ := dump
        rw [hnil, List.append_nil] at htail
        exact FilePath.mk.injEq .. ▸ ⟨hqabs.trans hdumpabs.symm, htail⟩
      subst hqdump
      exact .inl ⟨hdots, q, hdump, hexists, hprivate, hparent⟩
    · have hqne : q.elems ≠ [] := by
        rw [htail]
        exact List.append_ne_nil_of_right_ne_nil _ hnil
      have hsplit := (List.dropLast_append_getLast hqne).symm
      have hplain := hqlink.plain _ (List.getLast_mem hqne)
      refine .inr (hsettled _ _ hsplit hnil ⟨hqlink.of_prefix (List.dropLast_prefix _),
        isName_of_plain hplain, hplain.no_slash, hplain.ne_dotDot, fun target hlink => ?_⟩)
      rw [← hsplit] at hlink
      exact absurd hlink (hqlink.noLink _ (List.prefix_refl _) target)
  · have hnil : tail ≠ [] := by
      rintro rfl
      rw [List.append_nil, hsplit] at htail
      obtain ⟨canonical, -, -, hok, -⟩ := validatePrivateDirectory_ok
        (fun e he => (hdumplink.plain e he).no_slash) hprivate
      have hdumpeq : dump = ⟨true, dir ++ [name]⟩ := by rw [htail, ← hdumpabs]
      rw [hdumpeq] at hok
      exact hmissing.missing canonical hok
    exact .inr (hsettled dir name hsplit hnil ⟨hmissing.linkless, hmissing.isName,
      hmissing.no_slash, hmissing.ne_dotDot, fun _ _ => hmissing.missing⟩)

/-- **Such a path is confined.** -/
theorem Settled.confined {dir : List Bytes} {name : Bytes} (h : Settled fs dir name)
    (hprivate : validatePrivateDirectory fs ⟨true, dir⟩ = .ok ())
    (hcanonical : fs.canonical ⟨true, dir⟩ = .ok ⟨true, dir⟩)
    (hdir : ∃ info entries, fs.root.find dir = some (.dir info entries))
    (hbelow : dump.elems <+: dir) :
    Confined fs osText dump (FilePath.text ⟨true, dir ++ [name]⟩) := by
  have hname : name ≠ [] ∧ name ≠ dot := of_decide_eq_true h.isName
  have hparse : parse (FilePath.text ⟨true, dir ++ [name]⟩) = ⟨true, dir ++ [name]⟩ := by
    refine FilePath.parse_text fun e he => ?_
    rcases List.mem_append.mp he with he | he
    · exact ⟨(h.linkless.plain e he).ne_nil, (h.linkless.plain e he).no_slash⟩
    · rw [List.mem_singleton.mp he]
      exact ⟨hname.1, h.no_slash⟩
  obtain ⟨-, -, hdirs⟩ := FileSystem.canonical_linkless h.linkless hcanonical
  obtain ⟨behind, hbehind⟩ := hbelow
  obtain ⟨info, hopen, howner, hshared⟩ := openDirectory_ok hprivate
  have hresolve : resolvePrivateStoragePath fs osText ⟨true, dir ++ [name]⟩ =
      .ok ⟨true, dir ++ [name]⟩ := by
    have hfilename : FilePath.filename ⟨true, dir ++ [name]⟩ = name := by
      simp [FilePath.filename]
    have hparent : FilePath.parentPath ⟨true, dir ++ [name]⟩ = ⟨true, dir⟩ := by
      rw [FilePath.parentPath, List.dropLast_concat]
    have hempty : FilePath.isEmpty ⟨true, dir⟩ = false := rfl
    rw [resolvePrivateStoragePath]
    simp only [hparent, hempty, Bool.false_eq_true, if_false, hcanonical, hprivate, hfilename,
      hname.1, hname.2, h.ne_dotDot, or_self]
    rfl
  refine ⟨by rw [hparse], ⟨behind ++ [name], by simp, ?_, ?_⟩, ?_, ?_, ?_⟩
  · rw [hparse, ← List.append_assoc, hbehind]
  · intro e he
    rcases List.mem_append.mp he with he | he
    · have hplain := h.linkless.plain e (hbehind ▸ List.mem_append_right _ he)
      exact ⟨isName_of_plain hplain, hplain.ne_dotDot, hplain.no_slash⟩
    · rw [List.mem_singleton.mp he]
      exact ⟨h.isName, h.ne_dotDot, h.no_slash⟩
  · intro ps hps hne
    rw [hparse] at hps hne
    rcases List.prefix_concat_iff.mp hps with heq | hps
    · exact absurd heq hne
    · by_cases heq : ps = dir
      · exact heq ▸ hdir
      · exact hdirs ps hps heq
  · rw [hparse]
    exact h.last
  · refine ⟨⟨⟨true, dir⟩, name, FilePath.text ⟨true, dir ++ [name]⟩⟩, ?_, rfl,
      ⟨behind, hbehind⟩⟩
    rw [hparse, openStorageTarget, hresolve]
    simp [FilePath.parentPath, FilePath.filename, hopen, howner, hshared]

/-- A request that names the dump directory is accepted, with that directory as the path. -/
theorem validateDumpPath_of_namesDumpDir (h : NamesDumpDir fs filepath dumpDir) :
    ∃ dump, fs.canonical (parse dumpDir) = .ok dump ∧
      validateDumpPath fs osText filepath dumpDir = .ok dump.text ∧
      parse dump.text = dump := by
  obtain ⟨hdots, dump, hdump, hresolved, hprivate, hparent⟩ := h
  obtain ⟨habs, hloc⟩ := FileSystem.canonical_ok.mp hdump
  have hlink : Linkless fs.root dump.elems :=
    FileSystem.locate_linkless (parse_no_slash _) hloc
  refine ⟨dump, hdump, ?_, ?_⟩
  · have hweak : fs.weaklyCanonical (parse (resolvedPath filepath dumpDir)) = .ok dump := by
      obtain ⟨-, hloc⟩ := FileSystem.canonical_ok.mp hresolved
      rw [FileSystem.weaklyCanonical, hloc, ← habs]
    have hrel := FilePath.lexicallyRelative_self dump
    have hempty : dump.parentPath.isEmpty = false := by
      rw [FilePath.isEmpty, FilePath.parentPath, habs]
      rfl
    rw [validateDumpPath, if_neg hdots]
    simp only [hdump, hprivate, hweak, hrel, hempty, Bool.false_eq_true, if_false, hparent]
    rfl
  · obtain ⟨absolute, elems⟩ := dump
    subst habs
    exact FilePath.parse_text fun e he =>
      ⟨(hlink.plain e he).ne_nil, (hlink.plain e he).no_slash⟩

/-- **Dump paths stay inside the dump directory**, unless the request names that directory. -/
theorem dump_path_confined_iff (fs : FileSystem) (osText : PathErr → String)
    (filepath dumpDir : Bytes) :
    (∀ path, validateDumpPath fs osText filepath dumpDir = .ok path →
      ∃ dump, fs.canonical (parse dumpDir) = .ok dump ∧ Confined fs osText dump path) ↔
    ¬ NamesDumpDir fs filepath dumpDir := by
  constructor
  · intro h hnames
    obtain ⟨dump, hdump, hok, hparse⟩ := @validateDumpPath_of_namesDumpDir fs osText _ _ hnames
    obtain ⟨dump', hdump', hconfined⟩ := h _ hok
    obtain rfl := Except.ok.inj (hdump.symm.trans hdump')
    obtain ⟨tail, hne, happ, -⟩ := hconfined.below
    rw [hparse, List.self_eq_append_right] at happ
    exact hne happ
  · intro h path hok
    rcases validateDumpPath_settled hok with hnames |
      ⟨dump, dir, name, hdump, rfl, hsettled, hprivate, hcanonical, hdir, hbelow⟩
    · exact absurd hnames h
    · exact ⟨dump, hdump, hsettled.confined hprivate hcanonical hdir hbelow⟩

/-- `/srv/dumps`, where both directories belong to the service alone. -/
def twoPrivate : FileSystem where
  rootInfo := ⟨0, false, false, false, true, true⟩
  entries := [("srv".toUTF8.toList, .dir ⟨7, false, false, false, true, true⟩
    [("dumps".toUTF8.toList, .dir ⟨7, false, false, false, true, true⟩ [])])]
  cwd := []
  user := 7
  maxLinks := 40
  cwd_linkless := .nil fun _ => FileNode.noConfusion

/-- `DUMP SAVE .`: the path is the dump directory, and the temporary file stands above it. -/
theorem dot_names_dump_dir :
    validateDumpPath twoPrivate (fun _ => "") ".".toUTF8.toList "/srv/dumps".toUTF8.toList =
        .ok "/srv/dumps".toUTF8.toList ∧
      openStorageTarget twoPrivate (fun _ => "") (parse "/srv/dumps".toUTF8.toList) =
        .ok ⟨parse "/srv".toUTF8.toList, "dumps".toUTF8.toList, "/srv/dumps".toUTF8.toList⟩ ∧
      ¬ ∃ dump, twoPrivate.canonical (parse "/srv/dumps".toUTF8.toList) = .ok dump ∧
        Confined twoPrivate (fun _ => "") dump "/srv/dumps".toUTF8.toList := by
  refine ⟨by decide +kernel, by decide +kernel, ?_⟩
  rintro ⟨dump, hdump, hconfined⟩
  have hself : twoPrivate.canonical (parse "/srv/dumps".toUTF8.toList) =
      .ok (parse "/srv/dumps".toUTF8.toList) := by decide +kernel
  obtain rfl := Except.ok.inj (hself.symm.trans hdump)
  obtain ⟨tail, hne, happ, -⟩ := hconfined.below
  rw [List.self_eq_append_right] at happ
  exact hne happ

end Nvecd.Server
