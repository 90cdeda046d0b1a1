import MergeReady.Daemon.Actor
import MergeReady.Daemon.Branches
import MergeReady.Lib.Str

/-!
# The working tree of a directory

A directory belongs to the nearest directory above it with a `.git`.  The daemon finds it by walking
up (`find_git_dir`), and so does a refresh (`is_git_repo`), but the two do not look for the same
thing: the daemon wants a directory or a file that names one, a refresh any `.git`.
-/

namespace MergeReady.Daemon

open MergeReady.Lib
open MergeReady.Shared

/-! ## Paths and files -/

/-- A directory by the names on the way up from it to the root. -/
abbrev Dir := List String

/-- `Path::display` of an absolute path. -/
def Dir.display (dir : Dir) : String :=
  String.ofList ('/' :: ['/'].intercalate (dir.reverse.map String.toList))

/-- `Path::new` at an absolute path as the system gives it. -/
def Dir.ofPath (path : String) : Dir :=
  let names := (path.toList.drop 1).splitOn '/'
  if names = [[]] then [] else (names.map String.ofList).reverse

/-- `base.join(path)` -/
def join (base path : String) : String :=
  if path.toList.head? = some '/' then path
  else if base.toList.getLast? = some '/' then base ++ path
  else base ++ "/" ++ path

/-- What stands under the name `.git` in a directory. -/
inductive DotGit
  | absent
  | dir
  /-- a file, with its text if it can be read -/
  | file (content : Option Str)
  /-- neither a file nor a directory -/
  | special
deriving DecidableEq

/-- The files that the lookup reads. -/
structure Disk where
  dotGit : Dir → DotGit
  /-- the text of a file -/
  readToString : String → Option Str

namespace Disk

variable (disk : Disk)

/-- The directory that the text of a `.git` file names, seen from where the file is. -/
def linkedGitDir (dir : Dir) (content : Str) : Option String := do
  let rest ← Str.stripPrefix "gitdir: ".toList content
  return join dir.display (String.ofList rest.trim)

def findGitDir (dir : Dir) : Option (Dir × String) :=
  match disk.dotGit dir with
  | .dir => some (dir, join dir.display ".git")
  | .file content => do
    let gitDir ← linkedGitDir dir (← content)
    return (dir, gitDir)
  | .absent | .special =>
    match dir with
    | [] => none
    | _ :: parent => findGitDir parent

def readHead (gitDir : String) : Option String := do
  let content ← disk.readToString (join gitDir "HEAD")
  let name ← Str.stripPrefix "ref: refs/heads/".toList content
  return String.ofList name.trim

def repoInfoFromCwd (cwd : Dir) : Option (String × String) := do
  let (toplevel, gitDir) ← disk.findGitDir cwd
  let branch := (disk.readHead gitDir).getD ""
  let repoId := pathToId (toplevel.display ++ "\x00" ++ branch)
  return (repoId, branch)

/-- `git::is_git_repo` of the evaluation. -/
def isGitRepo (cwd : Dir) : Bool :=
  if disk.dotGit cwd ≠ .absent then true
  else
    match cwd with
    | [] => false
    | _ :: parent => isGitRepo parent

/-! ## The nearest working tree -/

/-- There is a `.git` that the daemon looks into. -/
def Holds (dir : Dir) : Prop := disk.dotGit dir = .dir ∨ ∃ content, disk.dotGit dir = .file content

/-- The toplevel of the working tree that a directory is in. -/
structure Nearest (dir toplevel : Dir) : Prop where
  above : toplevel <:+ dir
  holds : disk.Holds toplevel
  nearest : ∀ d, d <:+ dir → disk.Holds d → d <:+ toplevel

/-- Where the `.git` of a toplevel leads. -/
def gitDirOf (toplevel : Dir) : Option String :=
  match disk.dotGit toplevel with
  | .dir => some (join toplevel.display ".git")
  | .file content => content.bind (linkedGitDir toplevel)
  | .absent | .special => none

variable {disk} {dir toplevel : Dir}

theorem Nearest.self (h : disk.Holds dir) : disk.Nearest dir dir :=
  ⟨List.suffix_refl _, h, fun _ hd _ => hd⟩

theorem Nearest.unique (h : disk.Nearest dir toplevel) {toplevel' : Dir}
    (h' : disk.Nearest dir toplevel') : toplevel' = toplevel :=
  (h.nearest _ h'.above h'.holds).eq_of_length_le
    (h'.nearest _ h.above h.holds).length_le

/-- The nearest working tree of a directory without a `.git` is that of its parent. -/
theorem nearest_cons {name : String} (h : ¬ disk.Holds (name :: dir)) :
    disk.Nearest (name :: dir) toplevel ↔ disk.Nearest dir toplevel := by
  have hsuffix : ∀ d, d <:+ name :: dir → disk.Holds d → d <:+ dir := by
    intro d hd hholds
    rcases List.suffix_cons_iff.1 hd with rfl | hd
    · exact absurd hholds h
    · exact hd
  constructor
  · rintro ⟨habove, hholds, hnearest⟩
    exact ⟨hsuffix _ habove hholds, hholds, fun d hd =>
      hnearest d (hd.trans (List.suffix_cons _ _))⟩
  · rintro ⟨habove, hholds, hnearest⟩
    exact ⟨habove.trans (List.suffix_cons _ _), hholds, fun d hd hd' =>
      hnearest d (hsuffix d hd hd') hd'⟩

theorem not_nearest_nil (h : ¬ disk.Holds []) : ¬ disk.Nearest [] toplevel := by
  rintro ⟨habove, hholds, -⟩
  exact h (List.suffix_nil.1 habove ▸ hholds)

theorem findGitDir_of_holds (h : disk.Holds dir) :
    disk.findGitDir dir = (disk.gitDirOf dir).map fun gitDir => (dir, gitDir) := by
  unfold findGitDir gitDirOf
  rcases h with h | ⟨content, h⟩
  · rw [h]
    rfl
  · rw [h]
    cases content with
    | none => rfl
    | some content =>
      dsimp only [Option.bind_eq_bind, Option.bind_some]
      cases linkedGitDir dir content <;> rfl

theorem findGitDir_of_not_holds (h : ¬ disk.Holds dir) :
    disk.findGitDir dir = dir.tail?.bind disk.findGitDir := by
  unfold Holds at h
  cases hdot : disk.dotGit dir with
  | absent =>
    rw [findGitDir.eq_def, hdot]
    cases dir <;> rfl
  | dir => exact absurd (.inl hdot) h
  | file content => exact absurd (.inr ⟨content, hdot⟩) h
  | special =>
    rw [findGitDir.eq_def, hdot]
    cases dir <;> rfl

/-- **The walk finds the nearest working tree**, and gives up where its `.git` leads nowhere. -/
theorem findGitDir_eq_some {gitDir : String} :
    disk.findGitDir dir = some (toplevel, gitDir) ↔
      disk.Nearest dir toplevel ∧ disk.gitDirOf toplevel = some gitDir := by
  have hhere : ∀ {d : Dir}, disk.Holds d → (disk.findGitDir d = some (toplevel, gitDir) ↔
      disk.Nearest d toplevel ∧ disk.gitDirOf toplevel = some gitDir) := by
    intro d hd
    rw [findGitDir_of_holds hd]
    constructor
    · intro h
      obtain ⟨g, hg, heq⟩ := Option.map_eq_some_iff.1 h
      cases heq
      exact ⟨.self hd, hg⟩
    · rintro ⟨hnear, hg⟩
      obtain rfl := (Nearest.self hd).unique hnear
      rw [hg]
      rfl
  induction dir with
  | nil =>
    by_cases h : disk.Holds []
    · exact hhere h
    · rw [findGitDir_of_not_holds h]
      exact ⟨nofun, fun hx => absurd hx.1 (not_nearest_nil h)⟩
  | cons name dir ih =>
    by_cases h : disk.Holds (name :: dir)
    · exact hhere h
    · rw [findGitDir_of_not_holds h, nearest_cons h]
      exact ih

theorem isGitRepo_iff : disk.isGitRepo dir = true ↔ ∃ d, d <:+ dir ∧ disk.dotGit d ≠ .absent := by
  induction dir with
  | nil => simp [isGitRepo]
  | cons name dir ih =>
    rw [isGitRepo]
    split
    · next h => exact iff_of_true rfl ⟨_, List.suffix_refl _, h⟩
    · next h =>
      rw [ih]
      constructor
      · rintro ⟨d, hd, hdot⟩
        exact ⟨d, hd.trans (List.suffix_cons _ _), hdot⟩
      · rintro ⟨d, hd, hdot⟩
        rcases List.suffix_cons_iff.1 hd with rfl | hd
        · exact absurd hdot h
        · exact ⟨d, hd, hdot⟩

/-! ## What is found -/

/-- The branch that the HEAD of a `.git` names, if any. -/
def branchOf (disk : Disk) (gitDir : String) : String := (disk.readHead gitDir).getD ""

theorem branchOf_of_head {gitDir : String} {name : Str}
    (h : disk.readToString (join gitDir "HEAD") = some ("ref: refs/heads/".toList ++ name)) :
    disk.branchOf gitDir = String.ofList name.trim := by
  have hprefix : Str.stripPrefix "ref: refs/heads/".toList ("ref: refs/heads/".toList ++ name) =
      some name := Str.stripPrefix_eq_some.2 rfl
  rw [branchOf, readHead, h, Option.bind_eq_bind, Option.bind_some, hprefix]
  rfl

theorem branchOf_of_no_head {gitDir : String}
    (h : ∀ name, disk.readToString (join gitDir "HEAD") ≠ some ("ref: refs/heads/".toList ++ name)) :
    disk.branchOf gitDir = "" := by
  unfold branchOf readHead
  cases hread : disk.readToString (join gitDir "HEAD") with
  | none => rfl
  | some content =>
    cases hprefix : Str.stripPrefix "ref: refs/heads/".toList content with
    | none => simp only [Option.bind_eq_bind, Option.bind_some, hprefix, Option.bind_none,
        Option.getD_none]
    | some name =>
      rw [Str.stripPrefix_eq_some.1 hprefix] at hread
      exact absurd hread (h name)

/-- What is known of a working tree whose `.git` is at `gitDir`. -/
def infoOf (disk : Disk) (toplevel : Dir) (gitDir : String) : String × String :=
  ((repoIdOf toplevel.display (disk.branchOf gitDir)).inner, disk.branchOf gitDir)

theorem repoInfoFromCwd_eq :
    disk.repoInfoFromCwd dir = (disk.findGitDir dir).map fun x => disk.infoOf x.1 x.2 := by
  unfold repoInfoFromCwd
  cases disk.findGitDir dir with
  | none => rfl
  | some x => rfl

theorem repoInfoFromCwd_eq_some {info : String × String} :
    disk.repoInfoFromCwd dir = some info ↔ ∃ toplevel gitDir, disk.Nearest dir toplevel ∧
      disk.gitDirOf toplevel = some gitDir ∧ info = disk.infoOf toplevel gitDir := by
  rw [repoInfoFromCwd_eq, Option.map_eq_some_iff]
  constructor
  · rintro ⟨⟨toplevel, gitDir⟩, hfind, hinfo⟩
    obtain ⟨hnear, hgit⟩ := findGitDir_eq_some.1 hfind
    exact ⟨toplevel, gitDir, hnear, hgit, hinfo.symm⟩
  · rintro ⟨toplevel, gitDir, hnear, hgit, hinfo⟩
    exact ⟨(toplevel, gitDir), findGitDir_eq_some.2 ⟨hnear, hgit⟩, hinfo.symm⟩

theorem exists_nearest {d : Dir} (hd : d <:+ dir) (h : disk.Holds d) :
    ∃ toplevel, disk.Nearest dir toplevel := by
  induction dir with
  | nil =>
    obtain rfl := List.suffix_nil.1 hd
    exact ⟨[], .self h⟩
  | cons name dir ih =>
    by_cases hhere : disk.Holds (name :: dir)
    · exact ⟨_, .self hhere⟩
    · rcases List.suffix_cons_iff.1 hd with rfl | hd
      · exact absurd h hhere
      · obtain ⟨toplevel, hnear⟩ := ih hd
        exact ⟨toplevel, (nearest_cons hhere).2 hnear⟩

/-- A directory in no working tree, or in one whose `.git` leads nowhere. -/
theorem repoInfoFromCwd_eq_none : disk.repoInfoFromCwd dir = none ↔
    ∀ toplevel, disk.Nearest dir toplevel → disk.gitDirOf toplevel = none := by
  rw [Option.eq_none_iff_forall_ne_some]
  constructor
  · intro h toplevel hnear
    by_contra hgit
    obtain ⟨gitDir, hgit⟩ := Option.ne_none_iff_exists'.1 hgit
    exact h _ (repoInfoFromCwd_eq_some.2 ⟨toplevel, gitDir, hnear, hgit, rfl⟩)
  · intro h info hinfo
    obtain ⟨toplevel, gitDir, hnear, hgit, -⟩ := repoInfoFromCwd_eq_some.1 hinfo
    rw [h toplevel hnear] at hgit
    cases hgit

/-- **What a directory belongs to.**  The daemon knows a directory by the nearest working tree above
it and the branch that the `HEAD` of that names (none if the head is detached), so all directories of
a tree are known alike, and those of a tree inside it are not.  What it knows is a repository to the
refresh too; the other way round fails exactly where the nearest `.git` leads nowhere, or nothing but
special files stand under that name. -/
theorem repoInfoFromCwd_spec (disk : Disk) (dir : Dir) :
    (∀ info, disk.repoInfoFromCwd dir = some info ↔ ∃ toplevel gitDir,
      disk.Nearest dir toplevel ∧ disk.gitDirOf toplevel = some gitDir ∧
        info = disk.infoOf toplevel gitDir) ∧
    (∀ gitDir name,
      disk.readToString (join gitDir "HEAD") = some ("ref: refs/heads/".toList ++ name) →
        disk.branchOf gitDir = String.ofList (Str.trim name)) ∧
    (∀ gitDir,
      (∀ name, disk.readToString (join gitDir "HEAD") ≠ some ("ref: refs/heads/".toList ++ name)) →
        disk.branchOf gitDir = "") ∧
    (∀ dir' toplevel, disk.Nearest dir toplevel → disk.Nearest dir' toplevel →
      disk.repoInfoFromCwd dir = disk.repoInfoFromCwd dir') ∧
    (disk.repoInfoFromCwd dir ≠ none → disk.isGitRepo dir = true) ∧
    (disk.isGitRepo dir = true ∧ disk.repoInfoFromCwd dir = none ↔
      (∃ toplevel, disk.Nearest dir toplevel ∧ disk.gitDirOf toplevel = none) ∨
      (∀ toplevel, ¬ disk.Nearest dir toplevel) ∧ ∃ d, d <:+ dir ∧ disk.dotGit d = .special) := by
  have hrepo : ∀ {toplevel}, disk.Nearest dir toplevel → disk.isGitRepo dir = true := by
    intro toplevel hnear
    refine isGitRepo_iff.2 ⟨toplevel, hnear.above, ?_⟩
    rcases hnear.holds with h | ⟨content, h⟩
    · rw [h]
      decide
    · rw [h]
      nofun
  refine ⟨fun _ => repoInfoFromCwd_eq_some, fun _ _ => branchOf_of_head,
    fun _ => branchOf_of_no_head, ?_, ?_, ?_⟩
  · intro dir' toplevel hnear hnear'
    refine Option.ext fun info => ?_
    rw [repoInfoFromCwd_eq_some, repoInfoFromCwd_eq_some]
    constructor
    · rintro ⟨t, gitDir, ht, hgit, hinfo⟩
      obtain rfl := hnear.unique ht
      exact ⟨_, gitDir, hnear', hgit, hinfo⟩
    · rintro ⟨t, gitDir, ht, hgit, hinfo⟩
      obtain rfl := hnear'.unique ht
      exact ⟨_, gitDir, hnear, hgit, hinfo⟩
  · intro h
    obtain ⟨info, hinfo⟩ := Option.ne_none_iff_exists'.1 h
    obtain ⟨toplevel, gitDir, hnear, -⟩ := repoInfoFromCwd_eq_some.1 hinfo
    exact hrepo hnear
  · rw [repoInfoFromCwd_eq_none]
    constructor
    · rintro ⟨hgit, hall⟩
      by_cases hex : ∃ toplevel, disk.Nearest dir toplevel
      · obtain ⟨toplevel, hnear⟩ := hex
        exact .inl ⟨toplevel, hnear, hall toplevel hnear⟩
      · refine .inr ⟨fun toplevel hnear => hex ⟨toplevel, hnear⟩, ?_⟩
        obtain ⟨d, hd, hdot⟩ := isGitRepo_iff.1 hgit
        refine ⟨d, hd, ?_⟩
        cases h : disk.dotGit d with
        | absent => exact absurd h hdot
        | dir => exact absurd (exists_nearest hd (.inl h)) hex
        | file content => exact absurd (exists_nearest hd (.inr ⟨content, h⟩)) hex
        | special => rfl
    · rintro (⟨toplevel, hnear, hgit⟩ | ⟨hnot, d, hd, hdot⟩)
      · refine ⟨hrepo hnear, fun t ht => ?_⟩
        obtain rfl := hnear.unique ht
        exact hgit
      · refine ⟨isGitRepo_iff.2 ⟨d, hd, ?_⟩, fun t ht => absurd ht (hnot t)⟩
        rw [hdot]
        decide

end Disk

/-! ## What is hashed -/

/-- A name that a file can have. -/
structure ValidName (name : String) : Prop where
  ne_empty : name.toList ≠ []
  slash : '/' ∉ name.toList
  nul : '\x00' ∉ name.toList

theorem nul_not_mem_display {dir : Dir} (h : ∀ name ∈ dir, ValidName name) :
    '\x00' ∉ dir.display.toList := by
  have happend : ∀ s t : Str, '\x00' ∉ s → '\x00' ∉ t → '\x00' ∉ s ++ t := fun s t hs ht hmem =>
    (List.mem_append.1 hmem).elim hs ht
  rw [Dir.display, String.toList_ofList, List.mem_cons, not_or]
  refine ⟨by decide, Str.intercalate_induction (by decide) happend (by decide) fun part hpart => ?_⟩
  obtain ⟨name, hname, rfl⟩ := List.mem_map.1 hpart
  exact (h name (List.mem_reverse.1 hname)).nul

/-- The names can be read off a path again. -/
theorem splitOn_display {dir : Dir} (h : ∀ name ∈ dir, ValidName name) :
    (dir.display.toList.drop 1).splitOn '/' =
      if dir = [] then [[]] else dir.reverse.map String.toList := by
  rw [Dir.display, String.toList_ofList, List.drop_one, List.tail_cons]
  split
  · next hnil =>
    rw [hnil]
    rfl
  · next hne =>
    refine List.splitOn_intercalate '/' (fun l hl => ?_) (by simpa using hne)
    obtain ⟨name, hname, rfl⟩ := List.mem_map.1 hl
    exact (h name (List.mem_reverse.1 hname)).slash

theorem ofPath_display {dir : Dir} (h : ∀ name ∈ dir, ValidName name) :
    Dir.ofPath dir.display = dir := by
  unfold Dir.ofPath
  dsimp only
  rw [splitOn_display h]
  by_cases hnil : dir = []
  · rw [if_pos hnil, if_pos rfl, hnil]
  · have hempty : dir.reverse.map String.toList ≠ [[]] := by
      intro hx
      have hmem : [] ∈ dir.reverse.map String.toList := hx ▸ List.mem_singleton_self _
      obtain ⟨name, hname, hname_nil⟩ := List.mem_map.1 hmem
      exact (h name (List.mem_reverse.1 hname)).ne_empty hname_nil
    rw [if_neg hnil, if_neg hempty, List.map_map]
    simp [Function.comp_def]

theorem display_injective {dir dir' : Dir} (h : ∀ name ∈ dir, ValidName name)
    (h' : ∀ name ∈ dir', ValidName name) (heq : dir.display = dir'.display) : dir = dir' := by
  rw [← ofPath_display h, heq, ofPath_display h']

/-- Two lists that are parted at the first `a`. -/
theorem parts_eq_of_not_mem {α : Type*} {x x' z z' : List α} {a : α} (hx : a ∉ x) (hx' : a ∉ x')
    (h : x ++ a :: z = x' ++ a :: z') : x = x' ∧ z = z' := by
  rcases List.append_eq_append_iff.1 h with ⟨m, rfl, hm⟩ | ⟨m, rfl, hm⟩
  · cases m with
    | nil => exact ⟨(List.append_nil x).symm, (List.cons.inj hm).2⟩
    | cons b m =>
      obtain ⟨rfl, -⟩ := List.cons.inj hm
      exact absurd (List.mem_append_right _ List.mem_cons_self) hx'
  · cases m with
    | nil => exact ⟨List.append_nil x', (List.cons.inj hm).2.symm⟩
    | cons b m =>
      obtain ⟨rfl, -⟩ := List.cons.inj hm
      exact absurd (List.mem_append_right _ List.mem_cons_self) hx

/-- The text whose hash is the id of a working tree with a branch checked out. -/
def hashed (toplevel : Dir) (branch : String) : String := toplevel.display ++ "\x00" ++ branch

/-- The text that is hashed says which working tree and which branch it is for. -/
theorem hashed_injective {toplevel toplevel' : Dir} {branch branch' : String}
    (h : ∀ name ∈ toplevel, ValidName name) (h' : ∀ name ∈ toplevel', ValidName name)
    (heq : hashed toplevel branch = hashed toplevel' branch') :
    toplevel = toplevel' ∧ branch = branch' := by
  have hlist := congrArg String.toList heq
  simp only [hashed, String.toList_append, List.append_assoc] at hlist
  have hnul : "\x00".toList = ['\x00'] := rfl
  rw [hnul, List.singleton_append, List.singleton_append] at hlist
  obtain ⟨hdisplay, hbranch⟩ := parts_eq_of_not_mem (nul_not_mem_display h)
    (nul_not_mem_display h') hlist
  exact ⟨display_injective h h' (String.toList_injective hdisplay),
    String.toList_injective hbranch⟩

/-- **One id, one working tree.**  Two lookups that give one id, at any two moments, have found the same
working tree with the same branch checked out, or the hash takes two different texts to that id. -/
theorem Disk.repoInfoFromCwd_shared {disk disk' : Disk} {cwd cwd' : Dir} {id branch branch' : String}
    (hcwd : ∀ name ∈ cwd, ValidName name) (hcwd' : ∀ name ∈ cwd', ValidName name)
    (h : disk.repoInfoFromCwd cwd = some (id, branch))
    (h' : disk'.repoInfoFromCwd cwd' = some (id, branch')) :
    ∃ toplevel toplevel', disk.Nearest cwd toplevel ∧ disk'.Nearest cwd' toplevel' ∧
      (toplevel = toplevel' ∧ branch = branch' ∨
        hashed toplevel branch ≠ hashed toplevel' branch' ∧
          pathToId (hashed toplevel branch) = id ∧ pathToId (hashed toplevel' branch') = id) := by
  obtain ⟨toplevel, gitDir, hnear, -, hinfo⟩ := repoInfoFromCwd_eq_some.1 h
  obtain ⟨toplevel', gitDir', hnear', -, hinfo'⟩ := repoInfoFromCwd_eq_some.1 h'
  obtain ⟨rfl, rfl⟩ := Prod.mk.inj hinfo
  obtain ⟨hid, rfl⟩ := Prod.mk.inj hinfo'
  refine ⟨toplevel, toplevel', hnear, hnear', ?_⟩
  by_cases heq : hashed toplevel (disk.branchOf gitDir) = hashed toplevel' (disk'.branchOf gitDir')
  · exact .inl (hashed_injective (fun name hname => hcwd name (hnear.above.subset hname))
      (fun name hname => hcwd' name (hnear'.above.subset hname)) heq)
  · exact .inr ⟨heq, rfl, hid.symm⟩

/-- A working tree with `main` checked out in every directory under the root. -/
def siblings : Disk where
  dotGit dir := if dir.length = 1 then .dir else .absent
  readToString _ := some "ref: refs/heads/main\n".toList

/-- Two working trees that share their entry, by a collision of the hash. -/
theorem Disk.repoInfoFromCwd_shared_siblings : ∃ id,
    siblings.repoInfoFromCwd ["src", "PbH7-9HrLwI"] = some (id, "main") ∧
      siblings.repoInfoFromCwd ["xVfqGsc82QP"] = some (id, "main") ∧
      hashed ["PbH7-9HrLwI"] "main" ≠ hashed ["xVfqGsc82QP"] "main" ∧
      pathToId (hashed ["PbH7-9HrLwI"] "main") = id ∧
      pathToId (hashed ["xVfqGsc82QP"] "main") = id := by
  have hname : ValidName "PbH7-9HrLwI" := ⟨by decide, by decide, by decide⟩
  have hnames : ∀ name ∈ (["src", "PbH7-9HrLwI"] : Dir), ValidName name :=
    List.forall_mem_cons.2 ⟨⟨by decide, by decide, by decide⟩, List.forall_mem_singleton.2 hname⟩
  have hnames' : ∀ name ∈ (["xVfqGsc82QP"] : Dir), ValidName name :=
    List.forall_mem_singleton.2 ⟨by decide, by decide, by decide⟩
  have hleft : siblings.repoInfoFromCwd ["src", "PbH7-9HrLwI"] =
      some (pathToId "/PbH7-9HrLwI\x00main", "main") := by decide +kernel
  have hright : siblings.repoInfoFromCwd ["xVfqGsc82QP"] =
      some (pathToId "/PbH7-9HrLwI\x00main", "main") := by decide +kernel
  have hfind : siblings.Nearest ["src", "PbH7-9HrLwI"] ["PbH7-9HrLwI"] :=
    (findGitDir_eq_some.1 (rfl : siblings.findGitDir _ = some (["PbH7-9HrLwI"], _))).1
  have hfind' : siblings.Nearest ["xVfqGsc82QP"] ["xVfqGsc82QP"] :=
    (findGitDir_eq_some.1 (rfl : siblings.findGitDir _ = some (["xVfqGsc82QP"], _))).1
  obtain ⟨toplevel, toplevel', hnear, hnear', h⟩ :=
    repoInfoFromCwd_shared hnames hnames' hleft hright
  obtain rfl := hfind.unique hnear
  obtain rfl := hfind'.unique hnear'
  rcases h with ⟨hsame, -⟩ | hcollision
  · exact absurd hsame (by decide)
  · exact ⟨_, hleft, hright, hcollision⟩

/-! ## Queries from a working tree -/

section Queries

variable {ι : Type*} [DecidableEq ι] {config : DaemonServerConfig} {startedAt : Instant}
  {e₀ : Surroundings} {evs : List (ActorEvent ι Surroundings DaemonCommand DaemonReply)}
  {S : Actors ι Surroundings DaemonState DaemonCommand DaemonReply}

/-- **One working tree, one answer.**  In every run of the daemon, while files come and go, a query
from any directory is answered with the latest result for the nearest working tree above it and the
branch checked out there when the query is served, and with nothing if there is none or its `.git`
leads nowhere.  `disk` is what is on the disk when a command is served. -/
theorem query_of_worktree {i : ι} {dir : Dir} {r : DaemonReply} (disk : ServedCommand ι → Disk)
    (hr : DaemonRun config startedAt e₀ evs S)
    (hdisk : ∀ x ∈ servedOf evs, x.env.repoInfoFromCwd dir.display =
      (disk x).repoInfoFromCwd (Dir.ofPath dir.display))
    (hdir : ∀ name ∈ dir, ValidName name)
    (hcall : .call i (.process (.query dir.display)) ∈ evs) (hrecv : .receive i r ∈ evs)
    (hrep : -(2 ^ 63 * 1000000000) ≤ e₀.now.nanos - backdate config.staleTtlSecs) :
    ∃ before x after, servedOf evs = before ++ x :: after ∧ x.caller = i ∧
      ((∃ toplevel gitDir calls s, (disk x).Nearest dir toplevel ∧
        (disk x).gitDirOf toplevel = some gitDir ∧ CallsOf config before calls ∧
        Run Step .new calls s ∧ ∃ p, r = .result p ∧ p.response = .output (answer
          (resultOf (repoIdOf toplevel.display ((disk x).branchOf gitDir)) calls))) ∨
      (∀ toplevel, (disk x).Nearest dir toplevel → (disk x).gitDirOf toplevel = none) ∧
        r = .result (.reply (.output ""))) := by
  obtain ⟨x, hx, hxi, rfl, hxc⟩ := Actors.served_of_received hr hrecv
  obtain ⟨before, after, hserved⟩ := List.append_of_mem hx
  have hcmd := Actors.call_unique hr hxc hcall
  have hlookup := hdisk x hx
  rw [ofPath_display hdir] at hlookup
  refine ⟨before, x, after, hserved, hxi, ?_⟩
  rcases query_reply hr hserved hcmd hrep with
    ⟨hinfo, hreply⟩ | ⟨repoId, branch, calls, s, hinfo, hcalls, hstore, refresh, hreply⟩
  · exact .inr ⟨Disk.repoInfoFromCwd_eq_none.1 (hlookup.symm.trans hinfo), hreply⟩
  · obtain ⟨toplevel, gitDir, hnear, hgit, heq⟩ :=
      Disk.repoInfoFromCwd_eq_some.1 (hlookup.symm.trans hinfo)
    obtain ⟨rfl, rfl⟩ := Prod.mk.inj heq
    exact .inl ⟨toplevel, gitDir, calls, s, hnear, hgit, hcalls, hstore, _, hreply, rfl⟩

end Queries

namespace WorkTree

/-- The text of a file: only the `HEAD` is there. -/
def head (path : String) : Option Str :=
  if path = join (join (Dir.display ["repo"]) ".git") "HEAD" then
    some "ref: refs/heads/main\n".toList
  else none

/-- One working tree, with `main` checked out. -/
def disk : Disk where
  dotGit d := if d = ["repo"] then .dir else .absent
  readToString := head

theorem holds_iff {d : Dir} : disk.Holds d ↔ d = ["repo"] := by
  unfold Disk.Holds disk
  dsimp only
  by_cases h : d = ["repo"]
  · simp [h]
  · simp [h]

theorem nearest : disk.Nearest ["src", "repo"] ["repo"] where
  above := List.suffix_cons _ _
  holds := holds_iff.2 rfl
  nearest _ _ hd := holds_iff.1 hd ▸ List.suffix_refl _

theorem gitDirOf_repo : disk.gitDirOf ["repo"] = some (join (Dir.display ["repo"]) ".git") := rfl

theorem branchOf_repo : disk.branchOf (join (Dir.display ["repo"]) ".git") = "main" := by
  have hread : disk.readToString (join (join (Dir.display ["repo"]) ".git") "HEAD") =
      some ("ref: refs/heads/".toList ++ "main\n".toList) := by
    show head (join (join (Dir.display ["repo"]) ".git") "HEAD") = _
    unfold head
    rw [if_pos rfl]
    decide
  have htrim : String.ofList (Str.trim "main\n".toList) = "main" := by decide
  exact (Disk.branchOf_of_head hread).trans htrim

def around (secs : UInt32) : Surroundings where
  now := .ofSecs secs
  nowWall := .ofSecs secs
  repoInfoFromCwd cwd := disk.repoInfoFromCwd (Dir.ofPath cwd)

def query : ServedCommand ℕ :=
  ⟨0, .process (.query (Dir.display ["src", "repo"])), around 3,
    .result (process (around 3).repoInfoFromCwd (.query (Dir.display ["src", "repo"]))
      (.new .defaults (.ofSecs 0)) (.ofSecs 3) (.ofSecs 3)).2⟩

end WorkTree

open WorkTree in
theorem query_of_worktree_repo : ∃ p calls, query.reply = .result p ∧
    p.response = .output (answer (resultOf (repoIdOf (Dir.display ["repo"]) "main") calls)) := by
  have hstep : (stateActor .defaults (.ofSecs 0)).SeqStep (.new .defaults (.ofSecs 0)) query
      (process (around 3).repoInfoFromCwd (.query (Dir.display ["src", "repo"]))
        (.new .defaults (.ofSecs 0)) (.ofSecs 3) (.ofSecs 3)).1 := by
    unfold Service.SeqStep stateActor query
    dsimp only
    rw [handleCommand_process]
    rfl
  obtain ⟨evs, S, hr, hserved, -, -, hall⟩ := Actors.exists_run_of_seq
    (S := (stateActor .defaults (.ofSecs 0)).init ℕ (around 0))
    (show 0 < COMMAND_CHANNEL_SIZE by decide) Served.env (.cons hstep (.nil _)) rfl rfl
    (fun _ _ => rfl)
    (fun x hx => List.mem_singleton.1 hx ▸ Surroundings.le_def.2 (by decide))
    (List.nodup_singleton _) (List.pairwise_singleton _ _) (by simp [query, stateActor,
      DaemonCommand.StampedAt])
  obtain ⟨hcall, hrecv⟩ := hall query (List.mem_singleton_self _)
  have hnames : ∀ name ∈ (["src", "repo"] : Dir), ValidName name := by
    intro name hname
    simp only [List.mem_cons, List.not_mem_nil, or_false] at hname
    rcases hname with rfl | rfl
    · exact ⟨by decide, by decide, by decide⟩
    · exact ⟨by decide, by decide, by decide⟩
  have hdisk : ∀ x ∈ servedOf evs, x.env.repoInfoFromCwd (Dir.display ["src", "repo"]) =
      disk.repoInfoFromCwd (Dir.ofPath (Dir.display ["src", "repo"])) := by
    intro x hx
    rw [hserved] at hx
    obtain rfl := List.mem_singleton.1 hx
    rfl
  obtain ⟨before, x, after, -, -, h⟩ := query_of_worktree (fun _ => disk) hr hdisk hnames hcall
    hrecv (by decide)
  rcases h with ⟨toplevel, gitDir, calls, s, hnear, hgit, -, -, p, hreply, hout⟩ | ⟨hnone, -⟩
  · obtain rfl := nearest.unique hnear
    obtain rfl := Option.some.inj (gitDirOf_repo.symm.trans hgit)
    rw [branchOf_repo] at hout
    exact ⟨p, calls, hreply, hout⟩
  · have hgit := hnone _ nearest
    rw [gitDirOf_repo] at hgit
    cases hgit

end MergeReady.Daemon
