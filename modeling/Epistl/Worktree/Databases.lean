import Epistl.Text.Lines
import Mathlib.Algebra.Order.Ring.Nat

/-! # The databases of the worktrees

`apps/api/src/db.rs`: every worktree under `.claude/worktrees` has a database that is named
after it, and `prune_worktree_dbs` drops those whose worktree is gone. What git prints is a
parameter, and so are the Unicode tables of `to_lowercase`. Strings are lists of characters.
-/
namespace Epistl.Worktree
open Text

def maxPgIdentifierLen : ℕ := 63

/-- `str::len`. -/
def utf8Len (s : Chars) : ℕ := (s.map Char.utf8Size).sum

def marker : Chars := "/.claude/worktrees/".toList

/-- The name of a database: Postgres allows no longer ones. -/
structure DatabaseName where
  name : Chars
  len : utf8Len name ≤ maxPgIdentifierLen

variable (lower : Chars → Chars)

def sanitizeSlug (slug : Chars) : Chars :=
  (lower slug).map fun c => if c.isLower || c.isDigit || c = '_' then c else '_'

def slugFromToplevel (toplevel : Chars) : Option Chars :=
  match after marker toplevel with
  | none => none
  | some after =>
    let name := trim isWhitespace (firstPart '/' after)
    if name = [] then none else some (sanitizeSlug lower name)

/-- `worktree_slug` in a worktree, from what `git rev-parse --show-toplevel` prints. -/
def worktreeSlug (toplevel : Chars) : Option Chars :=
  slugFromToplevel lower (trim isWhitespace toplevel)

def dbNamePrefix (baseDb : Chars) : Chars := baseDb ++ "_wt_".toList

/-- The bytes that the prefix leaves, `remaining` in `derive_db_name`. -/
def remaining (baseDb : Chars) : ℕ := maxPgIdentifierLen - utf8Len (dbNamePrefix baseDb)

/-- A sanitized slug has one byte for each character. -/
def deriveDbName (baseDb slug : Chars) : Chars :=
  dbNamePrefix baseDb ++ slug.take (min slug.length (remaining baseDb))

/-- From what `git worktree list --porcelain` prints. -/
def liveWorktreeSlugs (text : Chars) : List Chars :=
  (lines text).filterMap fun line =>
    match stripPrefix "worktree ".toList line with
    | none => none
    | some rest =>
      match after marker rest with
      | none => none
      | some after =>
        let name := trim isWhitespace (firstPart '/' after)
        if name = [] then none else some (sanitizeSlug lower name)

def orphanedWorktreeDbs (allDbs : List Chars) (baseDb : Chars) (activeSlugs : List Chars) :
    List (Chars × Chars) :=
  allDbs.filterMap fun name =>
    match stripPrefix (dbNamePrefix baseDb) name with
    | none => none
    | some slug => if slug ∈ activeSlugs then none else some (name, slug)

/-- The databases that `prune_worktree_dbs` drops. -/
def pruneWorktreeDbs (allDbs : List DatabaseName) (baseDb stdout : Chars) : List (Chars × Chars) :=
  orphanedWorktreeDbs (allDbs.map DatabaseName.name) baseDb (liveWorktreeSlugs lower stdout)

/-- A worktree of the repository: its path, and the lines with its other attributes in git's
listing. -/
structure GitWorktree where
  path : Chars
  attributes : List Chars
  lines : ∀ line ∈ attributes, '\n' ∉ line ∧ ¬"worktree ".toList <+: line

/-- The porcelain format: a worktree ends with an empty line, and a path stands in it as it is. -/
def porcelain (worktrees : List GitWorktree) : Chars :=
  worktrees.flatMap fun w => "worktree ".toList ++ w.path ++
    '\n' :: (w.attributes.flatMap (· ++ ['\n']) ++ ['\n'])

/-- What `git worktree list --porcelain` writes to its standard output. -/
structure GitLists (worktrees : List GitWorktree) (succeeds : Bool) (stdout : Chars) : Prop where
  listed : succeeds = true → stdout = porcelain worktrees
  failed : succeeds = false → stdout = []

/-- `name` is the database that was created for a worktree. -/
def IsLive (baseDb : Chars) (worktrees : List GitWorktree) (name : Chars) : Prop :=
  ∃ w ∈ worktrees, ∃ slug, worktreeSlug lower w.path = some slug ∧ deriveDbName baseDb slug = name

structure Spares (allDbs : List DatabaseName) (baseDb : Chars) (worktrees : List GitWorktree)
    (stdout : Chars) : Prop where
  live {name slug : Chars} : (name, slug) ∈ pruneWorktreeDbs lower allDbs baseDb stdout →
    ¬IsLive lower baseDb worktrees name
  base {name slug : Chars} : (name, slug) ∈ pruneWorktreeDbs lower allDbs baseDb stdout →
    name ≠ baseDb
  others {db : DatabaseName} : db ∈ allDbs → dbNamePrefix baseDb <+: db.name →
    ¬IsLive lower baseDb worktrees db.name →
    ∃ slug, (db.name, slug) ∈ pruneWorktreeDbs lower allDbs baseDb stdout

/-- The paths that the lines of a listing show for one worktree: up to its first newline, and
behind a newline what looks like a line for a worktree. -/
def shownPaths (path : Chars) : List Chars :=
  match path.splitOn '\n' with
  | [] => []
  | first :: rest => first :: rest.filterMap (stripPrefix "worktree ".toList)

/-- A slug that one of the lines shows. -/
def Shown (worktrees : List GitWorktree) (slug : Chars) : Prop :=
  ∃ w ∈ worktrees, ∃ path ∈ shownPaths w.path, worktreeSlug lower path = some slug

/-- When pruning can do no harm. -/
structure Fit (allDbs : List DatabaseName) (baseDb : Chars) (worktrees : List GitWorktree)
    (succeeds : Bool) : Prop where
  /-- git has not failed while a live worktree has a database, whose path is on one line and whose
  slug fits, or the slug that is left of it is shown all the same -/
  live : ∀ w ∈ worktrees, ∀ slug, worktreeSlug lower w.path = some slug →
    (∃ db ∈ allDbs, db.name = deriveDbName baseDb slug) → succeeds = true ∧
      ('\n' ∉ w.path ∧ slug.length ≤ remaining baseDb ∨
        Shown lower worktrees (slug.take (remaining baseDb)))
  /-- a path on several lines shows no slug of a database that nobody uses -/
  others : succeeds = true → ∀ w ∈ worktrees, '\n' ∈ w.path → ∀ path ∈ shownPaths w.path,
    ∀ slug, worktreeSlug lower path = some slug → ∀ db ∈ allDbs,
      db.name = dbNamePrefix baseDb ++ slug → IsLive lower baseDb worktrees db.name

variable {lower} {baseDb stdout slug name path line : Chars} {allDbs : List DatabaseName}
  {worktrees : List GitWorktree} {w : GitWorktree} {succeeds : Bool}

theorem isWhitespace_marker : ∀ c ∈ marker, isWhitespace c = false := by
  have hall : (marker.all fun c => !isWhitespace c) = true := by decide
  intro c hc
  simpa using List.all_eq_true.mp hall c hc

theorem slugFromToplevel_trim (path : Chars) :
    slugFromToplevel lower (trim isWhitespace path) = slugFromToplevel lower path := by
  rw [slugFromToplevel, after_trim isWhitespace_marker (by decide), slugFromToplevel]
  cases after marker path with
  | none => rfl
  | some rest => simp only [Option.map_some, trim_firstPart_trimEnd (by decide : isWhitespace '/' = false)]

/-- The slug on a line of the listing. -/
def lineSlug (lower : Chars → Chars) (line : Chars) : Option Chars :=
  (stripPrefix "worktree ".toList line).bind (worktreeSlug lower)

theorem lineSlug_entry (path : Chars) :
    lineSlug lower ("worktree ".toList ++ path) = worktreeSlug lower path := by
  rw [lineSlug, stripPrefix_append]
  rfl

theorem lineSlug_of_other (h : ¬"worktree ".toList <+: line) : lineSlug lower line = none := by
  rw [lineSlug, stripPrefix_eq_none.mpr h]
  rfl

theorem worktreeSlug_return (path : Chars) :
    worktreeSlug lower (path ++ ['\r']) = worktreeSlug lower path := by
  have htrim : trim isWhitespace (path ++ ['\r']) = trim isWhitespace path :=
    trim_concat (by decide)
  rw [worktreeSlug, htrim, worktreeSlug]

theorem lineSlug_return (line : Chars) : lineSlug lower (line ++ ['\r']) = lineSlug lower line := by
  by_cases hline : "worktree ".toList <+: line
  · obtain ⟨path, rfl⟩ := hline
    rw [List.append_assoc, lineSlug_entry, lineSlug_entry]
    exact worktreeSlug_return path
  · have hreturn : ¬"worktree ".toList <+: line ++ ['\r'] := by
      intro h
      rcases List.prefix_concat_iff.mp h with h | h
      · have hlast := congrArg List.getLast? h
        rw [List.getLast?_concat] at hlast
        revert hlast
        decide
      · exact hline h
    rw [lineSlug_of_other hline, lineSlug_of_other hreturn]

/-- Line by line. -/
theorem liveWorktreeSlugs_eq :
    liveWorktreeSlugs lower stdout = (stdout.splitOn '\n').filterMap (lineSlug lower) := by
  rw [← filterMap_lines (lineSlug_of_other (by decide)) lineSlug_return]
  refine List.filterMap_congr fun line _ => ?_
  rw [lineSlug]
  cases stripPrefix "worktree ".toList line with
  | none => rfl
  | some rest => exact (slugFromToplevel_trim rest).symm

@[simp]
theorem liveWorktreeSlugs_nil : liveWorktreeSlugs lower [] = [] := rfl

theorem liveWorktreeSlugs_append (text rest : Chars) :
    liveWorktreeSlugs lower (text ++ '\n' :: rest) =
      liveWorktreeSlugs lower text ++ liveWorktreeSlugs lower rest := by
  rw [liveWorktreeSlugs_eq, List.splitOn_append_cons_self, List.filterMap_append,
    liveWorktreeSlugs_eq, liveWorktreeSlugs_eq]

theorem liveWorktreeSlugs_line (hline : '\n' ∉ line) :
    liveWorktreeSlugs lower line = (lineSlug lower line).toList := by
  rw [liveWorktreeSlugs_eq, List.splitOn_eq_singleton hline]
  cases h : lineSlug lower line with
  | none => simp [h]
  | some slug => simp [h]

/-- The lines with the attributes of a worktree show nothing. -/
theorem liveWorktreeSlugs_attributes {attributes : List Chars}
    (h : ∀ line ∈ attributes, '\n' ∉ line ∧ ¬"worktree ".toList <+: line) (rest : Chars) :
    liveWorktreeSlugs lower (attributes.flatMap (· ++ ['\n']) ++ rest) =
      liveWorktreeSlugs lower rest := by
  induction attributes with
  | nil => rfl
  | cons line attributes ih =>
    obtain ⟨hline, hprefix⟩ := h line List.mem_cons_self
    have htail := ih fun line hmem => h line (List.mem_cons_of_mem _ hmem)
    rw [List.flatMap_cons, List.append_assoc, List.append_assoc, List.singleton_append,
      liveWorktreeSlugs_append, liveWorktreeSlugs_line hline, lineSlug_of_other hprefix, htail]
    rfl

theorem liveWorktreeSlugs_path (path : Chars) :
    liveWorktreeSlugs lower ("worktree ".toList ++ path) =
      (shownPaths path).filterMap (worktreeSlug lower) := by
  have hstart : '\n' ∉ "worktree ".toList := by decide
  obtain ⟨first, rest, hpath⟩ := List.exists_cons_of_ne_nil (List.splitOn_ne_nil '\n' path)
  have hlines : ("worktree ".toList ++ path).splitOn '\n' = ("worktree ".toList ++ first) :: rest := by
    rw [splitOn_append_of_notMem hstart, hpath, List.modifyHead_cons]
  rw [liveWorktreeSlugs_eq, hlines, List.filterMap_cons, lineSlug_entry, shownPaths, hpath,
    List.filterMap_cons, List.filterMap_filterMap]
  rfl

theorem mem_liveWorktreeSlugs_porcelain :
    slug ∈ liveWorktreeSlugs lower (porcelain worktrees) ↔ Shown lower worktrees slug := by
  induction worktrees with
  | nil =>
    have hnone : ¬Shown lower [] slug := by
      rintro ⟨w, hw, -⟩
      cases hw
    exact iff_of_false List.not_mem_nil hnone
  | cons w worktrees ih =>
    have hentry : liveWorktreeSlugs lower (porcelain (w :: worktrees)) =
        (shownPaths w.path).filterMap (worktreeSlug lower) ++
          liveWorktreeSlugs lower (porcelain worktrees) := by
      rw [porcelain, List.flatMap_cons, List.append_assoc, List.cons_append,
        liveWorktreeSlugs_append, liveWorktreeSlugs_path, List.append_assoc,
        liveWorktreeSlugs_attributes w.lines, List.singleton_append]
      exact congrArg _ (liveWorktreeSlugs_append [] _)
    rw [hentry, List.mem_append, ih, List.mem_filterMap]
    constructor
    · rintro (hhead | ⟨w', hw', hshown⟩)
      · exact ⟨w, List.mem_cons_self, hhead⟩
      · exact ⟨w', List.mem_cons_of_mem w hw', hshown⟩
    · rintro ⟨w', hw', hshown⟩
      rcases List.mem_cons.mp hw' with rfl | hw'
      · exact Or.inl hshown
      · exact Or.inr ⟨w', hw', hshown⟩

/-- A git that fails shows nothing. -/
theorem mem_liveWorktreeSlugs (hgit : GitLists worktrees succeeds stdout) :
    slug ∈ liveWorktreeSlugs lower stdout ↔ succeeds = true ∧ Shown lower worktrees slug := by
  cases succeeds with
  | true => rw [hgit.listed rfl, mem_liveWorktreeSlugs_porcelain, and_iff_right rfl]
  | false =>
    rw [hgit.failed rfl]
    exact iff_of_false List.not_mem_nil fun h => absurd h.1 Bool.false_ne_true

theorem shownPaths_of_notMem (h : '\n' ∉ path) : shownPaths path = [path] := by
  rw [shownPaths, List.splitOn_eq_singleton h]
  rfl

theorem shown_of_mem (hw : w ∈ worktrees) (hline : '\n' ∉ w.path)
    (hslug : worktreeSlug lower w.path = some slug) : Shown lower worktrees slug := by
  refine ⟨w, hw, w.path, ?_, hslug⟩
  rw [shownPaths_of_notMem hline]
  exact List.mem_singleton_self _

theorem mem_pruneWorktreeDbs : (name, slug) ∈ pruneWorktreeDbs lower allDbs baseDb stdout ↔
    (∃ db ∈ allDbs, db.name = name) ∧ name = dbNamePrefix baseDb ++ slug ∧
      slug ∉ liveWorktreeSlugs lower stdout := by
  simp only [pruneWorktreeDbs, orphanedWorktreeDbs, List.mem_filterMap, List.mem_map]
  constructor
  · rintro ⟨_, hdb, h⟩
    split at h
    · cases h
    · rename_i hprefix
      split at h
      · cases h
      · rename_i hslug
        cases h
        exact ⟨hdb, stripPrefix_eq_some.mp hprefix, hslug⟩
  · rintro ⟨hdb, hname, hslug⟩
    refine ⟨name, hdb, ?_⟩
    rw [stripPrefix_eq_some.mpr hname]
    exact if_neg hslug

theorem deriveDbName_eq (baseDb slug : Chars) :
    deriveDbName baseDb slug = dbNamePrefix baseDb ++ slug.take (remaining baseDb) := by
  rw [deriveDbName, Nat.min_comm, ← List.take_eq_take_min]

theorem utf8Len_append (s t : Chars) : utf8Len (s ++ t) = utf8Len s + utf8Len t := by
  simp [utf8Len]

theorem length_le_utf8Len (s : Chars) : s.length ≤ utf8Len s := by
  induction s with
  | nil => exact Nat.le_refl _
  | cons c s ih =>
    have hc := Char.utf8Size_pos c
    simp only [utf8Len, List.map_cons, List.sum_cons, List.length_cons] at ih ⊢
    omega

/-- A slug that is in the name of a database fits. -/
theorem length_le_remaining (db : DatabaseName) (h : db.name = dbNamePrefix baseDb ++ slug) :
    slug.length ≤ remaining baseDb := by
  have hlen := db.len
  have hslug := length_le_utf8Len slug
  rw [h, utf8Len_append] at hlen
  unfold remaining
  omega

theorem isLive_of_mem (db : DatabaseName) (hw : w ∈ worktrees)
    (hslug : worktreeSlug lower w.path = some slug) (hname : db.name = dbNamePrefix baseDb ++ slug) :
    IsLive lower baseDb worktrees db.name := by
  refine ⟨w, hw, slug, hslug, ?_⟩
  rw [deriveDbName_eq, List.take_of_length_le (length_le_remaining db hname), hname]

theorem fit_of_spares (hgit : GitLists worktrees succeeds stdout)
    (h : Spares lower allDbs baseDb worktrees stdout) : Fit lower allDbs baseDb worktrees succeeds := by
  constructor
  · intro w hw slug hslug hdb
    by_contra hcut
    have hmem : slug.take (remaining baseDb) ∉ liveWorktreeSlugs lower stdout := by
      rw [mem_liveWorktreeSlugs hgit]
      exact fun ⟨hsucceeds, hshown⟩ => hcut ⟨hsucceeds, Or.inr hshown⟩
    have hdropped : (deriveDbName baseDb slug, slug.take (remaining baseDb)) ∈
        pruneWorktreeDbs lower allDbs baseDb stdout :=
      mem_pruneWorktreeDbs.mpr ⟨hdb, deriveDbName_eq baseDb slug, hmem⟩
    exact h.live hdropped ⟨w, hw, slug, hslug, rfl⟩
  · intro hsucceeds w hw _ path hpath slug hslug db hdb hname
    by_contra hlive
    obtain ⟨slug', hdropped⟩ := h.others hdb ⟨slug, hname.symm⟩ hlive
    obtain ⟨-, hname', hmem⟩ := mem_pruneWorktreeDbs.mp hdropped
    obtain rfl : slug = slug' := List.append_cancel_left (hname.symm.trans hname')
    exact hmem ((mem_liveWorktreeSlugs hgit).mpr ⟨hsucceeds, w, hw, path, hpath, hslug⟩)

theorem spares_of_fit (hgit : GitLists worktrees succeeds stdout)
    (h : Fit lower allDbs baseDb worktrees succeeds) : Spares lower allDbs baseDb worktrees stdout := by
  constructor
  · rintro name slug' hdropped ⟨w, hw, slug, hslug, rfl⟩
    obtain ⟨hdb, hname, hmem⟩ := mem_pruneWorktreeDbs.mp hdropped
    rw [deriveDbName_eq, List.append_cancel_left_eq] at hname
    obtain ⟨hsucceeds, hshown⟩ := h.live w hw slug hslug hdb
    apply hmem
    rw [mem_liveWorktreeSlugs hgit, ← hname]
    refine ⟨hsucceeds, ?_⟩
    obtain ⟨hline, hfits⟩ | hshown := hshown
    · rw [List.take_of_length_le hfits]
      exact shown_of_mem hw hline hslug
    · exact hshown
  · intro name slug hdropped hname
    obtain ⟨-, heq, -⟩ := mem_pruneWorktreeDbs.mp hdropped
    have hlen := congrArg List.length (hname.symm.trans heq)
    simp [dbNamePrefix] at hlen
  · rintro db hdb ⟨slug, hslug⟩ hlive
    refine ⟨slug, mem_pruneWorktreeDbs.mpr ⟨⟨db, hdb, rfl⟩, hslug.symm, fun hmem => hlive ?_⟩⟩
    obtain ⟨hsucceeds, w, hw, path, hpath, hpathSlug⟩ := (mem_liveWorktreeSlugs hgit).mp hmem
    by_cases hline : '\n' ∈ w.path
    · exact h.others hsucceeds w hw hline path hpath slug hpathSlug db hdb hslug.symm
    · rw [shownPaths_of_notMem hline, List.mem_singleton] at hpath
      subst hpath
      exact isLive_of_mem db hw hpathSlug hslug.symm

/-- Pruning spares the databases of the live worktrees, and drops all others, if and only if
git does not fail and every path and every slug fits. -/
theorem prune_spares_iff (lower : Chars → Chars) (allDbs : List DatabaseName) (baseDb : Chars)
    (worktrees : List GitWorktree) (succeeds : Bool) (stdout : Chars)
    (hgit : GitLists worktrees succeeds stdout) :
    Spares lower allDbs baseDb worktrees stdout ↔ Fit lower allDbs baseDb worktrees succeeds :=
  ⟨fit_of_spares hgit, spares_of_fit hgit⟩

/-- A worktree on a branch of its own name. -/
def worktree (name : Chars) (h : '\n' ∉ name) : GitWorktree where
  path := "/r/.claude/worktrees/".toList ++ name
  attributes := ["branch refs/heads/".toList ++ name]
  lines := by
    intro line hline
    rw [List.mem_singleton.mp hline, List.mem_append, not_or]
    exact ⟨⟨by decide, h⟩, fun hprefix => by cases hprefix with | intro t ht => cases ht⟩

/-- Two worktrees, one with a database, and a database that is left of a third one. -/
theorem prune_spares_iff_two :
    Spares (fun s => s) [⟨"epistl_wt_a".toList, by decide⟩, ⟨"epistl_wt_c".toList, by decide⟩]
        "epistl".toList [worktree ['a'] (by decide), worktree ['b'] (by decide)]
        (porcelain [worktree ['a'] (by decide), worktree ['b'] (by decide)]) ↔
      Fit (fun s => s) [⟨"epistl_wt_a".toList, by decide⟩, ⟨"epistl_wt_c".toList, by decide⟩]
        "epistl".toList [worktree ['a'] (by decide), worktree ['b'] (by decide)] true :=
  prune_spares_iff (fun s => s) _ _ _ true _ ⟨fun _ => rfl, nofun⟩

/-- A worktree whose name has 54 letters, one more than fit after `epistl_wt_`. -/
theorem prune_drops_live : ∃ db : DatabaseName,
    ¬Spares (fun s => s) [db] "epistl".toList [worktree (List.replicate 54 'a') (by decide)]
      (porcelain [worktree (List.replicate 54 'a') (by decide)]) := by
  refine ⟨⟨"epistl_wt_".toList ++ List.replicate 53 'a', by decide⟩, fun h => ?_⟩
  have hdropped : ("epistl_wt_".toList ++ List.replicate 53 'a', List.replicate 53 'a') ∈
      pruneWorktreeDbs (fun s => s) [⟨"epistl_wt_".toList ++ List.replicate 53 'a', by decide⟩]
        "epistl".toList (porcelain [worktree (List.replicate 54 'a') (by decide)]) := by
    decide
  exact h.live hdropped ⟨worktree (List.replicate 54 'a') (by decide), List.mem_singleton_self _,
    List.replicate 54 'a', by decide, by decide⟩

end Epistl.Worktree
