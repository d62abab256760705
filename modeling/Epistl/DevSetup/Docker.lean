import Epistl.Text.Shell

/-! # Docker access

`shell_join` and `run_docker` of `packages/dev-setup/src/tools/docker.rs`. A string is the list
of its characters.
-/
namespace Epistl.DevSetup
open Text Shell

inductive DockerAccess where
  | ambient
  | viaSg
  deriving Repr, DecidableEq

/-- A character of an argument that needs no quotes. -/
def isPlain (c : Char) : Bool := c.isAlphanum || c ∈ "-_./:=@,".toList

/-- `replace('\'', "'\\''")` -/
def escapeQuotes (a : List Char) : List Char :=
  a.flatMap fun c => if c = '\'' then "'\\''".toList else [c]

def shellWord (a : List Char) : List Char :=
  if a.all isPlain then a else '\'' :: escapeQuotes a ++ ['\'']

def shellJoin (args : List (List Char)) : List Char := [' '].intercalate (args.map shellWord)

/-- What `sg docker -c` is given for the arguments. -/
def commandLine (args : List (List Char)) : List Char := "docker ".toList ++ shellJoin args

def runDocker {α : Type*} (runOutput : List Char → List (List Char) → α) (access : DockerAccess)
    (args : List (List Char)) : α :=
  match access with
  | .ambient => runOutput "docker".toList args
  | .viaSg => runOutput "sg".toList ["docker".toList, "-c".toList, commandLine args]

/-- The program with its arguments that a call ends up executing. -/
def executes (program : List Char) (args : List (List Char)) : Option (List (List Char)) :=
  if program = "sg".toList then
    match args with
    | [_, option, line] => if option = "-c".toList then argv line else none
    | _ => none
  else some (program :: args)

theorem literal_of_isPlain {c : Char} (h : isPlain c = true) : Literal c := by
  have hquotes : ∀ d ∈ ['\'', '"', '\\', ' ', '\t', '#'], isPlain d = false := by simp [isPlain]
  have hspecials : ∀ d ∈ specials, isPlain d = false := fun d hd => by
    simpa using List.all_eq_true.mp (show specials.all (fun d => !isPlain d) = true by decide) d hd
  refine ⟨fun hc => ?_, fun hc => ?_⟩
  · rw [hquotes c hc] at h
    cases h
  · rw [hspecials c hc] at h
    cases h

section
variable {r : Reader} {a : List Char}

theorem read_escapeQuotes (h : r.quoting = .single) (hword : r.word.isSome) :
    r.read (escapeQuotes a ++ ['\'']) = some { r.push a with quoting := .unquoted } := by
  induction a generalizing r with
  | nil =>
    obtain ⟨w, hw⟩ := Option.isSome_iff_exists.mp hword
    rw [escapeQuotes, List.flatMap_nil, List.nil_append, Reader.read_close h]
    simp [Reader.push, hw]
  | cons c a ih =>
    rw [escapeQuotes, List.flatMap_cons]
    by_cases hc : c = '\''
    · subst hc
      -- the quotation ends before the quote and goes on after it
      change r.read ('\'' :: '\\' :: '\'' :: '\'' :: (escapeQuotes a ++ ['\''])) = _
      rw [Reader.read_close h, Reader.read_escaped rfl (by decide), Reader.read_open rfl,
        ih rfl rfl]
      simp [Reader.push]
    · rw [if_neg hc, List.singleton_append, List.cons_append, Reader.read_single h hc]
      have hrest := @ih (r.push [c]) h rfl
      rw [Reader.push_push, List.singleton_append] at hrest
      exact hrest

/-- A quoted argument is read as it was, an empty one is not there. -/
theorem read_shellWord (h : r.quoting = .unquoted) :
    r.read (shellWord a) = some (if a = [] then r else r.push a) := by
  unfold shellWord
  split
  · rename_i hplain
    split
    · rename_i ha
      rw [ha, Reader.read_nil]
    · rename_i ha
      exact Reader.read_literal h (fun c hc => literal_of_isPlain (List.all_eq_true.mp hplain c hc)) ha
  · rename_i hplain
    have hne : a ≠ [] := by
      rintro rfl
      exact hplain rfl
    rw [if_neg hne, List.cons_append, Reader.read_open h, read_escapeQuotes rfl rfl]
    simp [Reader.push, ← h]

end

theorem read_shellJoin (ws : List (List Char)) (args : List (List Char)) :
    ((⟨ws, none, .unquoted⟩ : Reader).read (shellJoin args)).map (fun r => (r.quoting, r.delimit.words)) =
      some (.unquoted, ws ++ args.filter (· ≠ [])) := by
  have hword (ws : List (List Char)) (a : List Char) :
      (⟨ws, none, .unquoted⟩ : Reader).read (shellWord a) =
        some ⟨ws, if a = [] then none else some a, .unquoted⟩ := by
    rw [read_shellWord rfl]
    split <;> rfl
  induction args generalizing ws with
  | nil => simp [shellJoin, Reader.delimit]
  | cons a args ih =>
    cases args with
    | nil =>
      simp only [shellJoin, List.map_cons, List.map_nil, List.intercalate_singleton]
      rw [hword]
      by_cases ha : a = [] <;> simp [Reader.delimit, ha]
    | cons b args =>
      simp only [shellJoin, List.map_cons, List.intercalate_cons_cons]
      rw [List.append_assoc, Reader.read_append, hword, Option.bind_some, List.singleton_append,
        Reader.read_blank rfl]
      exact (ih _).trans (by by_cases ha : a = [] <;> simp [ha])

theorem commandLine_eq (args : List (List Char)) :
    commandLine args = "docker".toList ++ ' ' :: shellJoin args := by
  have hblank : "docker ".toList = "docker".toList ++ [' '] := by decide
  change "docker ".toList ++ shellJoin args = _
  rw [hblank, List.append_assoc, List.singleton_append]

/-- The arguments that are not empty reach `docker`. -/
theorem argv_commandLine (args : List (List Char)) :
    argv (commandLine args) = some ("docker".toList :: args.filter (· ≠ [])) := by
  have hdocker : ∀ c ∈ "docker".toList, Literal c :=
    fun c hc => of_decide_eq_true (List.all_eq_true.mp
      (show "docker".toList.all (fun c => decide (Literal c)) = true by decide) c hc)
  have hwords : words (commandLine args) = some ("docker".toList :: args.filter (· ≠ [])) := by
    obtain ⟨r, hr, hquoting⟩ := Option.map_eq_some_iff.mp (read_shellJoin ["docker".toList] args)
    obtain ⟨hquoting, hwords⟩ := Prod.mk.inj hquoting
    have hread : (⟨[], none, .unquoted⟩ : Reader).read (commandLine args) =
        (⟨["docker".toList], none, .unquoted⟩ : Reader).read (shellJoin args) := by
      rw [commandLine_eq, Reader.read_append, Reader.read_literal rfl hdocker (by decide), Option.bind_some,
        Reader.read_blank Reader.push_quoting]
      simp [Reader.delimit, Reader.push]
    rw [hr] at hread
    rw [words, hread]
    simp [hquoting, hwords]
  have hname : ("docker".toList ∉ reservedWords && '=' ∉ "docker".toList) = true := by decide
  rw [argv, hwords, Option.filter_some, if_pos hname]

theorem filter_ne_nil_iff {args : List (List Char)} :
    args.filter (· ≠ []) = args ↔ [] ∉ args := by
  rw [List.filter_eq_self]
  simp only [decide_eq_true_eq]
  exact ⟨fun h hmem => h [] hmem rfl, fun h a ha hnil => h (hnil ▸ ha)⟩

/-- The shell that `sg` starts runs the command of the ambient mode exactly when no argument is
empty. -/
theorem runDocker_viaSg_iff (args : List (List Char)) :
    (argv (commandLine args) = some ("docker".toList :: args) ∧
      runDocker executes .viaSg args = runDocker executes .ambient args) ↔ [] ∉ args := by
  have hambient : runDocker executes .ambient args = some ("docker".toList :: args) := rfl
  have hsg : runDocker executes .viaSg args = argv (commandLine args) := rfl
  rw [hambient, hsg, and_self, argv_commandLine, Option.some.injEq, List.cons.injEq,
    and_iff_right rfl, filter_ne_nil_iff]

/-- An empty argument is lost: `docker inspect ''` becomes `docker inspect`. -/
theorem runDocker_viaSg_ne : ¬∀ args : List (List Char),
    argv (commandLine args) = some ("docker".toList :: args) ∧
      runDocker executes .viaSg args = runDocker executes .ambient args := by
  intro h
  exact absurd (h ["inspect".toList, []]).1 (by decide)

end Epistl.DevSetup
