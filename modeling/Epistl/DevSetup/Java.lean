import Epistl.Text.Lines
import Epistl.Text.Numeral
import Mathlib.Algebra.Order.Ring.Nat
import Mathlib.Data.List.Infix

/-! # The Java that is installed

`ensure_jdk` of `packages/dev-setup/src/tools/android.rs` looks for a Java of version 17 or later
in what `java -version` prints. A string is the list of its characters.
-/
namespace Epistl.DevSetup
open Text

inductive ToolOutcome where
  | present (message : Chars)
  | absent (message : Chars)
  | installed (message : Chars)
  | guided (message : Chars)
  | skipped (message : Chars)
  | failed (message : Chars)
  deriving Repr, DecidableEq

structure PackageSpec where
  apt : List Chars
  dnf : List Chars
  pacman : List Chars
  brew : List Chars
  brewCask : List Chars

def jdkSpec : PackageSpec where
  apt := ["openjdk-17-jdk".toList]
  dnf := ["java-17-openjdk-devel".toList]
  pacman := ["jdk17-openjdk".toList]
  brew := []
  brewCask := ["temurin@17".toList]

/-- What `ensure_jdk` asks of the machine and of its user. -/
structure Host where
  run : Chars → List Chars → Option Chars
  confirmRequired : Chars → Bool
  installPackages : PackageSpec → Except Chars Unit

def splitWhitespace (s : Chars) : List Chars := (s.splitOnP isWhitespace).filter (· ≠ [])

/-- Without the quotes around it. -/
def unquoted (token : Chars) : Chars := trim (· = '\'') (trim (· = '"') token)

def majorInRange (n : Option ℕ) : Bool := n.any fun n => 17 ≤ n && n < 100

def parseU32 : Chars → Option ℕ := parseUnsigned (2 ^ 32)

def javaMajorOk (versionOutput : Chars) : Bool :=
  (splitWhitespace versionOutput).any fun token =>
    let t := unquoted token
    majorInRange ((splitOnce '.' t).bind fun r => parseU32 r.1) || majorInRange (parseU32 t)

def knownMajors : List Chars :=
  ["17", "18", "19", "20", "21", "22", "23", "24", "25"].map String.toList

def jdkPresent (version : Chars) : Bool :=
  knownMajors.any (fun major => major <:+: version) || javaMajorOk version

def ensureJdk (host : Host) (checkOnly : Bool) : ToolOutcome :=
  match (host.run "java".toList ["-version".toList]).filter jdkPresent with
  | some version => .present ((lines version).head?.getD version)
  | none =>
    if checkOnly then .absent "JDK 17+ not found".toList
    else if host.confirmRequired "JDK 17+ missing (needed for Android builds). Install?".toList then
      match host.installPackages jdkSpec with
      | .ok () => .installed "JDK 17 installed".toList
      | .error e => .failed e
    else .skipped "user declined JDK install".toList

/-- What `java -version` prints: its first line has the version in quotes, as the number `M` or,
up to Java 8, as `1.M`. -/
structure JavaVersion where
  before : Chars
  legacy : Bool
  major : ℕ
  suffix : Chars
  after : Chars
  before_line : '"' ∉ before ∧ '\n' ∉ before
  suffix_line : '"' ∉ suffix ∧ '\n' ∉ suffix
  /-- the digits of the number end there -/
  suffix_head : ∀ c ∈ suffix.head?, c.isDigit = false
  /-- a version that starts with 1 is a legacy one -/
  modern : legacy = false → major ≠ 1

namespace JavaVersion

def text (v : JavaVersion) : Chars :=
  v.before ++ '"' :: (if v.legacy then "1.".toList else []) ++ Nat.toDigits 10 v.major ++ v.suffix ++
    '"' :: v.after

/-- The version is a word of its own, and a dot or the closing quote follows the number. -/
structure StandsAlone (v : JavaVersion) : Prop where
  modern : v.legacy = false
  before : ∀ c ∈ v.before.getLast?, isWhitespace c = true
  suffix : v.suffix.head? = some '.' ∨ v.suffix = [] ∧ ∀ c ∈ v.after.head?, isWhitespace c = true

end JavaVersion

/-- One of the numbers from 17 to 25 is somewhere in the text. -/
def HasDigits (text : Chars) : Prop := ∃ n, 17 ≤ n ∧ n ≤ 25 ∧ Nat.toDigits 10 n <:+: text

/-- A word of the text, without quotes, is a number from 17 to 99 or has one before its first
dot. -/
def HasNumber (text : Chars) : Prop :=
  ∃ word ∈ splitWhitespace text, ∃ n numeral, 17 ≤ n ∧ n < 100 ∧ IsNumeral numeral n ∧
    (unquoted word = numeral ∨ ∃ rest, unquoted word = numeral ++ '.' :: rest)

/-- The text tells the version from others. -/
structure Telling (v : JavaVersion) : Prop where
  old : v.major < 17 → ¬HasDigits v.text ∧ ¬HasNumber v.text
  new : 25 < v.major → HasDigits v.text ∨ HasNumber v.text

theorem hasDigits_iff {text : Chars} :
    knownMajors.any (fun major => major <:+: text) = true ↔ HasDigits text := by
  have hmajors : knownMajors = (List.range' 17 9).map (Nat.toDigits 10) := by decide
  rw [hmajors, List.any_map, List.any_eq_true]
  simp only [Function.comp_apply, decide_eq_true_eq, List.mem_range'_1, HasDigits]
  exact ⟨fun ⟨n, ⟨hle, hlt⟩, h⟩ => ⟨n, hle, by omega, h⟩, fun ⟨n, hle, hle', h⟩ => ⟨n, ⟨hle, by omega⟩, h⟩⟩

theorem majorInRange_parseU32 {s : Chars} :
    majorInRange (parseU32 s) = true ↔ ∃ n, 17 ≤ n ∧ n < 100 ∧ IsNumeral s n := by
  simp only [majorInRange, Option.any_eq_true, Bool.and_eq_true, decide_eq_true_eq, parseU32,
    parseUnsigned_eq_some]
  constructor
  · rintro ⟨n, ⟨hs, -⟩, hle, hlt⟩
    exact ⟨n, hle, hlt, hs⟩
  · rintro ⟨n, hle, hlt, hs⟩
    exact ⟨n, ⟨hs, by omega⟩, hle, hlt⟩

theorem javaMajorOk_iff {text : Chars} : javaMajorOk text = true ↔ HasNumber text := by
  simp only [javaMajorOk, List.any_eq_true, Bool.or_eq_true, majorInRange_parseU32, HasNumber]
  refine exists_congr fun word => and_congr_right fun _ => ?_
  constructor
  · rintro (h | ⟨n, hle, hlt, hs⟩)
    · cases hsplit : splitOnce '.' (unquoted word) with
      | none =>
        rw [hsplit] at h
        cases h
      | some r =>
        obtain ⟨maj, rest⟩ := r
        rw [hsplit, Option.bind_some, majorInRange_parseU32] at h
        obtain ⟨n, hle, hlt, hs⟩ := h
        exact ⟨n, maj, hle, hlt, hs, Or.inr ⟨rest, (splitOnce_eq_some.mp hsplit).1⟩⟩
    · exact ⟨n, _, hle, hlt, hs, Or.inl rfl⟩
  · rintro ⟨n, numeral, hle, hlt, hs, hword | ⟨rest, hword⟩⟩
    · exact Or.inr ⟨n, hle, hlt, hword ▸ hs⟩
    · refine Or.inl ?_
      rw [hword, splitOnce_append hs.dot_notMem, Option.bind_some, majorInRange_parseU32]
      exact ⟨n, hle, hlt, hs⟩

theorem jdkPresent_iff {text : Chars} : jdkPresent text = true ↔ HasDigits text ∨ HasNumber text := by
  rw [jdkPresent, Bool.or_eq_true, hasDigits_iff, javaMajorOk_iff]

theorem ensureJdk_present {host : Host} {version : Chars} {checkOnly : Bool}
    (h : host.run "java".toList ["-version".toList] = some version) :
    (∃ line, ensureJdk host checkOnly = .present line) ↔ jdkPresent version = true := by
  rw [ensureJdk, h, Option.filter_some]
  cases jdkPresent version with
  | true => simp
  | false =>
    simp only [Bool.false_eq_true, if_false, iff_false, not_exists]
    intro line
    split
    · simp
    · split
      · split <;> simp
      · simp

theorem mem_splitWhitespace_append {word before rest : Chars}
    (hbefore : ∀ c ∈ before.getLast?, isWhitespace c = true) (h : word ∈ splitWhitespace rest) :
    word ∈ splitWhitespace (before ++ rest) := by
  cases before using List.reverseRecOn with
  | nil => exact h
  | append_singleton before c =>
    have hc : isWhitespace c = true := hbefore c (by simp)
    rw [splitWhitespace, List.append_assoc, List.singleton_append, List.splitOnP_append_cons _ _ hc,
      List.filter_append]
    exact List.mem_append_right _ h

theorem mem_splitWhitespace_takeWhile {text : Chars}
    (hne : text.takeWhile (fun c => !isWhitespace c) ≠ []) :
    text.takeWhile (fun c => !isWhitespace c) ∈ splitWhitespace text := by
  refine List.mem_filter.mpr ⟨?_, by simpa using hne⟩
  have hword : ∀ c ∈ text.takeWhile (fun c => !isWhitespace c), isWhitespace c = false := by
    intro c hc
    simpa using List.mem_takeWhile_imp hc
  have htext := List.takeWhile_append_dropWhile (p := fun c => !isWhitespace c) (l := text)
  cases hrest : text.dropWhile (fun c => !isWhitespace c) with
  | nil =>
    rw [hrest, List.append_nil] at htext
    rw [htext] at hword ⊢
    rw [List.splitOnP_eq_singleton hword]
    exact List.mem_singleton_self _
  | cons c rest =>
    have hc : isWhitespace c = true := by
      have hhead := List.head_dropWhile_not (fun c => !isWhitespace c) (by simp [hrest] :
        text.dropWhile (fun c => !isWhitespace c) ≠ [])
      simpa [hrest] using hhead
    conv in text.splitOnP _ => rw [← htext, hrest]
    rw [List.splitOnP_append_cons_of_forall_mem hword c hc]
    exact List.mem_cons_self

theorem trim_toDigits {quote : Char} (hquote : quote.isDigit = false) (n : ℕ) (rest : Chars) :
    trim (· = quote) (Nat.toDigits 10 n ++ rest) =
      Nat.toDigits 10 n ++ trimEnd (· = quote) rest := by
  have hdigits : ∀ c ∈ Nat.toDigits 10 n, decide (c = quote) = false := by
    intro c hc
    rw [decide_eq_false_iff_not]
    rintro rfl
    rw [isDigit_of_mem_toDigits hc] at hquote
    cases hquote
  have hhead : (Nat.toDigits 10 n ++ rest).dropWhile (· = quote) = Nat.toDigits 10 n ++ rest := by
    cases hn : Nat.toDigits 10 n with
    | nil => exact absurd hn Nat.toDigits_ne_nil
    | cons c digits =>
      rw [List.cons_append, List.dropWhile_cons_of_neg]
      simp [hdigits c (hn ▸ List.mem_cons_self)]
  rw [trim, hhead, trimEnd_append hdigits]

/-- A number behind a quote, without its quotes. -/
theorem unquoted_quote (n : ℕ) (rest : Chars) :
    unquoted ('"' :: (Nat.toDigits 10 n ++ rest)) =
      Nat.toDigits 10 n ++ trimEnd (· = '\'') (trimEnd (· = '"') rest) := by
  have hquote : trim (· = '"') ('"' :: (Nat.toDigits 10 n ++ rest)) =
      trim (· = '"') (Nat.toDigits 10 n ++ rest) := by
    rw [trim, trim, List.dropWhile_cons_of_pos (by decide)]
  rw [unquoted, hquote, trim_toDigits (by decide), trim_toDigits (by decide)]

theorem isWhitespace_of_isDigit {c : Char} (h : c.isDigit = true) : isWhitespace c = false := by
  obtain ⟨d, hd, rfl, -⟩ := digitChar_of_isDigit h
  have hall : ∀ d < 10, isWhitespace (Nat.digitChar d) = false := by decide
  exact hall d hd

namespace JavaVersion
variable {v : JavaVersion}

theorem hasDigits (hle : 17 ≤ v.major) (hle' : v.major ≤ 25) : HasDigits v.text := by
  refine ⟨v.major, hle, hle', v.before ++ '"' :: (if v.legacy then "1.".toList else []),
    v.suffix ++ '"' :: v.after, ?_⟩
  simp [text, List.append_assoc]

theorem hasNumber (halone : v.StandsAlone) (hle : 17 ≤ v.major) (hlt : v.major < 100) :
    HasNumber v.text := by
  let quoted := '"' :: (Nat.toDigits 10 v.major ++ (v.suffix ++ '"' :: v.after))
  let word := quoted.takeWhile fun c => !isWhitespace c
  have htext : v.text = v.before ++ quoted := by
    simp [text, quoted, halone.modern]
  have hword : word = '"' :: (Nat.toDigits 10 v.major ++
      (v.suffix ++ '"' :: v.after).takeWhile fun c => !isWhitespace c) := by
    have hdigits : ∀ c ∈ Nat.toDigits 10 v.major, (!isWhitespace c) = true := fun c hc => by
      rw [isWhitespace_of_isDigit (isDigit_of_mem_toDigits hc), Bool.not_false]
    change List.takeWhile _ ('"' :: _) = _
    rw [List.takeWhile_cons_of_pos (by decide), List.takeWhile_append_of_pos hdigits]
  refine ⟨word, ?_, v.major, Nat.toDigits 10 v.major, hle, hlt, isNumeral_toDigits _, ?_⟩
  · rw [htext]
    refine mem_splitWhitespace_append halone.before (mem_splitWhitespace_takeWhile ?_)
    exact (hword ▸ List.cons_ne_nil _ _ : word ≠ [])
  · rw [hword, unquoted_quote]
    rcases halone.suffix with hdot | ⟨hsuffix, hafter⟩
    · obtain ⟨suffix, hsuffix⟩ := List.head?_eq_some_iff.mp hdot
      have hmarker (quote : Char) (hquote : '.' ≠ quote) (rest : Chars) :
          trimEnd (· = quote) ('.' :: rest) = '.' :: trimEnd (· = quote) rest :=
        @trimEnd_append _ _ ['.'] rest (by simpa using hquote)
      rw [hsuffix, List.cons_append, List.takeWhile_cons_of_pos (by decide), hmarker _ (by decide),
        hmarker _ (by decide)]
      exact Or.inr ⟨_, rfl⟩
    · have hend : (v.after.takeWhile fun c => !isWhitespace c) = [] := by
        cases hv : v.after with
        | nil => rfl
        | cons c after => simp [hafter c (by simp [hv])]
      rw [hsuffix, List.nil_append, List.takeWhile_cons_of_pos (by decide), hend]
      exact Or.inl (List.append_nil _)

/-- A version that stands alone is found, whatever else is printed. -/
theorem telling (halone : v.StandsAlone) (hle : 17 ≤ v.major) (hlt : v.major < 100) : Telling v :=
  ⟨fun hold => absurd hle (by omega), fun _ => Or.inr (hasNumber halone hle hlt)⟩

end JavaVersion

/-- Java is found exactly when it is new enough if and only if the text tells the version. -/
theorem ensureJdk_iff {host : Host} {v : JavaVersion} {checkOnly : Bool}
    (h : host.run "java".toList ["-version".toList] = some v.text) :
    ((∃ line, ensureJdk host checkOnly = .present line) ↔ 17 ≤ v.major) ↔ Telling v := by
  rw [ensureJdk_present h, jdkPresent_iff]
  constructor
  · intro hclaim
    refine ⟨fun hold => not_or.mp fun hpresent => ?_, fun hnew => hclaim.mpr (by omega)⟩
    exact absurd (hclaim.mp hpresent) (by omega)
  · intro htelling
    constructor
    · intro hpresent
      by_contra hold
      exact not_or.mpr (htelling.old (by omega)) hpresent
    · intro hle
      by_cases hnew : 25 < v.major
      · exact htelling.new hnew
      · exact Or.inl (JavaVersion.hasDigits hle (by omega))

/-- A machine with this Java, on which nothing can be installed. -/
def hostOf (v : JavaVersion) : Host where
  run _ _ := some v.text
  confirmRequired _ := true
  installPackages _ := .error "Linux distro family unknown".toList

def openjdk26 : JavaVersion where
  before := "openjdk version ".toList
  legacy := false
  major := 26
  suffix := ".0.1".toList
  after := " 2026-04-14\nOpenJDK Runtime Environment".toList
  before_line := by decide
  suffix_line := by decide
  suffix_head := by
    rintro c ⟨⟩
    decide
  modern := by decide

theorem ensureJdk_iff_openjdk26 :
    ((∃ line, ensureJdk (hostOf openjdk26) true = .present line) ↔ 17 ≤ openjdk26.major) ↔
      Telling openjdk26 := ensureJdk_iff rfl

/-- Java 8 in its update 172. -/
def java8 : JavaVersion where
  before := "java version ".toList
  legacy := true
  major := 8
  suffix := ".0_172".toList
  after := "\nJava(TM) SE Runtime Environment (build 1.8.0_172-b11)".toList
  before_line := by decide
  suffix_line := by decide
  suffix_head := by
    rintro c ⟨⟩
    decide
  modern := by decide

/-- The update is taken for the version. -/
theorem ensureJdk_java8 : ¬∀ (host : Host) (v : JavaVersion) (checkOnly : Bool),
    host.run "java".toList ["-version".toList] = some v.text →
    ((∃ line, ensureJdk host checkOnly = .present line) ↔ 17 ≤ v.major) := by
  intro h
  have hpresent : jdkPresent java8.text = true := by decide +kernel
  have hmajor := (h (hostOf java8) java8 true rfl).mp ((ensureJdk_present rfl).mpr hpresent)
  exact absurd hmajor (by decide)

end Epistl.DevSetup
