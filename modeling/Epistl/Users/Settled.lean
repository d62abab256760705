import Epistl.Runs.Milestone
import Epistl.Runs.Progress
import Epistl.Users.Discover

/-! # The search keeps up with the text

At most one effect is not cancelled, and it is the last one. So an answer that comes in late
changes nothing, and what is shown at rest belongs to the text in the field.
-/
namespace Epistl.Users
open Machine

/-- How many steps are left. -/
def Search.left : Search → ℕ
  | debouncing => 4
  | sent => 3
  | settled _ => 2
  | handled _ => 1
  | finished _ => 0

namespace Discover

/-- What the current effect `e` has made of the screen. -/
def Live (s : Discover) (e : Effect) : Prop :=
  e.query = s.ran ∧ minQueryLength ≤ s.ran.length ∧
    match e.search with
    | .handled outcome => s.searching = true ∧ s.Shows outcome
    | .finished outcome => s.searching = false ∧ s.Shows outcome
    | _ => s.searching = true

/-- Who may still write to the screen, and what is on it. -/
structure Inv (L : Locale) (caller : Uuid) (s : Discover) : Prop where
  cancelled {i : ℕ} {e : Effect} : s.effects[i]? = some e → e.cancelled = false →
    s.mounted = true ∧ s.current = some i
  live {i : ℕ} : s.mounted = true → s.current = some i →
    ∃ e, s.effects[i]? = some e ∧ e.cancelled = false ∧ s.Live e
  blank : s.mounted = true → s.current = none →
    s.ran.length < minQueryLength ∧ s.searching = false ∧ s.Shows (.users [])
  tables : 0 < s.tables.length
  began : ∀ e ∈ s.effects, e.began < s.tables.length
  answered : ∀ e ∈ s.effects, ∀ outcome, e.search.outcome = some outcome →
    s.Answered L caller e outcome

variable {L : Locale} {caller : Uuid} {s t : Discover} {i : ℕ} {e e' : Effect}

theorem Answered.mono {outcome : Outcome} (h : s.Answered L caller e outcome)
    (hquery : e'.query = e.query) (hbegan : e'.began = e.began) (htables : s.tables <+: t.tables) :
    t.Answered L caller e' outcome := by
  cases outcome with
  | users rows =>
    obtain ⟨query, k, table, hdecoded, hk, htable, hfound⟩ := h
    obtain ⟨later, hlater⟩ := htables
    have hlt := (List.getElem?_eq_some_iff.mp htable).1
    refine ⟨query, k, table, hdecoded.trans hquery.symm, hbegan.le.trans hk, ?_, hfound⟩
    rw [← hlater, List.getElem?_append_left hlt, htable]
  | rateLimited => trivial
  | failed => trivial

theorem shows_display (s : Discover) (outcome : Outcome) : (s.display outcome).Shows outcome := by
  cases outcome <;> exact ⟨rfl, rfl, rfl⟩

theorem Shows.congr {outcome : Outcome} (h : s.Shows outcome) (hresults : t.results = s.results)
    (hlimited : t.rateLimited = s.rateLimited) (herror : t.searchError = s.searchError) :
    t.Shows outcome := by
  cases outcome <;> simpa only [Shows, hresults, hlimited, herror] using h

theorem Live.congr (h : s.Live e) (hran : t.ran = s.ran) (hsearching : t.searching = s.searching)
    (hshows : ∀ outcome, s.Shows outcome → t.Shows outcome) : t.Live e := by
  obtain ⟨hquery, hlength, hsearch⟩ := h
  refine ⟨hran ▸ hquery, hran ▸ hlength, ?_⟩
  rw [hsearching]
  cases hstage : e.search <;> simp only [hstage] at hsearch ⊢
  · exact hsearch
  · exact hsearch
  · exact hsearch
  · exact ⟨hsearch.1, hshows _ hsearch.2⟩
  · exact ⟨hsearch.1, hshows _ hsearch.2⟩

namespace Inv

theorem start (table : Table) (window : FixedWindow.Window) :
    (start table window).Inv L caller where
  cancelled he := by simp [Discover.start] at he
  live _ hcurrent := by cases hcurrent
  blank _ _ := ⟨Nat.zero_lt_succ 2, rfl, rfl, rfl, rfl⟩
  tables := Nat.one_pos
  began e he := by simp [Discover.start] at he
  answered e he := by simp [Discover.start] at he

variable (h : s.Inv L caller)
include h

/-- Only the current effect may still write to the screen. -/
theorem gone (he : s.effects[i]? = some e) (hne : s.current ≠ some i) : e.cancelled = true := by
  cases hc : e.cancelled with
  | true => rfl
  | false => exact absurd (h.cancelled he hc).2 hne

/-- The search of effect `i` goes on. A cancelled effect leaves the screen as it is. -/
theorem put (he : s.effects[i]? = some e) {search : Search}
    (heffects : t.effects = s.effects.set i { e with search := search })
    (hmounted : t.mounted = s.mounted) (hcurrent : t.current = s.current) (hran : t.ran = s.ran)
    (htables : t.tables = s.tables)
    (hlive : e.cancelled = false → s.Live e → t.Live { e with search := search })
    (hquiet : e.cancelled = true → t.searching = s.searching ∧
      ∀ outcome, s.Shows outcome → t.Shows outcome)
    (hanswered : ∀ outcome, search.outcome = some outcome → s.Answered L caller e outcome) :
    t.Inv L caller := by
  have hlt := (List.getElem?_eq_some_iff.mp he).1
  have hmem {e' : Effect} (he' : e' ∈ t.effects) :
      e' ∈ s.effects ∨ e' = { e with search := search } := by
    rw [heffects] at he'
    exact List.mem_or_eq_of_mem_set he'
  refine ⟨fun {j e'} he' hcancelled => ?_, fun {j} hm hj => ?_, fun hm hnone => ?_,
    htables ▸ h.tables, fun e' he' => ?_, fun e' he' outcome houtcome => ?_⟩
  · rw [hmounted, hcurrent]
    rw [heffects] at he'
    by_cases hj : i = j
    · subst hj
      rw [List.getElem?_set_self hlt] at he'
      cases he'
      exact h.cancelled he hcancelled
    · rw [List.getElem?_set_ne hj] at he'
      exact h.cancelled he' hcancelled
  · rw [hmounted] at hm
    rw [hcurrent] at hj
    obtain ⟨e', he', hcancelled, hlive'⟩ := h.live hm hj
    by_cases hij : i = j
    · subst hij
      cases he.symm.trans he'
      refine ⟨{ e with search := search }, ?_, hcancelled, hlive hcancelled hlive'⟩
      rw [heffects, List.getElem?_set_self hlt]
    · have hgone : e.cancelled = true :=
        h.gone he fun hi => hij (Option.some.inj (hi.symm.trans hj))
      refine ⟨e', ?_, hcancelled, hlive'.congr hran (hquiet hgone).1 (hquiet hgone).2⟩
      rw [heffects, List.getElem?_set_ne hij, he']
  · rw [hmounted] at hm
    rw [hcurrent] at hnone
    have hgone : e.cancelled = true := h.gone he fun hi => by cases hi.symm.trans hnone
    obtain ⟨hshort, hidle, hblank⟩ := h.blank hm hnone
    exact ⟨hran ▸ hshort, (hquiet hgone).1.trans hidle, (hquiet hgone).2 _ hblank⟩
  · rw [htables]
    rcases hmem he' with he' | rfl
    · exact h.began e' he'
    · exact h.began e (List.mem_of_getElem? he)
  · have hsame : s.tables <+: t.tables := htables ▸ List.prefix_rfl
    rcases hmem he' with he' | rfl
    · exact (h.answered e' he' outcome houtcome).mono rfl rfl hsame
    · exact (hanswered outcome houtcome).mono rfl rfl hsame

/-- The cleanup cancels what is not cancelled yet. -/
theorem cleanUp : ∃ effects, s.cleanUp = { s with effects := effects } ∧ ∀ e ∈ effects,
    e.cancelled = true ∧ e.began < s.tables.length ∧
      ∀ outcome, e.search.outcome = some outcome → s.Answered L caller e outcome := by
  have hkept {e e' : Effect} (he : e ∈ s.effects) (hbegan : e'.began = e.began)
      (hquery : e'.query = e.query) (hsearch : e'.search = e.search) :
      e'.began < s.tables.length ∧
        ∀ outcome, e'.search.outcome = some outcome → s.Answered L caller e' outcome :=
    ⟨hbegan ▸ h.began e he, fun outcome houtcome =>
      (h.answered e he outcome (hsearch ▸ houtcome)).mono hquery hbegan List.prefix_rfl⟩
  rcases Option.eq_none_or_eq_some s.current with hcurrent | ⟨i, hcurrent⟩
  · have heq : s.cleanUp = s := by simp only [Discover.cleanUp, hcurrent]
    refine ⟨s.effects, heq, fun e he => ⟨?_, hkept he rfl rfl rfl⟩⟩
    obtain ⟨i, hi⟩ := List.getElem?_of_mem he
    exact h.gone hi fun hc => by cases hc.symm.trans hcurrent
  · have heq : s.cleanUp = { s with
        effects := s.effects.modify i fun e => { e with cancelled := true } } := by
      simp only [Discover.cleanUp, hcurrent]
    refine ⟨_, heq, fun e he => ?_⟩
    obtain ⟨j, hj⟩ := List.getElem?_of_mem he
    rw [List.getElem?_modify] at hj
    obtain ⟨e₀, he₀, rfl⟩ := Option.map_eq_some_iff.mp hj
    have hmem := List.mem_of_getElem? he₀
    by_cases hij : i = j
    · rw [if_pos hij]
      exact ⟨rfl, hkept hmem rfl rfl rfl⟩
    · rw [if_neg hij]
      have hgone : e₀.cancelled = true :=
        h.gone he₀ fun hj => hij (Option.some.inj (hcurrent.symm.trans hj))
      exact ⟨hgone, hkept hmem rfl rfl rfl⟩

/-- The effect runs for a new text. -/
theorem runEffect (hmounted : s.mounted = true) : s.cleanUp.runEffect.Inv L caller := by
  obtain ⟨effects, heq, heffects⟩ := h.cleanUp
  rw [heq, Discover.runEffect]
  split
  · rename_i hshort
    refine ⟨fun {i e} he hc => ?_, fun {i} _ hcurrent => ?_, fun _ _ => ?_, h.tables,
      fun e he => (heffects e he).2.1, fun e he outcome houtcome => ?_⟩
    · have he : effects[i]? = some e := he
      cases (heffects e (List.mem_of_getElem? he)).1.symm.trans hc
    · cases hcurrent
    · exact ⟨hshort, rfl, rfl, rfl, rfl⟩
    · exact ((heffects e he).2.2 outcome houtcome).mono rfl rfl List.prefix_rfl
  · rename_i hlong
    have htables : 0 < s.tables.length := h.tables
    have hlength : minQueryLength ≤ s.query.length := Nat.not_lt.mp hlong
    refine ⟨fun {i e} he hc => ?_, fun {i} _ hcurrent => ?_, fun _ hcurrent => ?_, h.tables,
      fun e he => ?_, fun e he outcome houtcome => ?_⟩
    · rcases getElem?_concat_cases he with ⟨rfl, -⟩ | he
      · exact ⟨hmounted, rfl⟩
      · cases (heffects e (List.mem_of_getElem? he)).1.symm.trans hc
    · cases hcurrent
      exact ⟨_, List.getElem?_concat_length, rfl, rfl, hlength, rfl⟩
    · cases hcurrent
    · rcases List.mem_append.mp he with he | he
      · exact (heffects e he).2.1
      · cases List.mem_singleton.mp he
        exact Nat.sub_one_lt htables.ne'
    · rcases List.mem_append.mp he with he | he
      · exact ((heffects e he).2.2 outcome houtcome).mono rfl rfl List.prefix_rfl
      · cases List.mem_singleton.mp he
        cases houtcome

theorem timer (he : s.effects[i]? = some e) (hsearch : e.search = .debouncing) :
    (s.put i e .sent).Inv L caller := by
  refine h.put he rfl rfl rfl rfl rfl (fun _ hlive => ?_) (fun _ => ⟨rfl, fun _ hs => hs⟩)
    (fun _ ho => by cases ho)
  obtain ⟨hquery, hlength, hpending⟩ := hlive
  rw [hsearch] at hpending
  exact ⟨hquery, hlength, hpending⟩

/-- The promise of effect `i` settles. -/
theorem settle (he : s.effects[i]? = some e) (hsearch : e.search = .sent) {outcome : Outcome}
    (hanswered : s.Answered L caller e outcome) (window : FixedWindow.Window) :
    Inv L caller { s.put i e (.settled outcome) with window := window } := by
  refine h.put he rfl rfl rfl rfl rfl (fun _ hlive => ?_) (fun _ => ⟨rfl, fun _ hs => hs⟩)
    (fun o ho => ?_)
  · obtain ⟨hquery, hlength, hpending⟩ := hlive
    rw [hsearch] at hpending
    exact ⟨hquery, hlength, hpending⟩
  · cases ho
    exact hanswered

theorem serve {table : Table} {query : String} (he : s.effects[i]? = some e)
    (hsearch : e.search = .sent) (htable : s.tables.getLast? = some table)
    (hdecoded : JsString.ofString query = e.query) (now : ℕ) :
    (s.serve L caller i e table query now).Inv L caller := by
  have hserved : s.Answered L caller e (L.outcome table caller query) := by
    cases houtcome : L.outcome table caller query with
    | users rows =>
      have hlast : s.tables[s.tables.length - 1]? = some table := by
        rw [← List.getLast?_eq_getElem?, htable]
      have hbegan := h.began e (List.mem_of_getElem? he)
      exact ⟨query, _, table, hdecoded, by omega, hlast, Locale.outcome_found houtcome⟩
    | rateLimited => trivial
    | failed => trivial
  have hanswered (acquired : Bool) : s.Answered L caller e
      (if acquired then L.outcome table caller query else .rateLimited) := by
    cases acquired with
    | true => exact hserved
    | false => trivial
  exact h.settle he hsearch (hanswered _) _

theorem handle {outcome : Outcome} (he : s.effects[i]? = some e)
    (hsearch : e.search = .settled outcome) : Inv L caller
      (if e.cancelled then s.put i e (.handled outcome)
        else (s.put i e (.handled outcome)).display outcome) := by
  have hanswered : ∀ o, (Search.handled outcome).outcome = some o → s.Answered L caller e o := by
    intro o ho
    exact h.answered e (List.mem_of_getElem? he) o (hsearch ▸ ho)
  split
  · rename_i hc
    refine h.put he rfl rfl rfl rfl rfl (fun hn => ?_) (fun _ => ⟨rfl, fun _ hs => hs⟩) hanswered
    cases hc.symm.trans hn
  · rename_i hc
    refine h.put he ?_ ?_ ?_ ?_ ?_ (fun _ hlive => ?_) (fun hn => absurd hn hc) hanswered
    · cases outcome <;> rfl
    · cases outcome <;> rfl
    · cases outcome <;> rfl
    · cases outcome <;> rfl
    · cases outcome <;> rfl
    · obtain ⟨hquery, hlength, hpending⟩ := hlive
      rw [hsearch] at hpending
      have hshows := shows_display (s.put i e (.handled outcome)) outcome
      cases outcome <;> exact ⟨hquery, hlength, hpending, hshows⟩

theorem runFinally {outcome : Outcome} (he : s.effects[i]? = some e)
    (hsearch : e.search = .handled outcome) : Inv L caller
      (if e.cancelled then s.put i e (.finished outcome)
        else { s.put i e (.finished outcome) with searching := false }) := by
  have hanswered : ∀ o, (Search.finished outcome).outcome = some o → s.Answered L caller e o := by
    intro o ho
    exact h.answered e (List.mem_of_getElem? he) o (hsearch ▸ ho)
  split
  · rename_i hc
    refine h.put he rfl rfl rfl rfl rfl (fun hn => ?_) (fun _ => ⟨rfl, fun _ hs => hs⟩) hanswered
    cases hc.symm.trans hn
  · rename_i hc
    refine h.put he rfl rfl rfl rfl rfl (fun _ hlive => ?_) (fun hn => absurd hn hc) hanswered
    obtain ⟨hquery, hlength, hpending⟩ := hlive
    rw [hsearch] at hpending
    have hshows : s.Shows outcome := hpending.2
    exact ⟨hquery, hlength, rfl, hshows.congr rfl rfl rfl⟩

theorem write (table : Table) : Inv L caller { s with tables := s.tables ++ [table] } := by
  have hlength : s.tables.length ≤ (s.tables ++ [table]).length := by simp
  refine ⟨h.cancelled, h.live, h.blank, h.tables.trans_le hlength,
    fun e he => (h.began e he).trans_le hlength, fun e he outcome houtcome => ?_⟩
  exact (h.answered e he outcome houtcome).mono rfl rfl (List.prefix_append _ _)

theorem unmount : Inv L caller { s.cleanUp with mounted := false } := by
  obtain ⟨effects, heq, heffects⟩ := h.cleanUp
  rw [heq]
  refine ⟨fun {i e} he hc => ?_, fun {i} hm _ => ?_, fun hm _ => ?_, h.tables,
    fun e he => (heffects e he).2.1, fun e he outcome houtcome => ?_⟩
  · have he : effects[i]? = some e := he
    cases (heffects e (List.mem_of_getElem? he)).1.symm.trans hc
  · cases hm
  · cases hm
  · exact ((heffects e he).2.2 outcome houtcome).mono rfl rfl List.prefix_rfl

theorem step {a : Action} (he : step L caller s a = some t) : t.Inv L caller := by
  cases a with
  | onChangeText text =>
    simp only [Discover.step] at he
    split at he <;> cases he
    exact ⟨h.cancelled, h.live, h.blank, h.tables, h.began, h.answered⟩
  | effect =>
    simp only [Discover.step] at he
    split at he <;> cases he
    rename_i hrun
    exact h.runEffect (Bool.and_eq_true_iff.mp hrun).1
  | timer i =>
    obtain ⟨e, hi, he⟩ := Option.bind_eq_some_iff.mp he
    split at he
    · rename_i hsearch
      split at he <;> cases he
      exact h.timer hi hsearch
    · cases he
  | serve i query now =>
    obtain ⟨e, hi, he⟩ := Option.bind_eq_some_iff.mp he
    obtain ⟨table, htable, he⟩ := Option.bind_eq_some_iff.mp he
    split at he
    · rename_i hsearch
      split at he
      · rename_i hdecoded
        cases he
        exact h.serve hi hsearch htable hdecoded now
      · cases he
    · cases he
  | lose i =>
    obtain ⟨e, hi, he⟩ := Option.bind_eq_some_iff.mp he
    split at he <;> cases he
    rename_i hsearch
    have hanswered : s.Answered L caller e .failed := trivial
    exact h.settle hi hsearch hanswered s.window
  | handle i =>
    obtain ⟨e, hi, he⟩ := Option.bind_eq_some_iff.mp he
    split at he <;> cases he
    rename_i outcome hsearch
    exact h.handle hi hsearch
  | runFinally i =>
    obtain ⟨e, hi, he⟩ := Option.bind_eq_some_iff.mp he
    split at he <;> cases he
    rename_i outcome hsearch
    exact h.runFinally hi hsearch
  | acquire now =>
    cases he
    exact ⟨h.cancelled, h.live, h.blank, h.tables, h.began, h.answered⟩
  | write table =>
    cases he
    exact h.write table
  | unmount =>
    simp only [Discover.step] at he
    split at he <;> cases he
    exact h.unmount

end Inv

theorem inv_of_reach {G : Discover → Action → Prop} (h : (machine L caller).Reach G s) :
    s.Inv L caller := by
  refine h.invariant ?_ fun s a t hs _ he => hs.step he
  rintro _ ⟨table, window, rfl⟩
  exact .start table window

/-- The search is not behind the text. -/
structure Settled (s : Discover) : Prop where
  mounted : s.mounted = true
  ran : s.ran = s.query
  idle : s.searching = false

/-- When nothing is under way, the screen shows what came of the current effect, which ran for
the very text that stands in the field, however the answers of earlier searches came in. -/
theorem settled_answer (h : (machine L caller).Reach anyStep s) (hs : s.Settled) :
    s.query.length < minQueryLength ∧ s.current = none ∧ s.Shows (.users []) ∨
      minQueryLength ≤ s.query.length ∧ ∃ i e outcome, s.current = some i ∧
        s.effects[i]? = some e ∧ e.cancelled = false ∧ e.query = s.query ∧
        e.search = .finished outcome ∧ s.Shows outcome ∧ s.Answered L caller e outcome := by
  have hinv := inv_of_reach h
  rcases Option.eq_none_or_eq_some s.current with hcurrent | ⟨i, hcurrent⟩
  · obtain ⟨hshort, -, hblank⟩ := hinv.blank hs.mounted hcurrent
    exact .inl ⟨hs.ran ▸ hshort, hcurrent, hblank⟩
  · obtain ⟨e, he, hcancelled, hquery, hlength, hsearch⟩ := hinv.live hs.mounted hcurrent
    have hmem := List.mem_of_getElem? he
    rw [hs.ran] at hquery hlength
    rw [hs.idle] at hsearch
    cases hstage : e.search with
    | finished outcome =>
      rw [hstage] at hsearch
      have hanswered := hinv.answered e hmem outcome (by rw [hstage]; rfl)
      exact .inr ⟨hlength, i, e, outcome, hcurrent, he, hcancelled, hquery, hstage, hsearch.2,
        hanswered⟩
    | handled outcome =>
      rw [hstage] at hsearch
      cases hsearch.1
    | _ =>
      rw [hstage] at hsearch
      cases hsearch

/-- The text becomes another one and then the same again, and the answer to the first search
comes in after the last effect began. -/
theorem settled_answer_first : ∃ s : Discover, s.effects.length = 3 ∧ s.results = members.rows ∧
    (s.query.length < minQueryLength ∧ s.current = none ∧ s.Shows (.users []) ∨
      minQueryLength ≤ s.query.length ∧ ∃ i e outcome, s.current = some i ∧
        s.effects[i]? = some e ∧ e.cancelled = false ∧ e.query = s.query ∧
        e.search = .finished outcome ∧ s.Shows outcome ∧ s.Answered ascii 3 e outcome) := by
  obtain ⟨s, h, hs⟩ := Machine.Reach.of_execIf (M := machine ascii 3) (G := anyStep)
    (s := start members ⟨0, 0⟩)
    (p := fun s => decide (s.mounted = true ∧ s.ran = s.query ∧ s.searching = false ∧
      s.effects.length = 3 ∧ s.results = members.rows))
    [.onChangeText (JsString.ofString "a_b"), .effect, .timer 0,
      .onChangeText (JsString.ofString "a_bc"), .effect,
      .onChangeText (JsString.ofString "a_b"), .effect, .lose 0, .handle 0, .runFinally 0,
      .timer 2, .serve 2 "a_b" 0, .handle 2, .runFinally 2] ⟨_, _, rfl⟩ (by decide +kernel)
  obtain ⟨hmounted, hran, hidle, heffects, hresults⟩ := of_decide_eq_true hs
  exact ⟨s, heffects, hresults, settled_answer h ⟨hmounted, hran, hidle⟩⟩

/-! ### The search comes to an end -/

/-- Nobody types, and the screen stays. -/
def Untouched (_ : Discover) : Action → Prop
  | .onChangeText _ => False
  | .unmount => False
  | _ => True

/-- How many steps the screen is behind its text. -/
def behind (s : Discover) : ℕ :=
  if s.ran = s.query then (s.current.bind fun i => s.effects[i]?.map fun e => e.search.left).getD 0
  else 5

theorem behind_put (hran : t.ran = t.query) (hcurrent : t.current = some i)
    (he : t.effects[i]? = some e) : t.behind = e.search.left := by
  rw [behind, if_pos hran, hcurrent, Option.bind_some, he]
  rfl

theorem behind_le (s : Discover) (hran : s.ran = s.query) : s.behind < 5 := by
  rw [behind, if_pos hran]
  cases hcurrent : s.current.bind fun i => s.effects[i]?.map fun e => e.search.left with
  | none => exact Nat.succ_pos 4
  | some n =>
    obtain ⟨i, -, hi⟩ := Option.bind_eq_some_iff.mp hcurrent
    obtain ⟨e, -, rfl⟩ := Option.map_eq_some_iff.mp hi
    cases e.search <;> simp [Search.left]

/-- A screen that is behind its text can make one more step. -/
theorem Inv.onward (h : s.Inv L caller) (hmounted : s.mounted = true) :
    s.Settled ∨ ∃ a t, Untouched s a ∧ Discover.step L caller s a = some t ∧ t.mounted = true ∧
      t.query = s.query ∧ t.behind < s.behind := by
  by_cases hran : s.ran = s.query
  · rcases Option.eq_none_or_eq_some s.current with hcurrent | ⟨i, hcurrent⟩
    · exact .inl ⟨hmounted, hran, (h.blank hmounted hcurrent).2.1⟩
    obtain ⟨e, he, hcancelled, -, -, hsearch⟩ := h.live hmounted hcurrent
    have hlt := (List.getElem?_eq_some_iff.mp he).1
    have hbehind := behind_put hran hcurrent he
    have hput (search : Search) : (s.put i e search).behind = search.left :=
      behind_put (e := { e with search := search }) hran hcurrent (List.getElem?_set_self hlt)
    cases hstage : e.search with
    | debouncing =>
      refine .inr ⟨.timer i, s.put i e .sent, trivial, ?_, hmounted, rfl, ?_⟩
      · simp only [Discover.step, he, Option.bind_some, hstage, hcancelled]
        rfl
      · rw [hput, hbehind, hstage]
        decide
    | sent =>
      refine .inr ⟨.lose i, s.put i e (.settled .failed), trivial, ?_, hmounted, rfl, ?_⟩
      · simp only [Discover.step, he, Option.bind_some, hstage]
      · rw [hput, hbehind, hstage]
        exact Nat.lt_succ_self 2
    | settled outcome =>
      refine .inr ⟨.handle i, (s.put i e (.handled outcome)).display outcome, trivial, ?_, ?_, ?_,
        ?_⟩
      · simp only [Discover.step, he, Option.bind_some, hstage, hcancelled]
        rfl
      · cases outcome <;> exact hmounted
      · cases outcome <;> rfl
      · have hsame : ((s.put i e (.handled outcome)).display outcome).behind =
            (s.put i e (.handled outcome)).behind := by
          cases outcome <;> rfl
        rw [hsame, hput, hbehind, hstage]
        exact Nat.lt_succ_self 1
    | handled outcome =>
      refine .inr ⟨.runFinally i, { s.put i e (.finished outcome) with searching := false },
        trivial, ?_, hmounted, rfl, ?_⟩
      · simp only [Discover.step, he, Option.bind_some, hstage, hcancelled]
        rfl
      · have hsame : behind { s.put i e (.finished outcome) with searching := false } =
            (s.put i e (.finished outcome)).behind := rfl
        rw [hsame, hput, hbehind, hstage]
        exact Nat.one_pos
    | finished outcome =>
      rw [hstage] at hsearch
      exact .inl ⟨hmounted, hran, hsearch.1⟩
  · obtain ⟨effects, heq, -⟩ := h.cleanUp
    have hfields : s.cleanUp.runEffect.mounted = true ∧ s.cleanUp.runEffect.query = s.query ∧
        s.cleanUp.runEffect.ran = s.query := by
      rw [heq, Discover.runEffect]
      split <;> exact ⟨hmounted, rfl, rfl⟩
    refine .inr ⟨.effect, s.cleanUp.runEffect, trivial, ?_, hfields.1, hfields.2.1, ?_⟩
    · have hguard : (s.mounted && s.query != s.ran) = true := by
        simp [hmounted, Ne.symm hran]
      simp only [Discover.step, if_pos hguard]
    · have hlt := behind_le s.cleanUp.runEffect (hfields.2.2.trans hfields.2.1.symm)
      rwa [behind.eq_def s, if_neg hran]

/-- From whatever the user has typed and the server has answered, the screen comes to rest with
nothing more typed: it does not go on searching forever. -/
theorem settled_can (h : (machine L caller).Reach anyStep s) (hmounted : s.mounted = true) :
    (machine L caller).Can Untouched s fun t => t.Settled ∧ t.query = s.query := by
  have hinv := inv_of_reach h
  refine Machine.Can.of_variant (I := fun t : Discover =>
    t.Inv L caller ∧ t.mounted = true ∧ t.query = s.query) behind ?_ ⟨hinv, hmounted, rfl⟩
  rintro t ⟨ht, htmounted, hquery⟩
  rcases ht.onward htmounted with hsettled | ⟨a, u, ha, hstep, humounted, huquery, hlt⟩
  · exact ⟨t, .refl t, .inl ⟨hsettled, hquery⟩⟩
  · exact ⟨u, .single ha hstep, .inr ⟨⟨ht.step hstep, humounted, huquery.trans hquery⟩, hlt⟩⟩

theorem settled_can_first : ∃ s : Discover, s.searching = true ∧
    (machine ascii 3).Can Untouched s fun t => t.Settled ∧ t.query = s.query := by
  obtain ⟨s, h, hs⟩ := Machine.Reach.of_execIf (M := machine ascii 3) (G := anyStep)
    (s := start members ⟨0, 0⟩) (p := fun s => decide (s.searching = true ∧ s.mounted = true))
    [.onChangeText (JsString.ofString "a_b"), .effect] ⟨_, _, rfl⟩ (by decide +kernel)
  obtain ⟨hsearching, hmounted⟩ := of_decide_eq_true hs
  exact ⟨s, hsearching, settled_can h hmounted⟩

end Discover
end Epistl.Users
