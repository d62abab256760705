import Mathlib.Data.List.Forall2
import Mathlib.Data.List.Nodup
import Mathlib.Data.List.Perm.Subperm

/-! # Logs matched with their origins

Every entry of one log stems from an entry of another one. While no two entries stem from
one origin, the first log is part of the second, in some order.
-/
namespace Epistl
variable {α β κ : Type*} {xs ys : List α} {es : List β} {label : ℕ → κ} {key : β → κ}

/-- Entry by entry: an origin in `ys` that carries the key of the entry as its label. -/
def Stems (ys : List α) (label : ℕ → κ) (key : β → κ) (x : α) (e : β) : Prop :=
  ∃ i, ys[i]? = some x ∧ label i = key e

theorem exists_getElem? {R : α → β → Prop} {e : β} {i : ℕ} (h : List.Forall₂ R xs es)
    (he : es[i]? = some e) : ∃ x, xs[i]? = some x ∧ R x e := by
  induction h generalizing i with
  | nil => cases he
  | cons hxe _ ih =>
    cases i with
    | zero =>
      cases he
      exact ⟨_, rfl, hxe⟩
    | succ i => exact ih he

/-- A log of origins that grows keeps the entries it has. -/
theorem Stems.append {x : α} {e : β} (h : Stems ys label key x e) {label' : ℕ → κ} (more : List α)
    (hlabel : ∀ i, i < ys.length → label' i = label i) : Stems (ys ++ more) label' key x e := by
  obtain ⟨i, hi, hkey⟩ := h
  have hlt := (List.getElem?_eq_some_iff.mp hi).1
  exact ⟨i, (List.getElem?_append_left hlt).trans hi, (hlabel i hlt).trans hkey⟩

theorem exists_origins (h : List.Forall₂ (Stems ys label key) xs es) :
    ∃ origins : List (α × ℕ), origins.map Prod.fst = xs ∧
      origins.map (fun o => label o.2) = es.map key ∧ origins ⊆ ys.zipIdx := by
  induction h with
  | nil => exact ⟨[], rfl, rfl, List.nil_subset _⟩
  | @cons x e xs es hx _ ih =>
    obtain ⟨i, hi, hlabel⟩ := hx
    obtain ⟨origins, hfst, hlabels, hsub⟩ := ih
    refine ⟨(x, i) :: origins, congrArg (x :: ·) hfst, ?_, ?_⟩
    · rw [List.map_cons, List.map_cons, hlabels, hlabel]
    · exact List.cons_subset.mpr ⟨List.mem_zipIdx_iff_getElem?.mpr hi, hsub⟩

theorem subperm_of_stems (h : List.Forall₂ (Stems ys label key) xs es) (hkeys : (es.map key).Nodup) :
    xs.Subperm ys := by
  obtain ⟨origins, rfl, hlabels, hsub⟩ := exists_origins h
  rw [← hlabels] at hkeys
  obtain ⟨chosen, hperm, hsublist⟩ := List.subperm_of_subset hkeys.of_map hsub
  refine ⟨chosen.map Prod.fst, hperm.map _, ?_⟩
  have hfst := hsublist.map Prod.fst
  rwa [List.zipIdx_map_fst] at hfst

end Epistl
