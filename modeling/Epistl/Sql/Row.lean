import Mathlib.Data.Option.Basic
import Mathlib.Tactic.Common

/-! # A row under READ COMMITTED

A row, or the place in a unique index where one would be, has a committed version and at
most one transaction that is writing it. Every statement reads what is committed when it
takes effect, with the transaction's own writes, and one that has to write waits until no
other transaction is writing: its result is `none` as long as it waits. What another
transaction wrote is looked at again after the wait, because the statement takes effect
after it.
-/
namespace Epistl

/-- `none` is an absent row. The writer is a transaction with the version it leaves. -/
structure Row (τ α : Type*) where
  committed : Option α
  writer : Option (τ × Option α)
  deriving Repr, DecidableEq

namespace Row
variable {τ α : Type*} [DecidableEq τ] {t u : τ} {r r' : Row τ α} {x : α} {v : Option α}
  {p : α → Bool} {f : α → Option α} {affected : Bool}

def absent : Row τ α := ⟨none, none⟩

/-- Another transaction is writing the row. -/
def held (t : τ) (r : Row τ α) : Bool :=
  match r.writer with
  | none => false
  | some (u, _) => decide (u ≠ t)

/-- What a transaction sees: its own version, else the committed one. -/
def visible (t : τ) (r : Row τ α) : Option α :=
  match r.writer with
  | none => r.committed
  | some (u, v) => if u = t then v else r.committed

def write (t : τ) (v : Option α) (r : Row τ α) : Row τ α := { r with writer := some (t, v) }

/-- `INSERT ... ON CONFLICT DO NOTHING`, with the number of rows affected. -/
def insert (t : τ) (x : α) (r : Row τ α) : Option (Row τ α × Bool) :=
  if r.held t then none
  else
    match r.visible t with
    | none => some (r.write t (some x), true)
    | some _ => some (r, false)

/-- `UPDATE` or `DELETE ... WHERE p`, with the number of rows affected. -/
def update (t : τ) (p : α → Bool) (f : α → Option α) (r : Row τ α) : Option (Row τ α × Bool) :=
  match r.visible t with
  | none => some (r, false)
  | some x =>
    if p x = false then some (r, false)
    else if r.held t then none
    else some (r.write t (f x), true)

/-- The end of a transaction. -/
def commit (t : τ) (r : Row τ α) : Row τ α :=
  match r.writer with
  | none => r
  | some (u, v) => if u = t then ⟨v, none⟩ else r

def rollback (t : τ) (r : Row τ α) : Row τ α :=
  match r.writer with
  | none => r
  | some (u, _) => if u = t then ⟨r.committed, none⟩ else r

omit [DecidableEq τ] in
@[simp] theorem committed_write (t : τ) (v : Option α) (r : Row τ α) :
    (r.write t v).committed = r.committed := rfl

omit [DecidableEq τ] in
@[simp] theorem writer_write (t : τ) (v : Option α) (r : Row τ α) :
    (r.write t v).writer = some (t, v) := rfl

theorem held_eq_false : r.held t = false ↔ ∀ u v, r.writer = some (u, v) → u = t := by
  unfold held
  split
  · rename_i hw
    exact ⟨fun _ u v h => (by cases hw.symm.trans h), fun _ => rfl⟩
  · rename_i u v hw
    rw [decide_eq_false_iff_not, not_not]
    constructor
    · rintro rfl u' v' h
      cases hw.symm.trans h
      rfl
    · intro h
      exact h u v hw

theorem held_eq_true (h : r.held t = true) : ∃ u v, r.writer = some (u, v) ∧ u ≠ t := by
  unfold held at h
  split at h
  · cases h
  · rename_i u v hw
    exact ⟨u, v, hw, of_decide_eq_true h⟩

/-- A transaction that is not writing the row sees the committed version. -/
theorem visible_eq_committed (h : ∀ v, r.writer ≠ some (t, v)) : r.visible t = r.committed := by
  unfold visible
  split
  · rfl
  · rename_i u v hw
    rw [if_neg]
    rintro rfl
    exact h v hw

/-- What a transaction sees is committed or its own. -/
theorem visible_eq_some (h : r.visible t = some x) :
    r.committed = some x ∨ r.writer = some (t, some x) := by
  unfold visible at h
  split at h
  · exact .inl h
  · rename_i u v hw
    split at h
    · rename_i hu
      exact .inr (by rw [hw, hu, h])
    · exact .inl h

/-- Only a row that another transaction is writing makes an insertion wait. -/
theorem held_of_insert_eq_none (h : r.insert t x = none) : r.held t = true := by
  unfold insert at h
  split at h
  · assumption
  · split at h
    · cases h
    · cases h

/-- An insertion writes an absent row, or finds a row that is there. -/
theorem insert_eq_some (h : r.insert t x = some (r', affected)) : r.held t = false ∧
    (affected = true ∧ r.visible t = none ∧ r' = r.write t (some x) ∨
      affected = false ∧ r' = r ∧ ∃ y, r.visible t = some y) := by
  unfold insert at h
  split at h
  · cases h
  · rename_i hheld
    refine ⟨Bool.eq_false_iff.mpr hheld, ?_⟩
    split at h
    · rename_i hv
      cases h
      exact .inl ⟨rfl, hv, rfl⟩
    · rename_i y hv
      cases h
      exact .inr ⟨rfl, rfl, y, hv⟩

/-- An update writes a row that is there, or leaves it as it is. -/
theorem update_eq_some (h : r.update t p f = some (r', affected)) :
    (affected = true ∧ r.held t = false ∧ ∃ y, r.visible t = some y ∧ p y = true ∧
        r' = r.write t (f y)) ∨
      affected = false ∧ r' = r ∧ ∀ y, r.visible t = some y → p y = false := by
  unfold update at h
  split at h
  · rename_i hv
    cases h
    exact .inr ⟨rfl, rfl, fun y hy => by cases hv.symm.trans hy⟩
  · rename_i y hv
    split at h
    · rename_i hp
      cases h
      refine .inr ⟨rfl, rfl, fun z hz => ?_⟩
      cases hv.symm.trans hz
      exact hp
    · rename_i hp
      split at h
      · cases h
      · rename_i hheld
        cases h
        exact .inl ⟨rfl, Bool.eq_false_iff.mpr hheld, y, hv, by simpa using hp, rfl⟩

theorem committed_commit (t : τ) (r : Row τ α) :
    (∃ v, r.writer = some (t, v) ∧ (r.commit t).committed = v ∧ (r.commit t).writer = none) ∨
      (∀ v, r.writer ≠ some (t, v)) ∧ r.commit t = r := by
  unfold commit
  split
  · rename_i hw
    exact .inr ⟨fun v hv => (by cases hw.symm.trans hv), rfl⟩
  · rename_i u v hw
    by_cases hu : u = t
    · subst hu
      rw [if_pos rfl]
      exact .inl ⟨v, hw, rfl, rfl⟩
    · rw [if_neg hu]
      refine .inr ⟨fun v' hv' => ?_, rfl⟩
      cases hw.symm.trans hv'
      exact hu rfl

/-- A rollback leaves what is committed. -/
@[simp] theorem committed_rollback (t : τ) (r : Row τ α) :
    (r.rollback t).committed = r.committed := by
  unfold rollback
  split
  · rfl
  · split
    · rfl
    · rfl

theorem writer_rollback (t : τ) (r : Row τ α) :
    (∀ v, (r.rollback t).writer ≠ some (t, v)) ∧
      ∀ u v, (r.rollback t).writer = some (u, v) → r.writer = some (u, v) := by
  unfold rollback
  split
  · rename_i hw
    exact ⟨fun v hv => (by cases hw.symm.trans hv), fun u v hv => hv⟩
  · rename_i u v hw
    by_cases hu : u = t
    · rw [if_pos hu]
      exact ⟨fun v hv => (by cases hv), fun u v hv => (by cases hv)⟩
    · rw [if_neg hu]
      refine ⟨fun v' hv' => ?_, fun u v hv => hv⟩
      cases hw.symm.trans hv'
      exact hu rfl

/-- `r'` is what transaction `t` made of the row: the rows that others are writing stay. -/
def Frame (t : τ) (r r' : Row τ α) : Prop :=
  ∀ u v, u ≠ t → r.writer = some (u, v) ∨ r'.writer = some (u, v) → r' = r

omit [DecidableEq τ] in
theorem Frame.refl (t : τ) (r : Row τ α) : Frame t r r := fun _ _ _ _ => rfl

theorem frame_write (h : r.held t = false) (v : Option α) : Frame t r (r.write t v) := by
  intro u w hu hw
  obtain hw | hw := hw
  · exact absurd (held_eq_false.mp h u w hw) hu
  · cases hw
    exact absurd rfl hu

theorem frame_insert (h : r.insert t x = some (r', affected)) : Frame t r r' := by
  obtain ⟨hheld, ⟨-, -, rfl⟩ | ⟨-, rfl, -⟩⟩ := insert_eq_some h
  · exact frame_write hheld _
  · exact .refl t _

theorem frame_update (h : r.update t p f = some (r', affected)) : Frame t r r' := by
  obtain ⟨-, hheld, y, -, -, rfl⟩ | ⟨-, rfl, -⟩ := update_eq_some h
  · exact frame_write hheld _
  · exact .refl t _

theorem frame_commit (t : τ) (r : Row τ α) : Frame t r (r.commit t) := by
  intro u v hu hw
  obtain ⟨w, hrow, -, hnone⟩ | ⟨-, hsame⟩ := committed_commit t r
  · obtain hw | hw := hw
    · cases hrow.symm.trans hw
      exact absurd rfl hu
    · cases hnone.symm.trans hw
  · exact hsame

theorem frame_rollback (t : τ) (r : Row τ α) : Frame t r (r.rollback t) := by
  unfold rollback
  split
  · exact .refl t _
  · rename_i u v hw
    split
    · rename_i hu
      intro u' v' hu' hw'
      obtain hw' | hw' := hw'
      · cases hw.symm.trans hw'
        exact absurd hu hu'
      · cases hw'
    · exact .refl t _

theorem writer_commit (h : (r.commit t).writer = some (t, v)) : False := by
  obtain ⟨w, -, -, hnone⟩ | ⟨hnot, hsame⟩ := committed_commit t r
  · cases hnone.symm.trans h
  · rw [hsame] at h
    exact hnot v h

end Row

end Epistl
