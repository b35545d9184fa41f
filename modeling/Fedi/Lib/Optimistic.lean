import Mathlib

/-!
# Optimistic transactions

A transaction reads the database as it was when it began, and commits only while the rows that it
writes are still those it read; rows that it only read may have changed (snapshot isolation).

    Inv snapshot, Inv db, Later snapshot db  →  Inv db', Later db db'     (autocommit_keeps)

for every commit of a closure that `Keeps` an invariant and an order of the states.  What a row
held in the snapshot is known of the present row in two ways: the row is written, or `Later` says so.
-/

namespace Optimistic

/-- The writes of single rows of a database. -/
structure Rows (σ ω : Type) where
  write : ω → σ → σ
  /-- The row of a write holds the same in two states. -/
  Same : ω → σ → σ → Prop
  decidableSame : ∀ w db db', Decidable (Same w db db')

/-- The snapshot that a transaction reads, and the attempts it has left. -/
structure Attempt (σ : Type) where
  snapshot : σ
  left : ℕ

inductive Progress (σ ε α : Type) where
  | committed (result : α) (db : σ)
  | retry (attempt : Attempt σ)
  | closureError (e : ε)
  | commitFailed

section

variable {σ ω ε α : Type} (R : Rows σ ω)

def Rows.writeAll (writes : List ω) (db : σ) : σ := writes.foldl (fun db w => R.write w db) db

/-- No row that is written has changed since the snapshot. -/
def Rows.Unchanged (writes : List ω) (snapshot db : σ) : Prop := ∀ w ∈ writes, R.Same w snapshot db

instance (writes : List ω) (snapshot db : σ) : Decidable (R.Unchanged writes snapshot db) := by
  have := R.decidableSame
  unfold Rows.Unchanged
  infer_instance

/-- One attempt: a conflict, or a commit that the database refuses, repeats the closure on the
present database. -/
def autocommit (closure : σ → Except ε (α × List ω)) (refused : Bool) (attempt : Attempt σ) (db : σ) :
    Progress σ ε α :=
  match closure attempt.snapshot with
  | .error e => .closureError e
  | .ok (result, writes) =>
    if R.Unchanged writes attempt.snapshot db ∧ refused = false then .committed result (R.writeAll writes db)
    else if 1 < attempt.left then .retry ⟨db, attempt.left - 1⟩
    else .commitFailed

/-- A closure whose commits keep an invariant, and lead to a later state. -/
def Keeps (Inv : σ → Prop) (Later : σ → σ → Prop) (closure : σ → Except ε (α × List ω)) : Prop :=
  ∀ snapshot db result writes, Inv snapshot → Inv db → Later snapshot db →
    closure snapshot = .ok (result, writes) → R.Unchanged writes snapshot db →
      Inv (R.writeAll writes db) ∧ Later db (R.writeAll writes db)

variable {R} {Inv : σ → Prop} {Later : σ → σ → Prop} {closure : σ → Except ε (α × List ω)}
  {refused : Bool} {attempt : Attempt σ} {db : σ}

@[simp] theorem Rows.writeAll_nil : R.writeAll [] db = db := rfl

@[simp] theorem Rows.writeAll_cons (w : ω) (writes : List ω) :
    R.writeAll (w :: writes) db = R.writeAll writes (R.write w db) := rfl

/-- A commit writes what the closure returned, over rows that are those of the snapshot. -/
theorem autocommit_committed {result : α} {db' : σ}
    (h : autocommit R closure refused attempt db = .committed result db') :
    ∃ writes, closure attempt.snapshot = .ok (result, writes) ∧ R.Unchanged writes attempt.snapshot db ∧
      db' = R.writeAll writes db := by
  unfold autocommit at h
  split at h
  · cases h
  next result' writes hclosure =>
    split at h
    next hunchanged =>
      cases h
      exact ⟨writes, hclosure, hunchanged.1, rfl⟩
    · split at h <;> cases h

/-- A repeated closure reads the present database. -/
theorem autocommit_retry {attempt' : Attempt σ}
    (h : autocommit R closure refused attempt db = .retry attempt') : attempt'.snapshot = db := by
  unfold autocommit at h
  split at h
  · cases h
  · split at h
    · cases h
    · split at h <;> cases h
      rfl

theorem autocommit_keeps (hkeeps : Keeps R Inv Later closure) (hsnapshot : Inv attempt.snapshot) (hdb : Inv db)
    (hlater : Later attempt.snapshot db) {result : α} {db' : σ}
    (h : autocommit R closure refused attempt db = .committed result db') : Inv db' ∧ Later db db' := by
  obtain ⟨writes, hclosure, hunchanged, rfl⟩ := autocommit_committed h
  exact hkeeps attempt.snapshot db result writes hsnapshot hdb hlater hclosure hunchanged

end

end Optimistic
