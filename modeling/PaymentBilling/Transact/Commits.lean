import PaymentBilling.Transact.System

/-!
# Transact.Commits

Programs whose last action is their commit: once it has succeeded they return,
so a program that throws has committed nothing.
-/

namespace Transact

variable {S : Type → Type} {σ ω ℓ ε η α β ι : Type}

/-- The program only runs statements. -/
def Flat : Prog S ε α → Prop
  | .ret _ => True
  | .stmt _ k => ∀ r, Flat (k r)
  | .begin _ => False
  | .commit _ => False
  | .rollback _ => False

/-- A commit that succeeds is the last action, and the program returns. -/
def CommitsLast : Prog S ε α → Prop
  | .ret _ => True
  | .stmt _ k => ∀ r, CommitsLast (k r)
  | .begin k => CommitsLast k
  | .commit k => (∃ a, k (.ok ()) = .ret (.ok a)) ∧ ∀ e, CommitsLast (k (.error e))
  | .rollback k => CommitsLast k

/-! ## Rules -/

theorem flat_pure (a : α) : Flat (pure a : Prog S ε α) := trivial

theorem flat_throw (e : ε) : Flat (throw e : Prog S ε α) := trivial

theorem flat_exec (s : S α) : Flat (Prog.exec s : Prog S ε α) := fun _ => trivial

theorem flat_andThen {p : Prog S ε α} {f : Except ε α → Prog S ε β} (hp : Flat p)
    (hf : ∀ r, Flat (f r)) : Flat (p.andThen f) := by
  induction p with
  | ret r => exact hf r
  | stmt s k ih => exact fun r => ih r (hp r)
  | begin k _ => exact hp.elim
  | commit k _ => exact hp.elim
  | rollback k _ => exact hp.elim

theorem flat_bind {p : Prog S ε α} {f : α → Prog S ε β} (hp : Flat p) (hf : ∀ a, Flat (f a)) :
    Flat (p >>= f) := by
  refine flat_andThen hp fun r => ?_
  cases r with
  | ok a => exact hf a
  | error e => trivial

theorem commitsLast_of_flat {p : Prog S ε α} (h : Flat p) : CommitsLast p := by
  induction p with
  | ret r => trivial
  | stmt s k ih => exact fun r => ih r (h r)
  | begin k _ => exact h.elim
  | commit k _ => exact h.elim
  | rollback k _ => exact h.elim

theorem commitsLast_exec_bind {s : S α} {f : α → Prog S ε β} (hf : ∀ a, CommitsLast (f a)) :
    CommitsLast (Prog.exec s >>= f) := by
  intro r
  cases r with
  | ok a => exact hf a
  | error e => trivial

/-- A transaction of statements ends with its commit. -/
theorem commitsLast_transaction {p : Prog S ε α} (h : Flat p) : CommitsLast (Prog.transaction p) := by
  show CommitsLast (p.andThen _)
  induction p with
  | ret r =>
      cases r with
      | ok a => exact ⟨⟨a, rfl⟩, fun _ => trivial⟩
      | error e => trivial
  | stmt s k ih => exact fun r => ih r (h r)
  | begin k _ => exact h.elim
  | commit k _ => exact h.elim
  | rollback k _ => exact h.elim

/-! ## Runs -/

section Runs

variable [DecidableEq ℓ] [DecidableEq ι] {E : Engine S σ ω ℓ ε η} {s s' : Sys S σ ω ℓ ε α ι}
  {i : ι} {C : Sys S σ ω ℓ ε α ι → ι → Sys S σ ω ℓ ε α ι → Prop}

/-- The step of such a program inside a transaction commits nothing, unless the
program returns. -/
theorem Step.commitsLast (h : Step E s i s') (hlast : CommitsLast (s.clients i).prog) :
    CommitsLast (s'.clients i).prog ∧ ((s.clients i).loc.stack ≠ [] → s'.db ≠ s.db →
      ∃ a, (s'.clients i).prog = .ret (.ok a)) := by
  obtain ⟨ch, c, db, took, hn, -, rfl⟩ := h
  simp only [Function.update_self]
  cases hp : (s.clients i).prog with
  | ret r => simp [Engine.next, hp] at hn
  | stmt t k =>
      rw [hp] at hlast
      simp only [Engine.next, hp, Option.some.injEq, Prod.mk.injEq] at hn
      obtain ⟨rfl, rfl, -⟩ := hn
      refine ⟨hlast _, fun hstack hne => (hne ?_).elim⟩
      cases hc : (s.clients i).loc.stack with
      | nil => exact (hstack hc).elim
      | cons t ts => exact E.run_db_cons ..
  | begin k =>
      rw [hp] at hlast
      simp only [Engine.next, hp, Option.some.injEq, Prod.mk.injEq] at hn
      obtain ⟨rfl, rfl, -⟩ := hn
      exact ⟨hlast, fun _ hne => (hne rfl).elim⟩
  | commit k =>
      rw [hp] at hlast
      obtain ⟨⟨a, ha⟩, herror⟩ := hlast
      simp only [Engine.next, hp, Option.some.injEq, Prod.mk.injEq] at hn
      obtain ⟨rfl, rfl, -⟩ := hn
      cases hanswer : (E.commit ch (s.clients i).loc.stack s.db).answer with
      | ok u =>
          rw [ha]
          exact ⟨trivial, fun _ _ => ⟨a, rfl⟩⟩
      | error e =>
          refine ⟨herror e, fun _ hne => (hne ?_).elim⟩
          cases ch with
          | fail m => cases (s.clients i).loc.stack <;> rfl
          | go env =>
              cases hc : (s.clients i).loc.stack with
              | nil => rfl
              | cons t ts =>
                  rw [hc] at hanswer
                  cases hanswer
  | rollback k =>
      rw [hp] at hlast
      simp only [Engine.next, hp, Option.some.injEq, Prod.mk.injEq] at hn
      obtain ⟨rfl, rfl, -⟩ := hn
      exact ⟨hlast, fun _ hne => (hne rfl).elim⟩

theorem Runs.commitsLast (h : Runs E C s s') (hlast : ∀ i, CommitsLast (s.clients i).prog) (i : ι) :
    CommitsLast (s'.clients i).prog := by
  induction h with
  | refl => exact hlast i
  | @step s₁ s₂ j _ hstep _ ih =>
      by_cases hij : i = j
      · subst hij
        exact (hstep.commitsLast ih).1
      · rw [hstep.other hij]
        exact ih

end Runs

end Transact
