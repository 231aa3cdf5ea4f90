import Mathlib

/-!
# Transact.Prog

Programs that talk to a transactional store, as a free monad over the
statements they run.  A program runs statements one at a time, opens and
closes transactions, and ends with a value or an error; every statement and
every commit answers, and the continuation decides what to do with the
answer.  Errors propagate through `bind` like exceptions, and `tryCatch`
catches them.

The statement signature `S : Type → Type` and the error type `ε` are
parameters: nothing here knows what the statements mean.
-/

namespace Transact

/-- A program over the statements `S` with errors in `ε`.  `begin` opens a
transaction of its own, nested inside whatever is already open; statements
belong to the innermost open transaction, or commit on their own when none is
open. -/
inductive Prog (S : Type → Type) (ε α : Type) : Type 1
  | ret (r : Except ε α)
  | stmt {β : Type} (s : S β) (next : Except ε β → Prog S ε α)
  | begin (next : Prog S ε α)
  | commit (next : Except ε Unit → Prog S ε α)
  | rollback (next : Prog S ε α)

namespace Prog

variable {S : Type → Type} {ε α β : Type}

/-- Run `p`, then `f` on whatever it ended with, value or error. -/
def andThen : Prog S ε α → (Except ε α → Prog S ε β) → Prog S ε β
  | ret r, f => f r
  | stmt s next, f => stmt s fun r => (next r).andThen f
  | begin next, f => begin (next.andThen f)
  | commit next, f => commit fun r => (next r).andThen f
  | rollback next, f => rollback (next.andThen f)

instance : Monad (Prog S ε) where
  pure a := ret (.ok a)
  bind p f := p.andThen fun
    | .ok a => f a
    | .error e => ret (.error e)

instance : MonadExceptOf ε (Prog S ε) where
  throw e := ret (.error e)
  tryCatch p h := p.andThen fun
    | .ok a => ret (.ok a)
    | .error e => h e

/-- A single statement. -/
def exec (s : S α) : Prog S ε α := stmt s ret

/-- `body` inside a transaction of its own: committed when `body` returns,
rolled back when it throws.  A commit that fails has rolled back. -/
def transaction (body : Prog S ε α) : Prog S ε α :=
  begin <| body.andThen fun
    | .ok a => commit fun
      | .ok () => ret (.ok a)
      | .error e => ret (.error e)
    | .error e => rollback (ret (.error e))

/-- The program has ended. -/
def finished : Prog S ε α → Bool
  | ret _ => true
  | _ => false

theorem pure_def (a : α) : (pure a : Prog S ε α) = ret (.ok a) := rfl

theorem throw_def (e : ε) : (throw e : Prog S ε α) = ret (.error e) := rfl

theorem bind_def (p : Prog S ε α) (f : α → Prog S ε β) :
    p >>= f = p.andThen fun
      | .ok a => f a
      | .error e => ret (.error e) := rfl

theorem tryCatch_def (p : Prog S ε α) (h : ε → Prog S ε α) :
    tryCatch p h = p.andThen fun
      | .ok a => ret (.ok a)
      | .error e => h e := rfl

theorem andThen_assoc {γ : Type} (p : Prog S ε α) (f : Except ε α → Prog S ε β)
    (g : Except ε β → Prog S ε γ) : (p.andThen f).andThen g = p.andThen fun r => (f r).andThen g := by
  induction p with
  | ret r => rfl
  | stmt s k ih => simp only [andThen, ih]
  | begin k ih => simp only [andThen, ih]
  | commit k ih => simp only [andThen, ih]
  | rollback k ih => simp only [andThen, ih]

theorem bind_assoc {γ : Type} (p : Prog S ε α) (f : α → Prog S ε β) (g : β → Prog S ε γ) :
    p >>= f >>= g = p >>= fun a => f a >>= g := by
  rw [bind_def, bind_def, andThen_assoc, bind_def]
  congr 1
  funext r
  cases r <;> rfl

theorem bind_pure (p : Prog S ε α) : p >>= pure = p := by
  rw [bind_def]
  induction p with
  | ret r => cases r <;> rfl
  | stmt s k ih => simp only [andThen, ih]
  | begin k ih => simp only [andThen, ih]
  | commit k ih => simp only [andThen, ih]
  | rollback k ih => simp only [andThen, ih]

theorem pure_bind (a : α) (f : α → Prog S ε β) : pure a >>= f = f a := rfl

end Prog

end Transact
