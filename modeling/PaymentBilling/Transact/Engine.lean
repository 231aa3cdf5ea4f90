import PaymentBilling.Transact.Prog

/-!
# Transact.Engine

A transactional store under READ COMMITTED, in general form.

An `Engine` says what its statements compute.  A transaction is the list of
its uncommitted writes together with the locks it holds: a statement reads the
*view* of its transaction — its own writes on top of the database committed
right now — and adds its writes and locks to it, and a commit applies the
writes to the committed database.  Nothing else of a transaction is visible to
the others, but its locks keep them out until it ends.

A `Discipline` is what makes interleaving sound: the part of the database each
lock protects (`same`), what no write ever undoes (`le`), the constraints of
the store (`valid`) and when a write respects them (`fits`).
-/

namespace Transact

/-- An open transaction: its writes so far, oldest first, and its locks. -/
structure Tx (ω ℓ : Type) where
  writes : List ω := []
  held : List ℓ := []

/-- The locks held by a stack of open transactions. -/
def heldBy {ω ℓ : Type} (stack : List (Tx ω ℓ)) : List ℓ := stack.flatMap Tx.held

@[simp] theorem heldBy_nil {ω ℓ : Type} : heldBy ([] : List (Tx ω ℓ)) = [] := rfl

@[simp] theorem heldBy_cons {ω ℓ : Type} (t : Tx ω ℓ) (ts : List (Tx ω ℓ)) :
    heldBy (t :: ts) = t.held ++ heldBy ts := rfl

/-- What the environment decides about one action: it takes place under the
circumstances `env`, or it fails with a message and has no effect. -/
inductive Choice (η : Type)
  | go (env : η)
  | fail (message : String)

/-- The meaning of the statements `S` over databases `σ`.  A statement answers
with a value and the writes it makes, or with an error and no write; `claims`
are the locks it takes besides those of its writes. -/
structure Engine (S : Type → Type) (σ ω ℓ ε η : Type) where
  exec : {β : Type} → S β → η → σ → Except ε (β × List ω)
  claims : {β : Type} → S β → σ → List ℓ
  apply : ω → σ → σ
  locks : ω → List ℓ
  fault : String → ε

/-- What a statement did: its answer, the transactions and the committed
database after it, and the locks it had to take. -/
structure Outcome (σ ω ℓ ε β : Type) where
  answer : Except ε β
  stack : List (Tx ω ℓ)
  db : σ
  took : List ℓ

variable {S : Type → Type} {σ ω ℓ ε η α β : Type}

namespace Engine

variable (E : Engine S σ ω ℓ ε η)

/-- Apply writes in order. -/
def applyAll (ws : List ω) (db : σ) : σ := ws.foldl (fun db w => E.apply w db) db

@[simp] theorem applyAll_nil (db : σ) : E.applyAll [] db = db := rfl

@[simp] theorem applyAll_cons (w : ω) (ws : List ω) (db : σ) :
    E.applyAll (w :: ws) db = E.applyAll ws (E.apply w db) := rfl

theorem applyAll_append (ws ws' : List ω) (db : σ) :
    E.applyAll (ws ++ ws') db = E.applyAll ws' (E.applyAll ws db) := by
  simp [applyAll, List.foldl_append]

/-- What a transaction sees: its own writes over the committed database. -/
def view (t : Tx ω ℓ) (db : σ) : σ := E.applyAll t.writes db

/-- The locks a statement needs when it sees `db` and makes the writes `ws`. -/
def needs (s : S β) (db : σ) (ws : List ω) : List ℓ := E.claims s db ++ ws.flatMap E.locks

variable [DecidableEq ℓ]

/-- Run one statement.  Outside every transaction its writes commit at once.
Inside one they join the transaction; a lock that an enclosing transaction of
the same client holds is never granted, so the statement fails. -/
def run (s : S β) (ch : Choice η) (stack : List (Tx ω ℓ)) (db : σ) : Outcome σ ω ℓ ε β :=
  match ch with
  | .fail message => ⟨.error (E.fault message), stack, db, []⟩
  | .go env =>
    match stack with
    | [] =>
      match E.exec s env db with
      | .error e => ⟨.error e, [], db, []⟩
      | .ok (b, ws) => ⟨.ok b, [], E.applyAll ws db, E.needs s db ws⟩
    | t :: ts =>
      match E.exec s env (E.view t db) with
      | .error e => ⟨.error e, t :: ts, db, []⟩
      | .ok (b, ws) =>
        let took := E.needs s (E.view t db) ws
        if took.any (· ∈ heldBy ts) then ⟨.error (E.fault "deadlock"), t :: ts, db, []⟩
        else ⟨.ok b, ⟨t.writes ++ ws, t.held ++ took⟩ :: ts, db, took⟩

/-- A statement inside a transaction changes nothing that is committed. -/
theorem run_db_cons (s : S β) (ch : Choice η) (t : Tx ω ℓ) (ts : List (Tx ω ℓ)) (db : σ) :
    (E.run s ch (t :: ts) db).db = db := by
  cases ch with
  | fail m => rfl
  | go env =>
      cases hx : E.exec s env (E.view t db) with
      | error e => simp only [run, hx]
      | ok r =>
          simp only [run, hx]
          split <;> rfl

end Engine

/-! ## What locks protect -/

/-- The facts that make locks worth holding.  `same ℓ` relates databases that
agree on what `ℓ` protects: a write changes only what its own locks protect,
and fits a database as long as its locks are held.  `le` is what survives every
write of every client. -/
structure Discipline (E : Engine S σ ω ℓ ε η) where
  same : ℓ → σ → σ → Prop
  le : σ → σ → Prop
  valid : σ → Prop
  fits : ω → σ → Prop
  same_refl : ∀ ℓ db, same ℓ db db
  same_trans : ∀ {ℓ db₁ db₂ db₃}, same ℓ db₁ db₂ → same ℓ db₂ db₃ → same ℓ db₁ db₃
  le_refl : ∀ db, le db db
  le_trans : ∀ {db₁ db₂ db₃}, le db₁ db₂ → le db₂ db₃ → le db₁ db₃
  same_apply : ∀ {ℓ w} db, ℓ ∉ E.locks w → same ℓ db (E.apply w db)
  apply_same : ∀ {ℓ db₁ db₂} w, same ℓ db₁ db₂ → same ℓ (E.apply w db₁) (E.apply w db₂)
  le_apply : ∀ w db, le db (E.apply w db)
  apply_le : ∀ {w db₁ db₂}, fits w db₁ → fits w db₂ → le db₁ db₂ →
    le (E.apply w db₁) (E.apply w db₂)
  fits_of_same : ∀ {w db₁ db₂}, (∀ ℓ ∈ E.locks w, same ℓ db₁ db₂) → le db₁ db₂ →
    fits w db₁ → fits w db₂
  valid_apply : ∀ {w db}, fits w db → valid db → valid (E.apply w db)
  exec_fits : ∀ {β} {s : S β} {env db b ws}, valid db → E.exec s env db = .ok (b, ws) →
    ws.foldr (fun w rest db => fits w db ∧ rest (E.apply w db)) (fun _ => True) db

namespace Discipline

variable {E : Engine S σ ω ℓ ε η} (D : Discipline E)

/-- Each write fits the database that the ones before it leave. -/
def fitsAll : List ω → σ → Prop
  | [], _ => True
  | w :: ws, db => D.fits w db ∧ fitsAll ws (E.apply w db)

theorem fitsAll_append {ws ws' : List ω} {db : σ} :
    D.fitsAll (ws ++ ws') db ↔ D.fitsAll ws db ∧ D.fitsAll ws' (E.applyAll ws db) := by
  induction ws generalizing db with
  | nil => simp [fitsAll]
  | cons w ws ih => simp [fitsAll, ih, and_assoc]

theorem fitsAll_of_exec {s : S β} {env : η} {db : σ} {b : β} {ws : List ω} (hv : D.valid db)
    (h : E.exec s env db = .ok (b, ws)) : D.fitsAll ws db := by
  have hf := D.exec_fits hv h
  clear h hv
  induction ws generalizing db with
  | nil => trivial
  | cons w ws ih => exact ⟨hf.1, ih hf.2⟩

theorem same_applyAll {ℓ : ℓ} {ws : List ω} (h : ∀ w ∈ ws, ℓ ∉ E.locks w) (db : σ) :
    D.same ℓ db (E.applyAll ws db) := by
  induction ws generalizing db with
  | nil => exact D.same_refl _ _
  | cons w ws ih =>
      rw [List.forall_mem_cons] at h
      exact D.same_trans (D.same_apply db h.1) (ih h.2 _)

theorem applyAll_same {ℓ : ℓ} {db₁ db₂ : σ} (ws : List ω) (h : D.same ℓ db₁ db₂) :
    D.same ℓ (E.applyAll ws db₁) (E.applyAll ws db₂) := by
  induction ws generalizing db₁ db₂ with
  | nil => exact h
  | cons w ws ih => exact ih (D.apply_same w h)

theorem le_applyAll (ws : List ω) (db : σ) : D.le db (E.applyAll ws db) := by
  induction ws generalizing db with
  | nil => exact D.le_refl _
  | cons w ws ih => exact D.le_trans (D.le_apply w db) (ih _)

theorem applyAll_le {ws : List ω} {db₁ db₂ : σ} (h₁ : D.fitsAll ws db₁) (h₂ : D.fitsAll ws db₂)
    (h : D.le db₁ db₂) : D.le (E.applyAll ws db₁) (E.applyAll ws db₂) := by
  induction ws generalizing db₁ db₂ with
  | nil => exact h
  | cons w ws ih => exact ih h₁.2 h₂.2 (D.apply_le h₁.1 h₂.1 h)

/-- Writes keep fitting while the locks they need are held. -/
theorem fitsAll_of_same {ws : List ω} {db₁ db₂ : σ}
    (hsame : ∀ w ∈ ws, ∀ ℓ ∈ E.locks w, D.same ℓ db₁ db₂) (hle : D.le db₁ db₂)
    (h : D.fitsAll ws db₁) : D.fitsAll ws db₂ := by
  induction ws generalizing db₁ db₂ with
  | nil => trivial
  | cons w ws ih =>
      rw [List.forall_mem_cons] at hsame
      have hw : D.fits w db₂ := D.fits_of_same hsame.1 hle h.1
      refine ⟨hw, ih (fun w' hw' ℓ hℓ => ?_) (D.apply_le h.1 hw hle) h.2⟩
      exact D.apply_same w (hsame.2 w' hw' ℓ hℓ)

theorem valid_applyAll {ws : List ω} {db : σ} (hf : D.fitsAll ws db) (hv : D.valid db) :
    D.valid (E.applyAll ws db) := by
  induction ws generalizing db with
  | nil => exact hv
  | cons w ws ih => exact ih hf.2 (D.valid_apply hf.1 hv)

/-- A stack of open transactions over `db` is in order: each holds the locks
of its writes, its writes fit what is committed, and no two of them hold the
same lock. -/
structure StackOk (stack : List (Tx ω ℓ)) (db : σ) : Prop where
  covered : ∀ t ∈ stack, ∀ w ∈ t.writes, ∀ ℓ ∈ E.locks w, ℓ ∈ t.held
  fits : ∀ t ∈ stack, D.fitsAll t.writes db
  apart : stack.Pairwise fun t t' => ∀ ℓ ∈ t.held, ℓ ∉ t'.held

namespace StackOk

variable {D} {t : Tx ω ℓ} {ts : List (Tx ω ℓ)} {db db' : σ}

theorem nil : D.StackOk [] db := ⟨by simp, by simp, .nil⟩

theorem push (h : D.StackOk ts db) : D.StackOk ({} :: ts) db where
  covered := by simpa using h.covered
  fits := by simpa [fitsAll] using h.fits
  apart := by simpa using h.apart

theorem tail (h : D.StackOk (t :: ts) db) : D.StackOk ts db where
  covered := fun t' ht' => h.covered t' (.tail _ ht')
  fits := fun t' ht' => h.fits t' (.tail _ ht')
  apart := (List.pairwise_cons.mp h.apart).2

/-- The stack stays in order while its locks keep the others away. -/
theorem mono (h : D.StackOk ts db) (hsame : ∀ ℓ ∈ heldBy ts, D.same ℓ db db')
    (hle : D.le db db') : D.StackOk ts db' where
  covered := h.covered
  apart := h.apart
  fits t ht := D.fitsAll_of_same
    (fun w hw ℓ hℓ => hsame ℓ (List.mem_flatMap.mpr ⟨t, ht, h.covered t ht w hw ℓ hℓ⟩)) hle
    (h.fits t ht)

/-- A commit changes only what its transaction has locked. -/
theorem same_view (h : D.StackOk (t :: ts) db) {ℓ : ℓ} (hℓ : ℓ ∉ t.held) :
    D.same ℓ db (E.view t db) :=
  D.same_applyAll (fun w hw hl => hℓ (h.covered t (.head _) w hw ℓ hl)) db

theorem same_view_outer (h : D.StackOk (t :: ts) db) : ∀ ℓ ∈ heldBy ts, D.same ℓ db (E.view t db) := by
  intro ℓ hℓ
  obtain ⟨t', ht', hℓ'⟩ := List.mem_flatMap.mp hℓ
  exact h.same_view fun hin => (List.pairwise_cons.mp h.apart).1 t' ht' ℓ hin hℓ'

/-- The enclosing transactions stay in order across the commit of an inner one. -/
theorem commit (h : D.StackOk (t :: ts) db) : D.StackOk ts (E.view t db) :=
  h.tail.mono h.same_view_outer (D.le_applyAll _ _)

theorem valid_view (h : D.StackOk (t :: ts) db) (hv : D.valid db) : D.valid (E.view t db) :=
  D.valid_applyAll (h.fits t (.head _)) hv

end StackOk

theorem le_run_nil [DecidableEq ℓ] (s : S β) (ch : Choice η) (db : σ) :
    D.le db (E.run s ch [] db).db := by
  cases ch with
  | fail m => exact D.le_refl _
  | go env =>
      cases hx : E.exec s env db with
      | error e =>
          simp only [Engine.run, hx]
          exact D.le_refl _
      | ok r =>
          simp only [Engine.run, hx]
          exact D.le_applyAll _ _

/-- What one statement leaves behind, whatever the environment chose. -/
theorem run_ok [DecidableEq ℓ] {s : S β} (ch : Choice η) {stack : List (Tx ω ℓ)} {db : σ}
    (hv : D.valid db) (hs : D.StackOk stack db) :
    D.valid (E.run s ch stack db).db ∧ D.StackOk (E.run s ch stack db).stack (E.run s ch stack db).db ∧
      D.le db (E.run s ch stack db).db ∧
      (∀ ℓ, ℓ ∉ (E.run s ch stack db).took → D.same ℓ db (E.run s ch stack db).db) ∧
      (∀ ℓ ∈ heldBy (E.run s ch stack db).stack,
        ℓ ∈ heldBy stack ∨ ℓ ∈ (E.run s ch stack db).took) := by
  cases ch with
  | fail m => exact ⟨hv, hs, D.le_refl _, fun ℓ _ => D.same_refl ℓ _, fun ℓ hℓ => .inl hℓ⟩
  | go env =>
      cases stack with
      | nil =>
          cases hx : E.exec s env db with
          | error e =>
              simp only [Engine.run, hx]
              exact ⟨hv, .nil, D.le_refl _, fun ℓ _ => D.same_refl ℓ _, by simp⟩
          | ok r =>
              obtain ⟨b, ws⟩ := r
              simp only [Engine.run, hx]
              refine ⟨D.valid_applyAll (D.fitsAll_of_exec hv hx) hv, .nil, D.le_applyAll _ _,
                fun ℓ hℓ => D.same_applyAll (fun w hw hl => hℓ ?_) _, by simp⟩
              exact List.mem_append_right _ (List.mem_flatMap.mpr ⟨w, hw, hl⟩)
      | cons t ts =>
          cases hx : E.exec s env (E.view t db) with
          | error e =>
              simp only [Engine.run, hx]
              exact ⟨hv, hs, D.le_refl _, fun ℓ _ => D.same_refl ℓ _, fun ℓ hℓ => .inl hℓ⟩
          | ok r =>
              obtain ⟨b, ws⟩ := r
              simp only [Engine.run, hx]
              split
              · exact ⟨hv, hs, D.le_refl _, fun ℓ _ => D.same_refl ℓ _, fun ℓ hℓ => .inl hℓ⟩
              · next hfree =>
                simp only [List.any_eq_true, decide_eq_true_eq, not_exists, not_and] at hfree
                refine ⟨hv, ⟨?_, ?_, ?_⟩, D.le_refl _, fun ℓ _ => D.same_refl ℓ _, ?_⟩
                · rw [List.forall_mem_cons]
                  refine ⟨fun w hw ℓ hℓ => ?_, hs.tail.covered⟩
                  rw [List.mem_append] at hw ⊢
                  rcases hw with hw | hw
                  · exact .inl (hs.covered t (.head _) w hw ℓ hℓ)
                  · exact .inr (List.mem_append_right _ (List.mem_flatMap.mpr ⟨w, hw, hℓ⟩))
                · rw [List.forall_mem_cons]
                  exact ⟨D.fitsAll_append.mpr ⟨hs.fits t (.head _),
                    D.fitsAll_of_exec (hs.valid_view hv) hx⟩, hs.tail.fits⟩
                · refine List.pairwise_cons.mpr ⟨fun t' ht' ℓ hℓ hin => ?_, hs.tail.apart⟩
                  rcases List.mem_append.mp hℓ with hℓ | hℓ
                  · exact (List.pairwise_cons.mp hs.apart).1 t' ht' ℓ hℓ hin
                  · exact hfree ℓ hℓ (List.mem_flatMap.mpr ⟨t', ht', hin⟩)
                · intro ℓ hℓ
                  simp only [heldBy_cons, List.mem_append] at hℓ ⊢
                  grind

end Discipline

end Transact
