import PaymentBilling.Transact.System

/-!
# Transact.Rely

A rely/guarantee logic for clients of a transactional store.

A `Protocol` says, for one client, which changes of the committed database it
tolerates from the others (`env`) and which changes it makes itself (`guar`);
all clients share an invariant `I` of the committed database.  `wp` is the
weakest precondition of a program under a protocol: at every action the client
may find any database that the others can have left (`Sees`), and whatever the
environment then decides, the action keeps `I` and the guarantee.  Rows behind
the client's own locks are unchanged in everything it sees.

A `Contract` puts clients together: while they are `apart` — a relation on
their states that the run is required to keep — what one guarantees is what
the others tolerate.  `Contract.runs` then carries `wp` along every run.
-/

set_option linter.unusedSectionVars false

namespace Transact

variable {S : Type → Type} {σ ω ℓ ε η α β ι : Type} [DecidableEq ℓ] {E : Engine S σ ω ℓ ε η}

/-- What a client tolerates and what it guarantees, in each of its states. -/
structure Protocol (D : Discipline E) (I : σ → Prop) where
  env : Local S ω ℓ ε → σ → σ → Prop
  guar : Local S ω ℓ ε → σ → σ → Prop
  env_refl : ∀ c db, env c db db
  env_trans : ∀ {c db₁ db₂ db₃}, env c db₁ db₂ → env c db₂ db₃ → env c db₁ db₃
  guar_refl : ∀ c db, guar c db db

/-- The assertions about how a program ended. -/
abbrev Post (S : Type → Type) (σ ω ℓ ε α : Type) : Type 1 :=
  Except ε α → Local S ω ℓ ε → σ → Prop

namespace Protocol

variable {D : Discipline E} {I : σ → Prop} (P : Protocol D I)

/-- A client in state `c` that left the database at `db` may next find `db'`. -/
structure Sees (c : Local S ω ℓ ε) (db db' : σ) : Prop where
  valid : D.valid db'
  inv : I db'
  stack : D.StackOk c.stack db'
  same : ∀ ℓ ∈ heldBy c.stack, D.same ℓ db db'
  le : D.le db db'
  env : P.env c db db'

theorem Sees.refl {c : Local S ω ℓ ε} {db : σ} (hv : D.valid db) (hi : I db)
    (hs : D.StackOk c.stack db) : P.Sees c db db :=
  ⟨hv, hi, hs, fun ℓ _ => D.same_refl ℓ db, D.le_refl db, P.env_refl c db⟩

theorem Sees.trans {P : Protocol D I} {c : Local S ω ℓ ε} {db₁ db₂ db₃ : σ}
    (h : P.Sees c db₁ db₂) (h' : P.Sees c db₂ db₃) : P.Sees c db₁ db₃ where
  valid := h'.valid
  inv := h'.inv
  stack := h'.stack
  same ℓ hℓ := D.same_trans (h.same ℓ hℓ) (h'.same ℓ hℓ)
  le := D.le_trans h.le h'.le
  env := P.env_trans h.env h'.env

theorem Sees.fits {P : Protocol D I} {c : Local S ω ℓ ε} {db db' : σ} {t : Tx ω ℓ}
    {ts : List (Tx ω ℓ)} (h : P.Sees c db db') (hc : c.stack = t :: ts) : D.fitsAll t.writes db' :=
  h.stack.fits t (by rw [hc]; exact .head _)

/-- An action of a client in state `c` that takes `db` to `db'` is allowed. -/
def Keeps (c : Local S ω ℓ ε) (db db' : σ) : Prop := I db' ∧ P.guar c db db'

theorem keeps_refl {c : Local S ω ℓ ε} {db : σ} (hi : I db) : P.Keeps c db db :=
  ⟨hi, P.guar_refl c db⟩

/-- The weakest precondition of a program: from here, whatever the others and
the environment do, every action is allowed and the end satisfies `Q`. -/
def wp : Prog S ε α → Post S σ ω ℓ ε α → Local S ω ℓ ε → σ → Prop
  | .ret r, Q, c, db => Q r c db
  | .stmt s k, Q, c, db => ∀ db', P.Sees c db db' → ∀ ch,
      P.Keeps c db' (E.run s ch c.stack db').db ∧
        wp (k (E.run s ch c.stack db').answer) Q
          ⟨(E.run s ch c.stack db').stack, .stmt s (E.run s ch c.stack db').answer :: c.trace⟩
          (E.run s ch c.stack db').db
  | .begin k, Q, c, db => ∀ db', P.Sees c db db' →
      wp k Q ⟨{} :: c.stack, .begin :: c.trace⟩ db'
  | .commit k, Q, c, db => ∀ db', P.Sees c db db' → ∀ ch,
      P.Keeps c db' (E.commit ch c.stack db').db ∧
        wp (k (E.commit ch c.stack db').answer) Q
          ⟨(E.commit ch c.stack db').stack, .commit (E.commit ch c.stack db').answer :: c.trace⟩
          (E.commit ch c.stack db').db
  | .rollback k, Q, c, db => ∀ db', P.Sees c db db' →
      wp k Q ⟨c.stack.tail, .rollback :: c.trace⟩ db'

/-! ## Rules for composing programs -/

theorem wp_mono {p : Prog S ε α} {Q Q' : Post S σ ω ℓ ε α} {c : Local S ω ℓ ε} {db : σ}
    (hQ : ∀ r c db, Q r c db → Q' r c db) (h : P.wp p Q c db) : P.wp p Q' c db := by
  induction p generalizing c db with
  | ret r => exact hQ _ _ _ h
  | stmt s k ih => exact fun db' hs ch => ⟨(h db' hs ch).1, ih _ (h db' hs ch).2⟩
  | begin k ih => exact fun db' hs => ih (h db' hs)
  | commit k ih => exact fun db' hs ch => ⟨(h db' hs ch).1, ih _ (h db' hs ch).2⟩
  | rollback k ih => exact fun db' hs => ih (h db' hs)

theorem wp_and {p : Prog S ε α} {Q Q' : Post S σ ω ℓ ε α} {c : Local S ω ℓ ε} {db : σ}
    (h : P.wp p Q c db) (h' : P.wp p Q' c db) : P.wp p (fun r c db => Q r c db ∧ Q' r c db) c db := by
  induction p generalizing c db with
  | ret r => exact ⟨h, h'⟩
  | stmt s k ih => exact fun db' hs ch => ⟨(h db' hs ch).1, ih _ (h db' hs ch).2 (h' db' hs ch).2⟩
  | begin k ih => exact fun db' hs => ih (h db' hs) (h' db' hs)
  | commit k ih => exact fun db' hs ch => ⟨(h db' hs ch).1, ih _ (h db' hs ch).2 (h' db' hs ch).2⟩
  | rollback k ih => exact fun db' hs => ih (h db' hs) (h' db' hs)

theorem wp_andThen (p : Prog S ε α) (f : Except ε α → Prog S ε β) (Q : Post S σ ω ℓ ε β)
    (c : Local S ω ℓ ε) (db : σ) :
    P.wp (p.andThen f) Q c db ↔ P.wp p (fun r c db => P.wp (f r) Q c db) c db := by
  induction p generalizing c db with
  | ret r => exact Iff.rfl
  | stmt s k ih => simp only [Prog.andThen, wp, ih]
  | begin k ih => simp only [Prog.andThen, wp, ih]
  | commit k ih => simp only [Prog.andThen, wp, ih]
  | rollback k ih => simp only [Prog.andThen, wp, ih]

@[simp] theorem wp_ret (r : Except ε α) (Q : Post S σ ω ℓ ε α) (c : Local S ω ℓ ε) (db : σ) :
    P.wp (.ret r) Q c db ↔ Q r c db := Iff.rfl

@[simp] theorem wp_pure (a : α) (Q : Post S σ ω ℓ ε α) (c : Local S ω ℓ ε) (db : σ) :
    P.wp (pure a) Q c db ↔ Q (.ok a) c db := Iff.rfl

@[simp] theorem wp_throw (e : ε) (Q : Post S σ ω ℓ ε α) (c : Local S ω ℓ ε) (db : σ) :
    P.wp (throw e) Q c db ↔ Q (.error e) c db := Iff.rfl

/-- The postcondition of the first program of a `bind`. -/
def bindPost (f : α → Prog S ε β) (Q : Post S σ ω ℓ ε β) : Post S σ ω ℓ ε α
  | .ok a, c, db => P.wp (f a) Q c db
  | .error e, c, db => Q (.error e) c db

@[simp] theorem bindPost_ok (f : α → Prog S ε β) (Q : Post S σ ω ℓ ε β) (a : α)
    (c : Local S ω ℓ ε) (db : σ) : P.bindPost f Q (.ok a) c db ↔ P.wp (f a) Q c db := Iff.rfl

@[simp] theorem bindPost_error (f : α → Prog S ε β) (Q : Post S σ ω ℓ ε β) (e : ε)
    (c : Local S ω ℓ ε) (db : σ) : P.bindPost f Q (.error e) c db ↔ Q (.error e) c db := Iff.rfl

theorem wp_bind (p : Prog S ε α) (f : α → Prog S ε β) (Q : Post S σ ω ℓ ε β)
    (c : Local S ω ℓ ε) (db : σ) :
    P.wp (p >>= f) Q c db ↔ P.wp p (P.bindPost f Q) c db := by
  rw [Prog.bind_def, wp_andThen]
  constructor
  · exact P.wp_mono fun r c db h => by cases r <;> exact h
  · exact P.wp_mono fun r c db h => by cases r <;> exact h

theorem wp_tryCatch (p : Prog S ε α) (h : ε → Prog S ε α) (Q : Post S σ ω ℓ ε α)
    (c : Local S ω ℓ ε) (db : σ) :
    P.wp (tryCatch p h) Q c db ↔
      P.wp p (fun r c db => match r with
        | .ok a => Q (.ok a) c db
        | .error e => P.wp (h e) Q c db) c db := by
  rw [Prog.tryCatch_def, wp_andThen]
  constructor
  · exact P.wp_mono fun r c db h => by cases r <;> exact h
  · exact P.wp_mono fun r c db h => by cases r <;> exact h

/-! ## Rules for actions -/

/-- A statement inside a transaction: it fails and leaves everything as it
was, by a fault or for what the transaction sees, or its writes and locks join
the transaction. -/
theorem wp_exec_tx_why {s : S α} {Q : Post S σ ω ℓ ε α} {t : Tx ω ℓ} {ts : List (Tx ω ℓ)}
    {trace : List (Event S ε)} {db : σ}
    (herr : ∀ e db', P.Sees ⟨t :: ts, trace⟩ db db' →
      ((∃ m, e = E.fault m) ∨ ∃ env, E.exec s env (E.view t db') = .error e) →
      Q (.error e) ⟨t :: ts, .stmt s (.error e) :: trace⟩ db')
    (hok : ∀ env a ws db', P.Sees ⟨t :: ts, trace⟩ db db' →
      E.exec s env (E.view t db') = .ok (a, ws) →
      Q (.ok a) ⟨⟨t.writes ++ ws, t.held ++ E.needs s (E.view t db') ws⟩ :: ts,
        .stmt s (.ok a) :: trace⟩ db') :
    P.wp (Prog.exec s) Q ⟨t :: ts, trace⟩ db := by
  intro db' hs ch
  cases ch with
  | fail m => exact ⟨P.keeps_refl hs.inv, herr _ db' hs (.inl ⟨m, rfl⟩)⟩
  | go env =>
      cases hx : E.exec s env (E.view t db') with
      | error e =>
          simp only [Engine.run, hx]
          exact ⟨P.keeps_refl hs.inv, herr _ db' hs (.inr ⟨env, hx⟩)⟩
      | ok r =>
          obtain ⟨a, ws⟩ := r
          simp only [Engine.run, hx]
          split
          · exact ⟨P.keeps_refl hs.inv, herr _ db' hs (.inl ⟨_, rfl⟩)⟩
          · exact ⟨P.keeps_refl hs.inv, hok env a ws db' hs hx⟩

/-- The same, whatever the reason of a failure. -/
theorem wp_exec_tx {s : S α} {Q : Post S σ ω ℓ ε α} {t : Tx ω ℓ} {ts : List (Tx ω ℓ)}
    {trace : List (Event S ε)} {db : σ}
    (herr : ∀ e db', P.Sees ⟨t :: ts, trace⟩ db db' →
      Q (.error e) ⟨t :: ts, .stmt s (.error e) :: trace⟩ db')
    (hok : ∀ env a ws db', P.Sees ⟨t :: ts, trace⟩ db db' →
      E.exec s env (E.view t db') = .ok (a, ws) →
      Q (.ok a) ⟨⟨t.writes ++ ws, t.held ++ E.needs s (E.view t db') ws⟩ :: ts,
        .stmt s (.ok a) :: trace⟩ db') :
    P.wp (Prog.exec s) Q ⟨t :: ts, trace⟩ db :=
  P.wp_exec_tx_why (fun e db' hs _ => herr e db' hs) hok

/-- A statement outside every transaction commits on its own. -/
theorem wp_exec_auto {s : S α} {Q : Post S σ ω ℓ ε α} {trace : List (Event S ε)} {db : σ}
    (herr : ∀ e db', P.Sees ⟨[], trace⟩ db db' →
      Q (.error e) ⟨[], .stmt s (.error e) :: trace⟩ db')
    (hok : ∀ env a ws db', P.Sees ⟨[], trace⟩ db db' → E.exec s env db' = .ok (a, ws) →
      P.Keeps ⟨[], trace⟩ db' (E.applyAll ws db') ∧
        Q (.ok a) ⟨[], .stmt s (.ok a) :: trace⟩ (E.applyAll ws db')) :
    P.wp (Prog.exec s) Q ⟨[], trace⟩ db := by
  intro db' hs ch
  cases ch with
  | fail m => exact ⟨P.keeps_refl hs.inv, herr _ db' hs⟩
  | go env =>
      cases hx : E.exec s env db' with
      | error e =>
          simp only [Engine.run, hx]
          exact ⟨P.keeps_refl hs.inv, herr _ db' hs⟩
      | ok r =>
          obtain ⟨a, ws⟩ := r
          simp only [Engine.run, hx]
          exact hok env a ws db' hs hx

/-- What the body of a transaction has to establish for `Q` to hold after it:
whatever the others do before its commit, the commit is allowed and gives `Q`,
and so does a commit that fails or a rollback. -/
def txPost (Q : Post S σ ω ℓ ε α) : Post S σ ω ℓ ε α
  | .ok a, c, db => ∃ t ts, c.stack = t :: ts ∧ ∀ db', P.Sees c db db' →
      P.Keeps c db' (E.view t db') ∧
      Q (.ok a) ⟨ts, .commit (.ok ()) :: c.trace⟩ (E.view t db') ∧
      ∀ m, Q (.error (E.fault m)) ⟨ts, .commit (.error (E.fault m)) :: c.trace⟩ db'
  | .error e, c, db => ∀ db', P.Sees c db db' →
      Q (.error e) ⟨c.stack.tail, .rollback :: c.trace⟩ db'

/-- A transaction: its body runs on top of an empty one, and ends in a commit
of what is then the innermost transaction or in a rollback of it. -/
theorem wp_transaction {body : Prog S ε α} {Q : Post S σ ω ℓ ε α} {c : Local S ω ℓ ε} {db : σ}
    (h : ∀ db', P.Sees c db db' →
      P.wp body (P.txPost Q) ⟨{} :: c.stack, .begin :: c.trace⟩ db') :
    P.wp (Prog.transaction body) Q c db := by
  intro db' hs
  rw [wp_andThen]
  refine P.wp_mono (fun r c' db'' hr => ?_) (h db' hs)
  cases r with
  | error e => exact hr
  | ok a =>
      obtain ⟨t, ts, hstack, hr⟩ := hr
      intro db₁ hs₁ ch
      obtain ⟨hkeep, hok, herr⟩ := hr db₁ hs₁
      rw [hstack]
      cases ch with
      | fail m => exact ⟨P.keeps_refl hs₁.inv, herr _⟩
      | go env => exact ⟨hkeep, hok⟩

/-! ## Stability -/

/-- What others do before the next action of an unfinished program is covered. -/
theorem wp_stable {p : Prog S ε α} {Q : Post S σ ω ℓ ε α} {c : Local S ω ℓ ε} {db db' : σ}
    (hp : p.finished = false) (hs : P.Sees c db db') (h : P.wp p Q c db) : P.wp p Q c db' := by
  cases p with
  | ret r => cases hp
  | stmt s k => exact fun db₁ hs₁ => h db₁ (hs.trans hs₁)
  | begin k => exact fun db₁ hs₁ => h db₁ (hs.trans hs₁)
  | commit k => exact fun db₁ hs₁ => h db₁ (hs.trans hs₁)
  | rollback k => exact fun db₁ hs₁ => h db₁ (hs.trans hs₁)

/-- One action of a client keeps its precondition. -/
theorem wp_next {ch : Choice η} {db db' : σ} {c c' : Client S ω ℓ ε α} {took : List ℓ}
    {Q : Post S σ ω ℓ ε α} (hn : E.next ch db c = some (c', db', took)) (hv : D.valid db)
    (hi : I db) (hs : D.StackOk c.loc.stack db) (h : P.wp c.prog Q c.loc db) :
    P.Keeps c.loc db db' ∧ P.wp c'.prog Q c'.loc db' := by
  obtain ⟨prog, loc⟩ := c
  have hsees : P.Sees loc db db := .refl P hv hi hs
  cases prog with
  | ret r => simp [Engine.next] at hn
  | stmt s k =>
      simp only [Engine.next, Option.some.injEq, Prod.mk.injEq] at hn
      obtain ⟨rfl, rfl, rfl⟩ := hn
      exact h db hsees ch
  | begin k =>
      simp only [Engine.next, Option.some.injEq, Prod.mk.injEq] at hn
      obtain ⟨rfl, rfl, rfl⟩ := hn
      exact ⟨P.keeps_refl hi, h db hsees⟩
  | commit k =>
      simp only [Engine.next, Option.some.injEq, Prod.mk.injEq] at hn
      obtain ⟨rfl, rfl, rfl⟩ := hn
      exact h db hsees ch
  | rollback k =>
      simp only [Engine.next, Option.some.injEq, Prod.mk.injEq] at hn
      obtain ⟨rfl, rfl, rfl⟩ := hn
      exact ⟨P.keeps_refl hi, h db hsees⟩

end Protocol

/-! ## Clients together -/

/-- Protocols that fit each other.  `apart` is what the compatibility of two
clients may depend on besides their locks; a run keeps it by `Clean`. -/
structure Contract (D : Discipline E) (I : σ → Prop) (ι : Type) where
  proto : ι → Protocol D I
  apart : ι → Local S ω ℓ ε → ι → Local S ω ℓ ε → Prop
  apart_symm : ∀ {i c j c'}, apart i c j c' → apart j c' i c
  compat : ∀ {i j c c' db db'}, i ≠ j → apart i c j c' →
    (∀ ℓ ∈ heldBy c.stack, ℓ ∉ heldBy c'.stack) → D.le db db' → I db → I db' →
    (proto i).guar c db db' → (proto j).env c' db db'

namespace Contract

variable {D : Discipline E} {I : σ → Prop} (K : Contract D I ι)

/-- The unfinished clients other than `i` are apart from `i` after its step. -/
def Clean (_ : Sys S σ ω ℓ ε α ι) (i : ι) (s' : Sys S σ ω ℓ ε α ι) : Prop :=
  (s'.clients i).prog.finished = false → ∀ j, j ≠ i → (s'.clients j).prog.finished = false →
    K.apart i (s'.clients i).loc j (s'.clients j).loc

/-- What the clients of a system have to satisfy for its runs to be safe: `Q`
is what each client's end says about the committed database. -/
structure Safe (Q : ι → Post S σ ω ℓ ε α) (s : Sys S σ ω ℓ ε α ι) : Prop where
  ok : D.SysOk s
  inv : I s.db
  apart : ∀ i j, i ≠ j → (s.clients i).prog.finished = false →
    (s.clients j).prog.finished = false → K.apart i (s.clients i).loc j (s.clients j).loc
  wp : ∀ i, (K.proto i).wp (s.clients i).prog (Q i) (s.clients i).loc s.db

variable {K} {Q : ι → Post S σ ω ℓ ε α} {s s' : Sys S σ ω ℓ ε α ι}

/-- Any step from a safe system is allowed by the protocol of the client that
takes it, keeps the invariant and undoes nothing. -/
theorem Safe.allowed [DecidableEq ι] (hs : K.Safe Q s) {i : ι} (h : Step E s i s') :
    (K.proto i).Keeps (s.clients i).loc s.db s'.db ∧ D.le s.db s'.db := by
  obtain ⟨ch, c, db, took, hn, -, rfl⟩ := h
  obtain ⟨-, -, hle, -, -⟩ := D.next_ok _ hn hs.ok.valid (hs.ok.stack i)
  exact ⟨((K.proto i).wp_next hn hs.ok.valid hs.inv (hs.ok.stack i) (hs.wp i)).1, hle⟩

/-- One clean step keeps a system safe, is allowed by the protocol of the
client that takes it, and undoes nothing. -/
theorem Safe.step [DecidableEq ι]
    (hQ : ∀ i r c db db', I db' → D.valid db' → D.le db db' → Q i r c db → Q i r c db')
    (hs : K.Safe Q s) {i : ι} (h : Step E s i s') (hc : K.Clean s i s') :
    K.Safe Q s' ∧ (K.proto i).guar (s.clients i).loc s.db s'.db ∧ D.le s.db s'.db := by
  have hok := hs.ok.step h
  obtain ⟨ch, c, db, took, hn, hfree, rfl⟩ := h
  obtain ⟨⟨hinv, hguar⟩, hwp⟩ :=
    (K.proto i).wp_next hn hs.ok.valid hs.inv (hs.ok.stack i) (hs.wp i)
  obtain ⟨hv, -, hle, -, -⟩ := D.next_ok _ hn hs.ok.valid (hs.ok.stack i)
  have hrun : (s.clients i).prog.finished = false := by
    cases hp : (s.clients i).prog with
    | ret r => simp [Engine.next, hp] at hn
    | _ => rfl
  refine ⟨⟨hok, hinv, fun j k hjk hj hk => ?_, fun j => ?_⟩, hguar, hle⟩
  · by_cases hji : j = i
    · subst hji
      exact hc hj k hjk.symm hk
    · by_cases hki : k = i
      · subst hki
        exact K.apart_symm (hc hk j hjk hj)
      · simp only [Function.update_of_ne hji, Function.update_of_ne hki] at hj hk ⊢
        exact hs.apart j k hjk hj hk
  · by_cases hji : j = i
    · subst hji
      simpa using hwp
    · simp only [Function.update_of_ne hji]
      have hwpj := hs.wp j
      cases hp : (s.clients j).prog.finished with
      | true =>
          cases hr : (s.clients j).prog with
          | ret r =>
              rw [hr] at hwpj
              exact hQ j r _ _ _ hinv hv hle hwpj
          | _ => rw [hr] at hp; cases hp
      | false =>
          refine (K.proto j).wp_stable hp ?_ hwpj
          exact ⟨hv, hinv, (hs.ok.stack j).mono (hs.ok.same_of_next hji hn hfree) hle,
            hs.ok.same_of_next hji hn hfree, hle,
            K.compat (Ne.symm hji) (hs.apart i j (Ne.symm hji) hrun hp) (hs.ok.apart i j (Ne.symm hji))
              hle hs.inv hinv hguar⟩

/-- Safety along clean runs, together with any relation that every guarantee
implies and that composes. -/
theorem Safe.runs [DecidableEq ι]
    (hQ : ∀ i r c db db', I db' → D.valid db' → D.le db db' → Q i r c db → Q i r c db')
    {T : σ → σ → Prop} (hrefl : ∀ db, T db db)
    (htrans : ∀ {db₁ db₂ db₃}, T db₁ db₂ → T db₂ db₃ → T db₁ db₃)
    (hT : ∀ {i c db db'}, I db → I db' → D.le db db' → (K.proto i).guar c db db' → T db db')
    (hs : K.Safe Q s) (h : Runs E K.Clean s s') : K.Safe Q s' ∧ T s.db s'.db := by
  induction h with
  | refl => exact ⟨hs, hrefl _⟩
  | step _ hstep hc ih =>
      obtain ⟨hs', hguar, hle⟩ := Safe.step hQ ih.1 hstep hc
      exact ⟨hs', htrans ih.2 (hT ih.1.inv hs'.inv hle hguar)⟩

/-- A system in which no client has started is safe as soon as each program is. -/
theorem Safe.start {db : σ} {progs : ι → Prog S ε α} (hv : D.valid db) (hi : I db)
    (hapart : ∀ i j, i ≠ j → K.apart i {} j {})
    (hwp : ∀ i, (K.proto i).wp (progs i) (Q i) {} db) :
    K.Safe Q (Sys.start db progs) where
  ok := .start D hv progs
  inv := hi
  apart i j hij _ _ := hapart i j hij
  wp := hwp

end Contract

/-! ## Invariants without interference -/

/-- Clients that tolerate whatever keeps the invariant. -/
def Protocol.sharing (D : Discipline E) (I : σ → Prop) : Protocol D I where
  env _ _ _ := True
  guar _ _ _ := True
  env_refl _ _ := trivial
  env_trans _ _ := trivial
  guar_refl _ _ := trivial

/-- Such clients together. -/
def Contract.sharing (D : Discipline E) (I : σ → Prop) (ι : Type) : Contract D I ι where
  proto _ := .sharing D I
  apart _ _ _ _ := True
  apart_symm _ := trivial
  compat _ _ _ _ _ _ _ := trivial

/-- What every program keeps by itself, every run of them keeps. -/
theorem inv_of_runs [DecidableEq ι] {D : Discipline E} {I : σ → Prop} {db : σ}
    {progs : ι → Prog S ε α} {s : Sys S σ ω ℓ ε α ι} (hv : D.valid db) (hi : I db)
    (hwp : ∀ i, (Protocol.sharing D I).wp (progs i) (fun _ _ _ => True) {} db)
    (h : Runs E AnyStep (Sys.start db progs) s) : D.valid s.db ∧ I s.db ∧ D.le db s.db := by
  have hsafe : (Contract.sharing D I ι).Safe (fun _ _ _ _ => True) (Sys.start db progs) :=
    .start hv hi (fun _ _ _ => trivial) hwp
  have hruns : Runs E (Contract.sharing D I ι).Clean (Sys.start db progs) s :=
    h.mono fun _ _ _ _ _ _ _ _ => trivial
  obtain ⟨hs, hle⟩ := hsafe.runs (T := D.le) (fun _ _ _ _ _ _ _ _ h => h) D.le_refl D.le_trans
    (fun _ _ hle _ => hle) hruns
  exact ⟨hs.ok.valid, hs.inv, hle⟩

/-! ## One client in any company -/

namespace Protocol

variable {D : Discipline E} {I : σ → Prop}

/-- Nothing is expected of the others; the client's own actions satisfy `G`. -/
def any (D : Discipline E) (G : Local S ω ℓ ε → σ → σ → Prop) (hrefl : ∀ c db, G c db db) :
    Protocol D (fun _ => True) where
  env _ _ _ := True
  guar := G
  env_refl _ _ := trivial
  env_trans _ _ := trivial
  guar_refl := hrefl

/-- Any program follows a protocol that allows every action. -/
theorem wp_of_keeps {P : Protocol D I} (hkeeps : ∀ c db db', P.Keeps c db db') (p : Prog S ε α)
    (c : Local S ω ℓ ε) (db : σ) : P.wp p (fun _ _ _ => True) c db := by
  induction p generalizing c db with
  | ret r => trivial
  | stmt s k ih => exact fun db' _ ch => ⟨hkeeps _ _ _, ih _ _ _⟩
  | begin k ih => exact fun db' _ => ih _ _
  | commit k ih => exact fun db' _ ch => ⟨hkeeps _ _ _, ih _ _ _⟩
  | rollback k ih => exact fun db' _ => ih _ _

theorem wp_any_mono {G G' : Local S ω ℓ ε → σ → σ → Prop} {hrefl : ∀ c db, G c db db}
    {hrefl' : ∀ c db, G' c db db} (hG : ∀ c db db', G c db db' → G' c db db') {p : Prog S ε α}
    {Q : Post S σ ω ℓ ε α} {c : Local S ω ℓ ε} {db : σ} (h : (any D G hrefl).wp p Q c db) :
    (any D G' hrefl').wp p Q c db := by
  have hsees : ∀ {c : Local S ω ℓ ε} {db db' : σ}, (any D G' hrefl').Sees c db db' →
      (any D G hrefl).Sees c db db' := fun hs =>
    ⟨hs.valid, trivial, hs.stack, hs.same, hs.le, trivial⟩
  induction p generalizing c db with
  | ret r => exact h
  | stmt s k ih =>
      intro db' hs ch
      obtain ⟨⟨-, hguar⟩, hrest⟩ := h db' (hsees hs) ch
      exact ⟨⟨trivial, hG _ _ _ hguar⟩, ih _ hrest⟩
  | begin k ih => exact fun db' hs => ih (h db' (hsees hs))
  | commit k ih =>
      intro db' hs ch
      obtain ⟨⟨-, hguar⟩, hrest⟩ := h db' (hsees hs) ch
      exact ⟨⟨trivial, hG _ _ _ hguar⟩, ih _ hrest⟩
  | rollback k ih => exact fun db' hs => ih (h db' (hsees hs))

end Protocol

/-- One client is known: in whatever state the others have left the database, the
rest of its program is as good as before. -/
theorem wp_of_runs_from [DecidableEq ι] {D : Discipline E} {G : Local S ω ℓ ε → σ → σ → Prop}
    {hrefl : ∀ c db, G c db db} {Q : Post S σ ω ℓ ε α} {i : ι} {s₀ s : Sys S σ ω ℓ ε α ι}
    (hQ : ∀ r c db db', D.le db db' → Q r c db → Q r c db') (hok : D.SysOk s₀)
    (hwp : (Protocol.any D G hrefl).wp (s₀.clients i).prog Q (s₀.clients i).loc s₀.db)
    (h : Runs E AnyStep s₀ s) :
    (Protocol.any D G hrefl).wp (s.clients i).prog Q (s.clients i).loc s.db ∧ D.SysOk s := by
  let K : Contract D (fun _ => True) ι :=
    { proto := fun j => .any D (fun c db db' => j = i → G c db db') fun _ _ _ => hrefl _ _
      apart := fun _ _ _ _ => True
      apart_symm := fun _ => trivial
      compat := fun _ _ _ _ _ _ _ => trivial }
  have hsafe : K.Safe (fun j r c db => j = i → Q r c db) s₀ := by
    refine ⟨hok, trivial, fun _ _ _ _ _ => trivial, fun j => ?_⟩
    by_cases hj : j = i
    · subst hj
      refine Protocol.wp_mono _ (fun _ _ _ hq _ => hq) ?_
      exact Protocol.wp_any_mono (fun _ _ _ hg _ => hg) hwp
    · exact Protocol.wp_mono _ (fun _ _ _ _ he => (hj he).elim)
        (Protocol.wp_of_keeps (fun _ _ _ => ⟨trivial, fun he => (hj he).elim⟩) _ _ _)
  have hruns : Runs E K.Clean s₀ s := h.mono fun _ _ _ _ _ _ _ _ => trivial
  obtain ⟨hend, -⟩ := hsafe.runs (T := fun _ _ => True)
    (fun _ _ _ _ _ _ _ hle hq hj => hQ _ _ _ _ hle (hq hj)) (fun _ => trivial) (fun _ _ => trivial)
    (fun _ _ _ _ => trivial) hruns
  exact ⟨Protocol.wp_any_mono (fun _ _ _ hg => hg rfl)
    (Protocol.wp_mono _ (fun _ _ _ hq => hq rfl) (hend.wp i)), hend.ok⟩

theorem wp_of_runs [DecidableEq ι] {D : Discipline E} {G : Local S ω ℓ ε → σ → σ → Prop}
    {hrefl : ∀ c db, G c db db} {Q : Post S σ ω ℓ ε α} {db : σ} {progs : ι → Prog S ε α} {i : ι}
    {s : Sys S σ ω ℓ ε α ι} (hQ : ∀ r c db db', D.le db db' → Q r c db → Q r c db') (hv : D.valid db)
    (hwp : (Protocol.any D G hrefl).wp (progs i) Q {} db) (h : Runs E AnyStep (Sys.start db progs) s) :
    (Protocol.any D G hrefl).wp (s.clients i).prog Q (s.clients i).loc s.db ∧ D.SysOk s :=
  wp_of_runs_from hQ (.start D hv progs) hwp h

/-- Every step of the known client is as it guarantees. -/
theorem guar_of_runs_from [DecidableEq ι] {D : Discipline E} {G : Local S ω ℓ ε → σ → σ → Prop}
    {hrefl : ∀ c db, G c db db} {i : ι} {s₀ s s' : Sys S σ ω ℓ ε α ι} (hok : D.SysOk s₀)
    (hwp : (Protocol.any D G hrefl).wp (s₀.clients i).prog (fun _ _ _ => True) (s₀.clients i).loc s₀.db)
    (h : Runs E AnyStep s₀ s) (hs : Step E s i s') : G (s.clients i).loc s.db s'.db ∧ D.SysOk s := by
  obtain ⟨hrest, hok⟩ := wp_of_runs_from (fun _ _ _ _ _ _ => trivial) hok hwp h
  obtain ⟨ch, c, db', took, hn, -, rfl⟩ := hs
  exact ⟨(Protocol.wp_next _ hn hok.valid trivial (hok.stack i) hrest).1.2, hok⟩

theorem guar_of_runs [DecidableEq ι] {D : Discipline E} {G : Local S ω ℓ ε → σ → σ → Prop}
    {hrefl : ∀ c db, G c db db} {db : σ} {progs : ι → Prog S ε α} {i : ι}
    {s s' : Sys S σ ω ℓ ε α ι} (hv : D.valid db)
    (hwp : (Protocol.any D G hrefl).wp (progs i) (fun _ _ _ => True) {} db)
    (h : Runs E AnyStep (Sys.start db progs) s) (hs : Step E s i s') :
    G (s.clients i).loc s.db s'.db ∧ D.SysOk s :=
  guar_of_runs_from (.start D hv progs) hwp h hs

/-- The known client ends as it promises. -/
theorem post_of_runs [DecidableEq ι] {D : Discipline E} {G : Local S ω ℓ ε → σ → σ → Prop}
    {hrefl : ∀ c db, G c db db} {Q : Post S σ ω ℓ ε α} {db : σ} {progs : ι → Prog S ε α} {i : ι}
    {s : Sys S σ ω ℓ ε α ι} {r : Except ε α} (hQ : ∀ r c db db', D.le db db' → Q r c db → Q r c db')
    (hv : D.valid db) (hwp : (Protocol.any D G hrefl).wp (progs i) Q {} db)
    (h : Runs E AnyStep (Sys.start db progs) s) (hr : (s.clients i).prog = .ret r) :
    Q r (s.clients i).loc s.db := by
  obtain ⟨hrest, -⟩ := wp_of_runs hQ hv hwp h
  rw [hr] at hrest
  exact hrest

end Transact
