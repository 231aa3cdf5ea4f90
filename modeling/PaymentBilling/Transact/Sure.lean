import PaymentBilling.Transact.Body

/-!
# Transact.Sure

What is sure to happen when a program runs alone and nothing fails.

`E.Sure W p Q c db` says that `p`, run as the client `c` on `db` with nobody
else at work, ends with `Q`: no action is made to fail, and the environment
answers as it likes within `W`.  A statement can still be refused for what it
finds.

`E.Goes L W p Q v` is the same for the body of a transaction that opens none
itself, told on the view of the transaction alone, and it says more: no
statement of `p` is refused.  `L` are the locks that it may take.
-/

set_option linter.unusedSectionVars false

namespace Transact

variable {S : Type → Type} {σ ω ℓ ε η α β : Type} [DecidableEq ℓ] {E : Engine S σ ω ℓ ε η}

/-- The program is sure to end with `Q`. -/
def Engine.Sure (E : Engine S σ ω ℓ ε η) (W : η → Prop) :
    Prog S ε α → Post S σ ω ℓ ε α → Local S ω ℓ ε → σ → Prop
  | .ret r, Q, c, db => Q r c db
  | .stmt s k, Q, c, db => ∀ env, W env →
      Sure E W (k (E.run s (.go env) c.stack db).answer) Q
        ⟨(E.run s (.go env) c.stack db).stack,
          .stmt s (E.run s (.go env) c.stack db).answer :: c.trace⟩
        (E.run s (.go env) c.stack db).db
  | .begin k, Q, c, db => Sure E W k Q ⟨{} :: c.stack, .begin :: c.trace⟩ db
  | .commit k, Q, c, db => ∀ env, W env →
      Sure E W (k (E.commit (.go env) c.stack db).answer) Q
        ⟨(E.commit (.go env) c.stack db).stack,
          .commit (E.commit (.go env) c.stack db).answer :: c.trace⟩
        (E.commit (.go env) c.stack db).db
  | .rollback k, Q, c, db => Sure E W k Q ⟨c.stack.tail, .rollback :: c.trace⟩ db

/-- The body goes through and takes the view `v` to one that satisfies `Q`. -/
def Engine.Goes (E : Engine S σ ω ℓ ε η) (L : ℓ → Prop) (W : η → Prop) :
    Prog S ε α → (α → σ → Prop) → σ → Prop
  | .ret (.ok a), Q, v => Q a v
  | .ret (.error _), _, _ => False
  | .stmt s k, Q, v => ∀ env, W env → ∃ b ws, E.exec s env v = .ok (b, ws) ∧
      (∀ l ∈ E.needs s v ws, L l) ∧ Goes E L W (k (.ok b)) Q (E.applyAll ws v)
  | .begin _, _, _ => False
  | .commit _, _, _ => False
  | .rollback _, _, _ => False

/-! ## Composing programs -/

section Sure

variable {W : η → Prop} {Q Q' : Post S σ ω ℓ ε α} {c : Local S ω ℓ ε} {db : σ}

theorem Engine.Sure.mono {p : Prog S ε α} (hQ : ∀ r c db, Q r c db → Q' r c db)
    (h : E.Sure W p Q c db) : E.Sure W p Q' c db := by
  induction p generalizing c db with
  | ret r => exact hQ _ _ _ h
  | stmt s k ih => exact fun env hw => ih _ (h env hw)
  | begin k ih => exact ih h
  | commit k ih => exact fun env hw => ih _ (h env hw)
  | rollback k ih => exact ih h

theorem Engine.Sure.and {p : Prog S ε α} (h : E.Sure W p Q c db) (h' : E.Sure W p Q' c db) :
    E.Sure W p (fun r c db => Q r c db ∧ Q' r c db) c db := by
  induction p generalizing c db with
  | ret r => exact ⟨h, h'⟩
  | stmt s k ih => exact fun env hw => ih _ (h env hw) (h' env hw)
  | begin k ih => exact ih h h'
  | commit k ih => exact fun env hw => ih _ (h env hw) (h' env hw)
  | rollback k ih => exact ih h h'

theorem Engine.sure_andThen {p : Prog S ε α} {f : Except ε α → Prog S ε β}
    {Q : Post S σ ω ℓ ε β} :
    E.Sure W (p.andThen f) Q c db ↔ E.Sure W p (fun r c db => E.Sure W (f r) Q c db) c db := by
  induction p generalizing c db with
  | ret r => exact Iff.rfl
  | stmt s k ih => simp only [Prog.andThen, Sure, ih]
  | begin k ih => simp only [Prog.andThen, Sure, ih]
  | commit k ih => simp only [Prog.andThen, Sure, ih]
  | rollback k ih => simp only [Prog.andThen, Sure, ih]

theorem Engine.sure_pure {a : α} (h : Q (.ok a) c db) : E.Sure W (pure a) Q c db := h

theorem Engine.sure_throw {e : ε} (h : Q (.error e) c db) : E.Sure W (throw e) Q c db := h

theorem Engine.sure_bind {p : Prog S ε α} {f : α → Prog S ε β} {Q : Post S σ ω ℓ ε β}
    (h : E.Sure W p (fun r c db => match r with
      | .ok a => E.Sure W (f a) Q c db
      | .error e => Q (.error e) c db) c db) : E.Sure W (p >>= f) Q c db := by
  rw [Prog.bind_def, Engine.sure_andThen]
  exact h.mono fun r c db h => by cases r <;> exact h

theorem Engine.sure_tryCatch {p : Prog S ε α} {f : ε → Prog S ε α}
    (h : E.Sure W p (fun r c db => match r with
      | .ok a => Q (.ok a) c db
      | .error e => E.Sure W (f e) Q c db) c db) : E.Sure W (tryCatch p f) Q c db := by
  rw [Prog.tryCatch_def, Engine.sure_andThen]
  exact h.mono fun r c db h => by cases r <;> exact h

/-- A statement outside every transaction. -/
theorem Engine.sure_exec_auto {s : S α} {trace : List (Event S ε)}
    (h : ∀ env, W env → match E.exec s env db with
      | .error e => Q (.error e) ⟨[], .stmt s (.error e) :: trace⟩ db
      | .ok (a, ws) => Q (.ok a) ⟨[], .stmt s (.ok a) :: trace⟩ (E.applyAll ws db)) :
    E.Sure W (Prog.exec s) Q ⟨[], trace⟩ db := by
  intro env hw
  have hq := h env hw
  cases hx : E.exec s env db with
  | error e =>
      simp only [Engine.run, hx] at hq ⊢
      exact hq
  | ok r =>
      simp only [Engine.run, hx] at hq ⊢
      exact hq

/-- A transaction: its body ends in a commit or in a rollback. -/
theorem Engine.sure_transaction {body : Prog S ε α}
    (h : E.Sure W body (fun r c' db' => match r with
      | .ok a => ∃ t, c'.stack = t :: c.stack ∧
          Q (.ok a) ⟨c.stack, .commit (.ok ()) :: c'.trace⟩ (E.view t db')
      | .error e => Q (.error e) ⟨c'.stack.tail, .rollback :: c'.trace⟩ db')
      ⟨{} :: c.stack, .begin :: c.trace⟩ db) : E.Sure W (Prog.transaction body) Q c db := by
  show E.Sure W _ Q ⟨{} :: c.stack, .begin :: c.trace⟩ db
  rw [Engine.sure_andThen]
  refine h.mono fun r c' db' hr => ?_
  cases r with
  | error e => exact hr
  | ok a =>
      obtain ⟨t, hstack, hq⟩ := hr
      intro env hw
      rw [hstack]
      exact hq

/-- What `wp` proves of a program that runs alone is sure, with what it keeps. -/
theorem Protocol.sure_of_wp_inv {D : Discipline E} {I : σ → Prop} {p : Prog S ε α} (hv : D.valid db)
    (hi : I db) (hs : D.StackOk c.stack db) (h : (Protocol.solo D I).wp p Q c db) :
    E.Sure W p (fun r c' db' => Q r c' db' ∧ I db' ∧ D.valid db' ∧ D.StackOk c'.stack db') c db := by
  induction p generalizing c db with
  | ret r => exact ⟨h, hi, hv, hs⟩
  | stmt s k ih =>
      intro env _
      obtain ⟨hkeep, h⟩ := h db (.refl _ hv hi hs) (.go env)
      obtain ⟨hv', hs', -⟩ := D.run_ok (s := s) (.go env) hv hs
      exact ih _ hv' hkeep.1 hs' h
  | begin k ih => exact ih hv hi hs.push (h db (.refl _ hv hi hs))
  | commit k ih =>
      intro env _
      obtain ⟨hkeep, h⟩ := h db (.refl _ hv hi hs) (.go env)
      obtain ⟨hv', hs', -⟩ := D.next_ok (.go env) (c := ⟨.commit k, c⟩) rfl hv hs
      exact ih _ hv' hkeep.1 hs' h
  | rollback k ih =>
      obtain ⟨hv', hs', -⟩ := D.next_ok (.fail "") (c := ⟨.rollback k, c⟩) rfl hv hs
      exact ih hv' hi hs' (h db (.refl _ hv hi hs))

theorem Protocol.sure_of_wp {D : Discipline E} {p : Prog S ε α} (hv : D.valid db)
    (hs : D.StackOk c.stack db) (h : (Protocol.solo D fun _ => True).wp p Q c db) :
    E.Sure W p (fun r c' db' => Q r c' db' ∧ D.valid db' ∧ D.StackOk c'.stack db') c db :=
  (Protocol.sure_of_wp_inv hv trivial hs h).mono fun _ _ _ hr => ⟨hr.1, hr.2.2⟩

/-- What is sure does happen. -/
theorem Engine.Sure.ends {F : Faults S ω ℓ ε} {p : Prog S ε α} {e : η} (hw : W e)
    (h : E.Sure W p Q c db) : ∃ r c' db', E.Ends F p c db r c' db' ∧ Q r c' db' := by
  induction p generalizing c db with
  | ret r => exact ⟨r, c, db, ⟨rfl, rfl, rfl⟩, h⟩
  | stmt s k ih =>
      obtain ⟨r, c', db', hends, hq⟩ := ih _ (h e hw)
      exact ⟨r, c', db', ⟨.go e, trivial, hends⟩, hq⟩
  | begin k ih => exact ih h
  | commit k ih =>
      obtain ⟨r, c', db', hends, hq⟩ := ih _ (h e hw)
      exact ⟨r, c', db', ⟨.go e, trivial, hends⟩, hq⟩
  | rollback k ih => exact ih h

/-- What is sure holds of every run in which nothing fails. -/
theorem Engine.Sure.of_ends {p : Prog S ε α} {r : Except ε α} {c' : Local S ω ℓ ε} {db' : σ}
    (hw : ∀ env, W env) (h : E.Sure W p Q c db) (hends : E.Ends noFault p c db r c' db') :
    Q r c' db' := by
  have hgo : ∀ {c : Local S ω ℓ ε} {ch : Choice η}, Faults.allow noFault c ch →
      ∃ env, ch = .go env := by
    intro c ch hallow
    cases ch with
    | go env => exact ⟨env, rfl⟩
    | fail m => exact hallow.elim
  induction p generalizing c db with
  | ret r₀ =>
      obtain ⟨rfl, rfl, rfl⟩ := hends
      exact h
  | stmt s k ih =>
      obtain ⟨ch, hallow, hends⟩ := hends
      obtain ⟨env, rfl⟩ := hgo hallow
      exact ih _ (h env (hw env)) hends
  | begin k ih => exact ih h hends
  | commit k ih =>
      obtain ⟨ch, hallow, hends⟩ := hends
      obtain ⟨env, rfl⟩ := hgo hallow
      exact ih _ (h env (hw env)) hends
  | rollback k ih => exact ih h hends

end Sure

/-! ## What is returned -/

section Yields

/-- Whatever it starts from, the program returns only what satisfies `A`. -/
def Engine.Yields (E : Engine S σ ω ℓ ε η) (W : η → Prop) (p : Prog S ε α) (A : α → Prop) : Prop :=
  ∀ c db, E.Sure W p (fun r _ _ => ∀ a, r = .ok a → A a) c db

variable {W : η → Prop} {A : α → Prop}

theorem Engine.sure_of_always {p : Prog S ε α} {Q : Post S σ ω ℓ ε α} {c : Local S ω ℓ ε} {db : σ}
    (hQ : ∀ r c db, Q r c db) : E.Sure W p Q c db := by
  induction p generalizing c db with
  | ret r => exact hQ _ _ _
  | stmt s k ih => exact fun env _ => ih _
  | begin k ih => exact ih
  | commit k ih => exact fun env _ => ih _
  | rollback k ih => exact ih

theorem Engine.yields_of_always {p : Prog S ε α} (hA : ∀ a, A a) : E.Yields W p A :=
  fun _ _ => Engine.sure_of_always fun _ _ _ a _ => hA a

theorem Engine.yields_pure {a : α} (h : A a) : E.Yields W (pure a) A := by
  intro c db a' ha
  obtain rfl := Except.ok.inj ha
  exact h

theorem Engine.yields_throw (e : ε) : E.Yields W (throw e) A := fun _ _ => nofun

/-- A statement returns what it answers on some database. -/
theorem Engine.yields_exec {s : S α}
    (h : ∀ env db a ws, W env → E.exec s env db = .ok (a, ws) → A a) :
    E.Yields W (Prog.exec s) A := by
  intro c db env hw a ha
  obtain ⟨v, ws, hx⟩ : ∃ v ws, E.exec s env v = .ok (a, ws) := by
    cases hc : c.stack with
    | nil =>
        rw [hc] at ha
        cases hx : E.exec s env db with
        | error e => simp [Engine.run, hx] at ha
        | ok r => exact ⟨db, r.2, by simpa [Engine.run, hx, Prod.ext_iff] using ha⟩
    | cons t ts =>
        rw [hc] at ha
        cases hx : E.exec s env (E.view t db) with
        | error e => simp [Engine.run, hx] at ha
        | ok r =>
            simp only [Engine.run, hx] at ha
            split at ha
            · cases ha
            · exact ⟨E.view t db, r.2, by simpa [hx, Prod.ext_iff] using ha⟩
  exact h env v a ws hw hx

theorem Engine.yields_bind {p : Prog S ε α} {f : α → Prog S ε β} {B : β → Prop}
    (hp : E.Yields W p A) (hf : ∀ a, A a → E.Yields W (f a) B) : E.Yields W (p >>= f) B := by
  intro c db
  refine Engine.sure_bind ((hp c db).mono fun r c' db' hr => ?_)
  cases r with
  | ok a => exact hf a (hr a rfl) c' db'
  | error e => exact nofun

theorem Engine.yields_tryCatch {p : Prog S ε α} {f : ε → Prog S ε α} (hp : E.Yields W p A)
    (hf : ∀ e, E.Yields W (f e) A) : E.Yields W (tryCatch p f) A := by
  intro c db
  refine Engine.sure_tryCatch ((hp c db).mono fun r c' db' hr => ?_)
  cases r with
  | ok a => exact hr
  | error e => exact hf e c' db'

theorem Engine.yields_transaction {p : Prog S ε α} (hp : E.Yields W p A) :
    E.Yields W (Prog.transaction p) A := by
  intro c db
  show E.Sure W _ _ ⟨{} :: c.stack, .begin :: c.trace⟩ db
  rw [Engine.sure_andThen]
  refine (hp _ _).mono fun r c' db' hr => ?_
  cases r with
  | error e => exact nofun
  | ok a =>
      intro env _
      cases (E.commit (.go env) c'.stack db').answer with
      | ok _ => exact hr
      | error e => exact nofun

end Yields

/-! ## Bodies that go through -/

section Goes

variable {D : Discipline E} {L : ℓ → Prop} {W : η → Prop} {v : σ} {Q Q' : α → σ → Prop}

theorem Engine.Goes.mono {p : Prog S ε α} (hQ : ∀ a v, Q a v → Q' a v)
    (h : E.Goes L W p Q v) : E.Goes L W p Q' v := by
  induction p generalizing v with
  | ret r =>
      cases r with
      | ok a => exact hQ a v h
      | error e => exact h
  | stmt s k ih =>
      intro env hw
      obtain ⟨b, ws, hx, hl, h⟩ := h env hw
      exact ⟨b, ws, hx, hl, ih _ h⟩
  | begin k ih => exact h
  | commit k ih => exact h
  | rollback k ih => exact h

/-- A body may be allowed more locks. -/
theorem Engine.Goes.locks {L' : ℓ → Prop} {p : Prog S ε α} (hL : ∀ l, L l → L' l)
    (h : E.Goes L W p Q v) : E.Goes L' W p Q v := by
  induction p generalizing v with
  | ret r => cases r <;> exact h
  | stmt s k ih =>
      intro env hw
      obtain ⟨b, ws, hx, hl, h⟩ := h env hw
      exact ⟨b, ws, hx, fun l hin => hL l (hl l hin), ih _ h⟩
  | begin k ih => exact h
  | commit k ih => exact h
  | rollback k ih => exact h

theorem Engine.goes_pure {a : α} (h : Q a v) : E.Goes L W (pure a : Prog S ε α) Q v := h

theorem Engine.goes_exec {s : S α} (hok : ∀ env, W env → ∃ r ws, E.exec s env v = .ok (r, ws))
    (h : ∀ env r ws, W env → E.exec s env v = .ok (r, ws) →
      (∀ l ∈ E.needs s v ws, L l) ∧ Q r (E.applyAll ws v)) :
    E.Goes L W (Prog.exec s) Q v := by
  intro env hw
  obtain ⟨r, ws, hx⟩ := hok env hw
  obtain ⟨hl, hq⟩ := h env r ws hw hx
  exact ⟨r, ws, hx, hl, hq⟩

theorem Engine.goes_bind {p : Prog S ε α} {f : α → Prog S ε β} {Q : β → σ → Prop}
    (h : E.Goes L W p (fun a v' => E.Goes L W (f a) Q v') v) : E.Goes L W (p >>= f) Q v := by
  induction p generalizing v with
  | ret r =>
      cases r with
      | ok a => exact h
      | error e => exact h
  | stmt s k ih =>
      intro env hw
      obtain ⟨b, ws, hx, hl, h⟩ := h env hw
      exact ⟨b, ws, hx, hl, ih _ h⟩
  | begin k ih => exact h
  | commit k ih => exact h
  | rollback k ih => exact h

/-- Each write of a body that goes through fits. -/
theorem Engine.Goes.valid {p : Prog S ε α} (hv : D.valid v) (h : E.Goes L W p Q v) :
    E.Goes L W p (fun a v' => Q a v' ∧ D.valid v' ∧ D.le v v') v := by
  induction p generalizing v with
  | ret r =>
      cases r with
      | ok a => exact ⟨h, hv, D.le_refl v⟩
      | error e => exact h
  | stmt s k ih =>
      intro env hw
      obtain ⟨b, ws, hx, hl, h⟩ := h env hw
      have hv' := D.valid_applyAll (D.fitsAll_of_exec hv hx) hv
      exact ⟨b, ws, hx, hl, (ih _ hv' h).mono fun a v' hq =>
        ⟨hq.1, hq.2.1, D.le_trans (D.le_applyAll ws v) hq.2.2⟩⟩
  | begin k ih => exact h
  | commit k ih => exact h
  | rollback k ih => exact h

/-- What is sure in a transaction holds of a body that goes through. -/
theorem Engine.Goes.and_sure {p : Prog S ε α} {R : Post S σ ω ℓ ε α} {t : Tx ω ℓ}
    {trace : List (Event S ε)} {db : σ} (h : E.Goes L W p Q (E.view t db))
    (h' : E.Sure W p R ⟨[t], trace⟩ db) :
    E.Goes L W p (fun a v' => Q a v' ∧ ∃ t' trace', v' = E.view t' db ∧ R (.ok a) ⟨[t'], trace'⟩ db)
      (E.view t db) := by
  induction p generalizing t trace with
  | ret r =>
      cases r with
      | ok a => exact ⟨h, t, trace, rfl, h'⟩
      | error e => exact h
  | stmt s k ih =>
      intro env hw
      obtain ⟨b, ws, hx, hl, h⟩ := h env hw
      have hrun : E.run s (.go env) [t] db = ⟨.ok b,
          [⟨t.writes ++ ws, t.held ++ E.needs s (E.view t db) ws⟩], db,
          E.needs s (E.view t db) ws⟩ := by
        simp [Engine.run, hx, heldBy]
      have h' := h' env hw
      rw [hrun] at h'
      rw [← Engine.view_append t ws (t.held ++ E.needs s (E.view t db) ws)] at h
      refine ⟨b, ws, hx, hl, ?_⟩
      rw [← Engine.view_append t ws (t.held ++ E.needs s (E.view t db) ws)]
      exact ih _ h h'
  | begin k ih => exact h
  | commit k ih => exact h
  | rollback k ih => exact h

/-- What a body that goes through adds. -/
theorem Engine.Goes.does {X : Effect D α} {p : Prog S ε α} (hv : D.valid v)
    (hdoes : (Protocol.solo D fun _ => True).Does [] p X) (h : E.Goes L W p Q v) :
    E.Goes L W p (fun a v' => Q a v' ∧ D.valid v' ∧
      ∃ ws, v' = E.applyAll ws v ∧ D.fitsAll ws v ∧ X.rel a ws v) v := by
  have hs : D.StackOk ([{}] : List (Tx ω ℓ)) v := Discipline.StackOk.nil.push
  have hsure := Protocol.sure_of_wp (W := W) hv hs (hdoes {} [] [] v hv hs)
  refine (Engine.Goes.and_sure (t := {}) h hsure).mono fun a v' hr => ?_
  obtain ⟨hq, t', trace', rfl, hadded, hv', hs'⟩ := hr
  obtain ⟨ws, held, hstack, hx⟩ := hadded.ok a rfl
  obtain rfl := List.cons.inj hstack |>.1
  exact ⟨hq, hs'.valid_view hv', ws, rfl, hs'.fits _ (.head _), hx⟩

/-- A body that goes through does so in a transaction, unless an enclosing one
holds a lock that it needs. -/
theorem Engine.Goes.sure {p : Prog S ε α} {t : Tx ω ℓ} {ts : List (Tx ω ℓ)}
    {trace : List (Event S ε)} {db : σ} (hfree : ∀ l ∈ heldBy ts, ¬L l)
    (h : E.Goes L W p Q (E.view t db)) :
    E.Sure W p (fun r c' db' => ∃ a t', r = .ok a ∧ db' = db ∧ c'.stack = t' :: ts ∧
      (∃ ws, t'.writes = t.writes ++ ws) ∧ (∀ l ∈ t'.held, l ∈ t.held ∨ L l) ∧
      Q a (E.view t' db)) ⟨t :: ts, trace⟩ db := by
  induction p generalizing t trace with
  | ret r =>
      cases r with
      | ok a => exact ⟨a, t, rfl, rfl, rfl, ⟨[], by simp⟩, fun l hl => .inl hl, h⟩
      | error e => exact h.elim
  | stmt s k ih =>
      intro env hw
      obtain ⟨b, ws, hx, hl, h⟩ := h env hw
      have hwait : (E.needs s (E.view t db) ws).any (· ∈ heldBy ts) = false := by
        rw [List.any_eq_false]
        intro l hin hheld
        exact hfree l (of_decide_eq_true hheld) (hl l hin)
      have hrun : E.run s (.go env) (t :: ts) db = ⟨.ok b,
          ⟨t.writes ++ ws, t.held ++ E.needs s (E.view t db) ws⟩ :: ts, db,
          E.needs s (E.view t db) ws⟩ := by
        simp only [Engine.run, hx, hwait, Bool.false_eq_true, if_false]
      rw [hrun]
      rw [← Engine.view_append t ws (t.held ++ E.needs s (E.view t db) ws)] at h
      refine (ih _ h).mono fun r c' db' hr => ?_
      obtain ⟨a, t', rfl, rfl, hstack, ⟨ws', hws⟩, hheld, hq⟩ := hr
      refine ⟨a, t', rfl, rfl, hstack, ⟨ws ++ ws', by rw [hws, List.append_assoc]⟩, ?_, hq⟩
      intro l hin
      cases hheld l hin with
      | inl hbefore =>
          cases List.mem_append.mp hbefore with
          | inl hold => exact .inl hold
          | inr hnew => exact .inr (hl l hnew)
      | inr hnew => exact .inr hnew
  | begin k ih => exact h.elim
  | commit k ih => exact h.elim
  | rollback k ih => exact h.elim

/-- A transaction whose body goes through commits it. -/
theorem Engine.Goes.sure_transaction {p : Prog S ε α} {c : Local S ω ℓ ε} {db : σ}
    (hfree : ∀ l ∈ heldBy c.stack, ¬L l) (h : E.Goes L W p Q db) :
    E.Sure W (Prog.transaction p) (fun r c' db' => ∃ a, r = .ok a ∧ c'.stack = c.stack ∧ Q a db')
      c db := by
  refine Engine.sure_transaction ((Engine.Goes.sure (t := {}) hfree h).mono fun r c' db' hr => ?_)
  obtain ⟨a, t, rfl, rfl, hstack, -, -, hq⟩ := hr
  exact ⟨t, hstack, a, rfl, rfl, hq⟩

/-- A program leaves the store valid and the stack in order. -/
theorem Engine.Sure.ordered {p : Prog S ε α} {Q : Post S σ ω ℓ ε α} {c : Local S ω ℓ ε} {db : σ}
    (hv : D.valid db) (hs : D.StackOk c.stack db) (h : E.Sure W p Q c db) :
    E.Sure W p (fun r c' db' => Q r c' db' ∧ D.valid db' ∧ D.StackOk c'.stack db') c db := by
  have hwp : (Protocol.solo D fun _ => True).wp p (fun _ _ _ => True) c db :=
    Protocol.wp_of_keeps (fun _ _ _ => ⟨trivial, trivial⟩) p c db
  exact (h.and (Protocol.sure_of_wp hv hs hwp)).mono fun r c' db' hr => ⟨hr.1, hr.2.2⟩

/-- The same for one that closes the transactions it opens: it only adds to the
store. -/
theorem Engine.Sure.framed {p : Prog S ε α} {Q : Post S σ ω ℓ ε α} {c : Local S ω ℓ ε} {db : σ}
    (hv : D.valid db) (hs : D.StackOk c.stack db) (honly : Only anyStmt p 0)
    (h : E.Sure W p Q c db) :
    E.Sure W p (fun r c' db' => Q r c' db' ∧ D.valid db' ∧ D.StackOk c'.stack db' ∧ D.le db db')
      c db := by
  have hwp : (Protocol.solo D fun _ => True).wp p (fun _ _ _ => True) c db :=
    Protocol.wp_of_keeps (fun _ _ _ => ⟨trivial, trivial⟩) p c db
  refine (h.and (Protocol.sure_of_wp hv hs (Protocol.wp_frame _ honly hwp))).mono
    fun r c' db' hr => ?_
  obtain ⟨hq, ⟨-, hframe⟩, hv', hs'⟩ := hr
  exact ⟨hq, hv', hs', hframe.le⟩

/-- What no write undoes is there until the end of a program. -/
theorem Engine.sure_lasts {A : σ → Prop} {p : Prog S ε α} {c : Local S ω ℓ ε} {db : σ}
    (hA : ∀ db db', D.valid db → D.le db db' → A db → A db') (hv : D.valid db)
    (hs : D.StackOk c.stack db) (h : A db) : E.Sure W p (fun _ _ db' => A db') c db := by
  induction p generalizing c db with
  | ret r => exact h
  | stmt s k ih =>
      intro env _
      obtain ⟨hv', hs', hle, -⟩ := D.run_ok (s := s) (.go env) hv hs
      exact ih _ hv' hs' (hA _ _ hv hle h)
  | begin k ih => exact ih hv hs.push h
  | commit k ih =>
      intro env _
      obtain ⟨hv', hs', hle, -⟩ := D.next_ok (.go env) (c := ⟨.commit k, c⟩) rfl hv hs
      exact ih _ hv' hs' (hA _ _ hv hle h)
  | rollback k ih =>
      obtain ⟨hv', hs', -⟩ := D.next_ok (.fail "") (c := ⟨.rollback k, c⟩) rfl hv hs
      exact ih hv' hs' h

/-- What a program is sure to bring about is there after whatever follows it. -/
theorem Engine.Sure.lasts {A : σ → Prop} {p : Prog S ε α} {f : Except ε α → Prog S ε β}
    {c : Local S ω ℓ ε} {db : σ} (hA : ∀ db db', D.valid db → D.le db db' → A db → A db')
    (hv : D.valid db) (hs : D.StackOk c.stack db) (h : E.Sure W p (fun _ _ db' => A db') c db) :
    E.Sure W (p.andThen f) (fun _ _ db' => A db') c db := by
  rw [Engine.sure_andThen]
  exact (h.ordered hv hs).mono fun r c' db' hr => Engine.sure_lasts hA hr.2.1 hr.2.2 hr.1

/-- A transaction around a program that commits on its own: its first part goes
through with locks in `L`, the program in the middle leaves `M`, and the last
part goes through on top of that. -/
theorem Engine.sure_transaction_around {K : ℓ → Prop} {p : Prog S ε α} {m : α → Prog S ε β}
    {γ : Type} {q : α → β → Prog S ε γ} {R : α → σ → Prop} {M : α → β → σ → Prop}
    {Z : γ → σ → Prop} {c : Local S ω ℓ ε} {db : σ} (hv : D.valid db) (hs : D.StackOk c.stack db)
    (hfree : ∀ l ∈ heldBy c.stack, ¬L l ∧ ¬K l) (hp : E.Goes L W p R db)
    (honly : ∀ a, Only anyStmt (m a) 0)
    (hm : ∀ a c₁, (∀ l ∈ heldBy c₁.stack, L l ∨ l ∈ heldBy c.stack) →
      E.Sure W (m a) (fun r c' db' => ∃ b, r = .ok b ∧ c'.stack = c₁.stack ∧ M a b db') c₁ db)
    (hq : ∀ a b db' v, D.valid v → D.le db db' → D.le db' v → M a b db' →
      E.Goes K W (q a b) Z v) :
    E.Sure W (Prog.transaction (p >>= fun a => m a >>= q a)) (fun r c' db' =>
      ∃ g, r = .ok g ∧ c'.stack = c.stack ∧ Z g db') c db := by
  refine Engine.sure_transaction (Engine.sure_bind ?_)
  refine ((Engine.Goes.sure (t := {}) (fun l hl => (hfree l hl).1) hp).ordered hv hs.push).mono
    fun r c₁ db₁ hr => ?_
  obtain ⟨⟨a, t, rfl, rfl, hstack, -, hheld, -⟩, -, hs₁⟩ := hr
  refine Engine.sure_bind (((hm a c₁ ?_).framed hv hs₁ (honly a)).mono fun r c₂ db₂ hr => ?_)
  · rw [hstack, heldBy_cons]
    intro l hl
    cases List.mem_append.mp hl with
    | inl hin => exact .inl ((hheld l hin).resolve_left (by simp))
    | inr hout => exact .inr hout
  obtain ⟨⟨b, rfl, hstack₂, hmid⟩, hv₂, hs₂, hle⟩ := hr
  obtain ⟨stack₂, trace₂⟩ := c₂
  obtain rfl : stack₂ = t :: c.stack := hstack₂.trans hstack
  have hgoes := hq a b db₂ (E.view t db₂) (hs₂.valid_view hv₂) hle (D.le_applyAll _ _) hmid
  refine (Engine.Goes.sure (fun l hl => (hfree l hl).2) hgoes).mono fun r c₃ db₃ hr => ?_
  obtain ⟨g, t', rfl, rfl, hstack₃, -, -, hz⟩ := hr
  exact ⟨t', hstack₃, g, rfl, rfl, hz⟩

/-- What such a program brings about is there even if the rest is given up. -/
theorem Engine.sure_transaction_lasts {A : σ → Prop} {γ : Type} {p : Prog S ε α}
    {m : α → Prog S ε β} {q : α → β → Prog S ε γ} {R : α → σ → Prop} {c : Local S ω ℓ ε} {db : σ}
    (hA : ∀ db db', D.valid db → D.le db db' → A db → A db') (hv : D.valid db)
    (hs : D.StackOk c.stack db) (hfree : ∀ l ∈ heldBy c.stack, ¬L l) (hp : E.Goes L W p R db)
    (hm : ∀ a c₁, (∀ l ∈ heldBy c₁.stack, L l ∨ l ∈ heldBy c.stack) →
      E.Sure W (m a) (fun _ _ db' => A db') c₁ db) :
    E.Sure W (Prog.transaction (p >>= fun a => m a >>= q a)) (fun _ _ db' => A db') c db := by
  show E.Sure W _ _ ⟨{} :: c.stack, .begin :: c.trace⟩ db
  refine Engine.Sure.lasts hA hv hs.push (Engine.sure_bind ?_)
  refine ((Engine.Goes.sure (t := {}) hfree hp).ordered hv hs.push).mono fun r c₁ db₁ hr => ?_
  obtain ⟨⟨a, t, rfl, rfl, hstack, -, hheld, -⟩, -, hs₁⟩ := hr
  refine Engine.Sure.lasts hA hv hs₁ (hm a c₁ fun l hl => ?_)
  rw [hstack, heldBy_cons] at hl
  cases List.mem_append.mp hl with
  | inl hin => exact .inl ((hheld l hin).resolve_left (by simp))
  | inr hout => exact .inr hout

end Goes

end Transact
