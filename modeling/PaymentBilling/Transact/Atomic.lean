import PaymentBilling.Transact.Sure

/-!
# Transact.Atomic

Transactions that fail after a part of them has committed.

A program in the middle of a transaction that opens one of its own commits it
at once.  If the outer transaction fails, it leaves the database as it was, but
for what the program in the middle has committed (`wp_transaction_kept`); and
it can always be made to fail after that (`ends_transaction_lasts`).
-/

set_option linter.unusedSectionVars false

namespace Transact

variable {S : Type → Type} {σ ω ℓ ε η α β γ κ : Type} [DecidableEq ℓ] {E : Engine S σ ω ℓ ε η}
  {D : Discipline E}

/-! ## Programs without transactions -/

/-- The program opens and closes no transaction. -/
def Plain : Prog S ε α → Prop
  | .ret _ => True
  | .stmt _ k => ∀ r, Plain (k r)
  | .begin _ => False
  | .commit _ => False
  | .rollback _ => False

section Plain

variable {p : Prog S ε α}

theorem plain_andThen {f : Except ε α → Prog S ε β} (hp : Plain p) (hf : ∀ r, Plain (f r)) :
    Plain (p.andThen f) := by
  induction p with
  | ret r => exact hf r
  | stmt s k ih => exact fun r => ih r (hp r)
  | begin k => exact hp.elim
  | commit k => exact hp.elim
  | rollback k => exact hp.elim

theorem plain_pure (a : α) : Plain (pure a : Prog S ε α) := trivial

theorem plain_throw (e : ε) : Plain (throw e : Prog S ε α) := trivial

theorem plain_exec (s : S α) : Plain (Prog.exec s : Prog S ε α) := fun _ => trivial

theorem plain_bind {f : α → Prog S ε β} (hp : Plain p) (hf : ∀ a, Plain (f a)) : Plain (p >>= f) := by
  rw [Prog.bind_def]
  refine plain_andThen hp fun r => ?_
  cases r with
  | ok a => exact hf a
  | error e => exact plain_throw e

theorem plain_tryCatch {h : ε → Prog S ε α} (hp : Plain p) (hh : ∀ e, Plain (h e)) :
    Plain (tryCatch p h) := by
  rw [Prog.tryCatch_def]
  refine plain_andThen hp fun r => ?_
  cases r with
  | ok a => exact plain_pure a
  | error e => exact hh e

end Plain

/-! ## What a failure leaves -/

section Kept

variable {c : Local S ω ℓ ε} {t : Tx ω ℓ} {ts : List (Tx ω ℓ)} {db : σ}

/-- A statement in a transaction leaves the committed database alone. -/
theorem Engine.run_cons (s : S α) (ch : Choice η) (t : Tx ω ℓ) (ts : List (Tx ω ℓ)) (db : σ) :
    (E.run s ch (t :: ts) db).db = db ∧ ∃ t', (E.run s ch (t :: ts) db).stack = t' :: ts := by
  cases ch with
  | fail m => exact ⟨rfl, t, rfl⟩
  | go env =>
      cases hx : E.exec s env (E.view t db) with
      | error e =>
          simp only [run, hx]
          exact ⟨trivial, t, rfl⟩
      | ok r =>
          simp only [run, hx]
          split
          · exact ⟨rfl, t, rfl⟩
          · exact ⟨rfl, _, rfl⟩

/-- Alone in a transaction, a program without transactions of its own leaves the
committed database alone. -/
theorem Protocol.wp_plain {p : Prog S ε α} {Q : Post S σ ω ℓ ε α} (hp : Plain p)
    (hc : c.stack = t :: ts) (h : (solo D fun _ => True).wp p Q c db) :
    (solo D fun _ => True).wp p (fun r c' db' => Q r c' db' ∧ db' = db ∧ ∃ t', c'.stack = t' :: ts)
      c db := by
  induction p generalizing c db t with
  | ret r => exact ⟨h, rfl, t, hc⟩
  | stmt s k ih =>
      intro db' hs ch
      obtain rfl : db' = db := hs.env
      obtain ⟨hdb, t', hstack⟩ := E.run_cons s ch t ts db'
      have hnext := (h db' hs ch).2
      rw [hc] at hnext ⊢
      rw [hdb] at hnext ⊢
      exact ⟨⟨trivial, trivial⟩, ih _ (hp _) hstack hnext⟩
  | begin k => exact hp.elim
  | commit k => exact hp.elim
  | rollback k => exact hp.elim

/-- What always holds does so after a program that runs alone. -/
theorem Protocol.wp_of_always {p : Prog S ε α} {Q : Post S σ ω ℓ ε α} (hQ : ∀ r c db, Q r c db) :
    (solo D fun _ => True).wp p Q c db :=
  wp_mono _ (fun r c db _ => hQ r c db) (wp_of_keeps (fun _ _ _ => ⟨trivial, trivial⟩) p c db)

/-- A transaction that fails alone leaves the database as it was, unless its
first part went through and the program in its middle made a change. -/
theorem Protocol.wp_transaction_kept {p : Prog S ε α} {m : α → Prog S ε β} {q : α → β → Prog S ε γ}
    {R M : α → Prop} (hplain : Plain p)
    (hp : (solo D fun _ => True).wp p (fun r _ _ => ∀ a, r = .ok a → R a)
      ⟨{} :: c.stack, .begin :: c.trace⟩ db)
    (hm : ∀ a c₁, R a → (solo D fun _ => True).wp (m a) (fun r c' db' =>
      (∀ b, r = .ok b → c'.stack = c₁.stack) ∧ (db' = db ∨ M a)) c₁ db)
    (hq : ∀ a b, Plain (q a b)) :
    (solo D fun _ => True).wp (Prog.transaction (p >>= fun a => m a >>= q a)) (fun r _ db' =>
      ∀ e, r = .error e → db' = db ∨ ∃ a, R a ∧ M a) c db := by
  refine wp_transaction _ fun db₀ hs₀ => ?_
  obtain rfl : db₀ = db := hs₀.env
  rw [wp_bind]
  refine wp_mono _ (fun r c₁ db₁ hr => ?_) (wp_plain hplain rfl hp)
  obtain ⟨hr, rfl, t, hstack₁⟩ := hr
  cases r with
  | error e => exact fun db' hs _ _ => .inl hs.env
  | ok a =>
      have ha := hr a rfl
      rw [bindPost_ok, wp_bind]
      refine wp_mono _ (fun r c₂ db₂ hr => ?_) (hm a c₁ ha)
      obtain ⟨hsame, hkept⟩ := hr
      have hkept : db₂ = db₁ ∨ ∃ a, R a ∧ M a := hkept.imp_right fun hmoved => ⟨a, ha, hmoved⟩
      cases r with
      | error e =>
          intro db' hs _ _
          rw [hs.env]
          exact hkept
      | ok b =>
          rw [bindPost_ok]
          refine wp_mono _ (fun r c₃ db₃ hr => ?_) (wp_plain (Q := fun _ _ _ => True) (hq a b)
            ((hsame b rfl).trans hstack₁) (wp_of_always fun _ _ _ => trivial))
          obtain ⟨-, rfl, t', hstack₃⟩ := hr
          cases r with
          | error e =>
              intro db' hs _ _
              rw [hs.env]
              exact hkept
          | ok g =>
              refine ⟨t', _, hstack₃, fun db' hs => ⟨⟨trivial, trivial⟩, nofun, fun _ _ _ => ?_⟩⟩
              rw [hs.env]
              exact hkept

/-- A transaction without others in it leaves the database as it was. -/
theorem Protocol.wp_transaction_plain {body : Prog S ε α} (hbody : Plain body) :
    (solo D fun _ => True).wp (Prog.transaction body) (fun r _ db' => ∀ e, r = .error e → db' = db)
      c db := by
  have heq : body = body >>= fun a => (pure a : Prog S ε α) >>= pure := by
    simp only [Prog.bind_pure]
  rw [heq]
  refine wp_mono _ (fun r c' db' hr e he => ?_) (wp_transaction_kept (R := fun _ => True)
    (M := fun _ => False) hbody (wp_of_always fun _ _ _ _ _ => trivial) (fun a c₁ _ => ⟨fun _ _ => rfl, .inl rfl⟩) fun _ b => plain_pure b)
  exact (hr e he).resolve_right fun ⟨_, _, h⟩ => h

/-- What a body that adds `X` has added when it runs alone. -/
theorem Protocol.wp_added {X : Effect D α} {p : Prog S ε α} (hv : D.valid db)
    (hok : D.StackOk c.stack db) (hplain : Plain p)
    (hp : (solo D fun _ => True).Does [] p X) :
    (solo D fun _ => True).wp p (fun r _ _ => ∀ a, r = .ok a →
      ∃ ws, D.fitsAll ws db ∧ X.rel a ws db) ⟨{} :: c.stack, .begin :: c.trace⟩ db := by
  have hadded := hp {} c.stack (.begin :: c.trace) db hv hok.push
  rw [List.append_nil] at hadded
  refine wp_mono _ (fun r c' db' hr a ha => ?_) (wp_plain hplain rfl (wp_stackOk _ hv hok.push hadded))
  obtain ⟨⟨hadded, hv', hok'⟩, rfl, -⟩ := hr
  obtain ⟨ws, held, hstack, hx⟩ := hadded.ok a ha
  exact ⟨ws, hok'.fits _ (by rw [hstack]; exact .head _), hx⟩

end Kept

/-! ## Failures on purpose -/

section Failing

variable {L : ℓ → Prop} {W : η → Prop} {db db' : σ} {c c' : Local S ω ℓ ε}

/-- The program can be made to fail without a change. -/
def Engine.Failing (E : Engine S σ ω ℓ ε η) (p : Prog S ε α) : Prop :=
  ∀ c db, ∃ r c', E.Ends anyFault p c db r c' db ∧ ∀ e, r = .error e → e = E.fault ""

theorem Engine.failing_pure (a : α) : E.Failing (pure a : Prog S ε α) :=
  fun c _ => ⟨.ok a, c, ends_pure.mpr ⟨rfl, rfl, rfl⟩, nofun⟩

theorem Engine.failing_exec_bind (s : S α) (f : α → Prog S ε β) :
    E.Failing (Prog.exec s >>= f) := fun c _ => by
  refine ⟨.error (E.fault ""), ⟨c.stack, .stmt s (.error (E.fault "")) :: c.trace⟩, ?_, ?_⟩
  · exact ends_bind.mpr (.inr ⟨_, rfl, ends_exec.mpr ⟨.fail "", trivial, rfl, rfl, rfl⟩⟩)
  · exact fun _ he => (Except.error.inj he).symm

theorem Engine.failing_exec (s : S α) : E.Failing (Prog.exec s : Prog S ε α) := fun c _ =>
  ⟨.error (E.fault ""), ⟨c.stack, .stmt s (.error (E.fault "")) :: c.trace⟩,
    ends_exec.mpr ⟨.fail "", trivial, rfl, rfl, rfl⟩, fun _ he => (Except.error.inj he).symm⟩

/-- A statement that only reads, before the rest of a program. -/
theorem Engine.ends_read_bind {F : Faults S ω ℓ ε} {s : S α} {a : α} {env : η} {f : α → Prog S ε β}
    {r : Except ε β} {trace : List (Event S ε)} (hx : E.exec s env db = .ok (a, []))
    (h : E.Ends F (f a) ⟨[], .stmt s (.ok a) :: trace⟩ db r c' db') :
    E.Ends F (Prog.exec s >>= f) ⟨[], trace⟩ db r c' db' := by
  refine ends_bind.mpr (.inl ⟨a, ⟨[], .stmt s (.ok a) :: trace⟩, db,
    ends_exec.mpr ⟨.go env, trivial, ?_⟩, h⟩)
  simp only [run, hx]
  exact ⟨trivial, trivial, rfl⟩

/-- What the body of a transaction has let others commit stays, though the
transaction fails after all. -/
theorem Engine.ends_transaction_fail {body : Prog S ε α} {r : Except ε α}
    (h : E.Ends anyFault body ⟨{} :: c.stack, .begin :: c.trace⟩ db r c' db')
    (hr : ∀ e, r = .error e → e = E.fault "") :
    ∃ c'', E.Ends anyFault (Prog.transaction body) c db (.error (E.fault "")) c'' db' := by
  cases r with
  | error e =>
      rw [hr e rfl] at h
      exact ⟨_, Engine.ends_andThen.mpr ⟨_, _, _, h, rfl, rfl, rfl⟩⟩
  | ok a => exact ⟨_, Engine.ends_andThen.mpr ⟨_, _, _, h, .fail "", trivial, rfl, rfl, rfl⟩⟩

/-- A transaction whose first part goes through can fail after the program in
its middle has brought about `A`. -/
theorem Engine.ends_transaction_lasts {e : η} {p : Prog S ε α} {m : α → Prog S ε β}
    {q : α → β → Prog S ε γ} {R : α → Prop} {A : σ → Prop} (hw : W e)
    (hfree : ∀ l ∈ heldBy c.stack, ¬L l) (hp : E.Goes L W p (fun a _ => R a) db)
    (hm : ∀ a c₁, R a → (∀ l ∈ heldBy c₁.stack, L l ∨ l ∈ heldBy c.stack) →
      E.Sure W (m a) (fun r _ db' => (∃ b, r = .ok b) ∧ A db') c₁ db)
    (hq : ∀ a b, E.Failing (q a b)) :
    ∃ c' db', E.Ends anyFault (Prog.transaction (p >>= fun a => m a >>= q a)) c db
      (.error (E.fault "")) c' db' ∧ A db' := by
  have hfirst : E.Sure W p _ ⟨{} :: c.stack, .begin :: c.trace⟩ db := Engine.Goes.sure (t := {}) hfree hp
  obtain ⟨r, c₁, db₁, hends₁, a, t, rfl, rfl, hstack, -, hheld, hr⟩ :=
    hfirst.ends (F := anyFault) hw
  have hlocks : ∀ l ∈ heldBy c₁.stack, L l ∨ l ∈ heldBy c.stack := by
    rw [hstack, heldBy_cons]
    intro l hl
    cases List.mem_append.mp hl with
    | inl hin => exact .inl ((hheld l hin).resolve_left (by simp))
    | inr hout => exact .inr hout
  obtain ⟨r, c₂, db₂, hends₂, ⟨b, rfl⟩, ha⟩ := (hm a c₁ hr hlocks).ends (F := anyFault) hw
  obtain ⟨r, c₃, hends₃, hfault⟩ := hq a b c₂ db₂
  have hbody : E.Ends anyFault (p >>= fun a => m a >>= q a) ⟨{} :: c.stack, .begin :: c.trace⟩ db₁
      r c₃ db₂ :=
    ends_bind.mpr (.inl ⟨a, c₁, db₁, hends₁, ends_bind.mpr (.inl ⟨b, c₂, db₂, hends₂, hends₃⟩)⟩)
  obtain ⟨c', hends⟩ := ends_transaction_fail hbody hfault
  exact ⟨c', db₂, hends, ha⟩

end Failing

end Transact
