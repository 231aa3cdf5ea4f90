import PaymentBilling.Transact.Scope

/-!
# Transact.Authors

Who has written what is in the store, and what a client can be asked to run.

Nothing gets into the store but by a statement of a client, and every client
remembers its statements: whatever is committed, pending or read during a run
goes back to statements in the traces (`Authored`).

`OnlyGiven A N p d` is `Only N p d` for programs that choose their statements
by what they have read: outside of all transactions an answer may be assumed to
satisfy `A`, which a run has to justify from the databases that it commits.
-/

set_option linter.unusedSectionVars false

namespace Transact

variable {S : Type → Type} {σ ω ℓ ε η α β ι : Type} [DecidableEq ℓ] {E : Engine S σ ω ℓ ε η}

/-! ## What a statement did -/

/-- A statement fails and changes nothing, or it answers from what it sees: its
writes join the open transaction, or commit at once when there is none. -/
theorem Engine.run_cases (E : Engine S σ ω ℓ ε η) (s : S β) (ch : Choice η)
    (stack : List (Tx ω ℓ)) (db : σ) :
    (∃ e, (E.run s ch stack db).answer = .error e ∧ (E.run s ch stack db).stack = stack ∧
      (E.run s ch stack db).db = db) ∨
    ∃ env b ws, (E.run s ch stack db).answer = .ok b ∧
      ((stack = [] ∧ E.exec s env db = .ok (b, ws) ∧ (E.run s ch stack db).stack = [] ∧
          (E.run s ch stack db).db = E.applyAll ws db) ∨
        ∃ t ts held, stack = t :: ts ∧ E.exec s env (E.view t db) = .ok (b, ws) ∧
          (E.run s ch stack db).stack = ⟨t.writes ++ ws, held⟩ :: ts ∧
          (E.run s ch stack db).db = db) := by
  cases ch with
  | fail m => exact .inl ⟨_, rfl, rfl, rfl⟩
  | go env =>
      cases stack with
      | nil =>
          cases hx : E.exec s env db with
          | error e =>
              have hrun : E.run s (.go env) [] db = ⟨.error e, [], db, []⟩ := by
                simp only [Engine.run, hx]
              rw [hrun]
              exact .inl ⟨e, rfl, rfl, rfl⟩
          | ok r =>
              obtain ⟨b, ws⟩ := r
              have hrun : E.run s (.go env) [] db =
                  ⟨.ok b, [], E.applyAll ws db, E.needs s db ws⟩ := by
                simp only [Engine.run, hx]
              rw [hrun]
              exact .inr ⟨env, b, ws, rfl, .inl ⟨rfl, hx, rfl, rfl⟩⟩
      | cons t ts =>
          cases hx : E.exec s env (E.view t db) with
          | error e =>
              have hrun : E.run s (.go env) (t :: ts) db = ⟨.error e, t :: ts, db, []⟩ := by
                simp only [Engine.run, hx]
              rw [hrun]
              exact .inl ⟨e, rfl, rfl, rfl⟩
          | ok r =>
              obtain ⟨b, ws⟩ := r
              simp only [Engine.run, hx]
              split
              · exact .inl ⟨_, rfl, rfl, rfl⟩
              · exact .inr ⟨env, b, ws, rfl, .inr ⟨t, ts, _, rfl, hx, rfl, rfl⟩⟩

/-- A commit changes nothing, or makes what one transaction sees the database. -/
theorem Engine.commit_db (E : Engine S σ ω ℓ ε η) (ch : Choice η) (stack : List (Tx ω ℓ)) (db : σ) :
    (E.commit ch stack db).db = db ∨ ∃ t ∈ stack, (E.commit ch stack db).db = E.view t db := by
  cases stack with
  | nil => cases ch <;> exact .inl rfl
  | cons t ts =>
      cases ch with
      | fail m => exact .inl rfl
      | go env => exact .inr ⟨t, .head _, rfl⟩

/-! ## Authors -/

namespace Engine

variable (E : Engine S σ ω ℓ ε η)

/-- A statement of the trace has made the write. -/
def Wrote (trace : List (Event S ε)) (w : ω) : Prop :=
  ∃ (β : Type) (s : S β) (b : β) (env : η) (db : σ) (ws : List ω),
    Event.stmt s (.ok b) ∈ trace ∧ E.exec s env db = .ok (b, ws) ∧ w ∈ ws

/-- Statements of the clients have made `db` of `db₀`. -/
def Made (s : Sys S σ ω ℓ ε α ι) (db₀ db : σ) : Prop :=
  ∃ ws, db = E.applyAll ws db₀ ∧ ∀ w ∈ ws, ∃ i, E.Wrote (s.clients i).loc.trace w

/-- What is committed, what is pending and what has been read goes back to
statements of the clients; a pending write is the client's own. -/
structure Authored (db₀ : σ) (s : Sys S σ ω ℓ ε α ι) : Prop where
  committed : E.Made s db₀ s.db
  pending : ∀ i, ∀ t ∈ (s.clients i).loc.stack, ∀ w ∈ t.writes, E.Wrote (s.clients i).loc.trace w
  read : ∀ i (β : Type) (st : S β) (b : β), Event.stmt st (.ok b) ∈ (s.clients i).loc.trace →
    ∃ env db ws, E.Made s db₀ db ∧ E.exec st env db = .ok (b, ws)

variable {E}

theorem Wrote.grow {trace events : List (Event S ε)} {w : ω} (h : E.Wrote trace w) :
    E.Wrote (events ++ trace) w := by
  obtain ⟨β, s, b, env, db, ws, hevent, hexec, hw⟩ := h
  exact ⟨β, s, b, env, db, ws, List.mem_append_right _ hevent, hexec, hw⟩

theorem Made.refl (s : Sys S σ ω ℓ ε α ι) (db₀ : σ) : E.Made s db₀ db₀ := ⟨[], rfl, by simp⟩

/-- More writes of one client. -/
theorem Made.append {s : Sys S σ ω ℓ ε α ι} {db₀ db : σ} {ws : List ω} {i : ι} (h : E.Made s db₀ db)
    (hws : ∀ w ∈ ws, E.Wrote (s.clients i).loc.trace w) : E.Made s db₀ (E.applyAll ws db) := by
  obtain ⟨before, rfl, hbefore⟩ := h
  refine ⟨before ++ ws, (E.applyAll_append before ws db₀).symm, fun w hw => ?_⟩
  cases List.mem_append.mp hw with
  | inl hw => exact hbefore w hw
  | inr hw => exact ⟨i, hws w hw⟩

/-- What the newest statement has read, or an older one. -/
theorem read_cons {M : σ → Prop} {trace : List (Event S ε)} {st : S β} {b : β} {env : η} {db : σ}
    {ws : List ω} (hM : M db) (hexec : E.exec st env db = .ok (b, ws)) {β' : Type} {st' : S β'}
    {b' : β'} (h : Event.stmt st' (.ok b') ∈ Event.stmt st (.ok b) :: trace) :
    Event.stmt st' (.ok b') ∈ trace ∨ ∃ env db ws, M db ∧ E.exec st' env db = .ok (b', ws) := by
  cases h with
  | head => exact .inr ⟨env, db, ws, hM, hexec⟩
  | tail _ hin => exact .inl hin

end Engine

section Step

variable [DecidableEq ι] {s s' : Sys S σ ω ℓ ε α ι} {i : ι} {db₀ : σ}
  {C : Sys S σ ω ℓ ε α ι → ι → Sys S σ ω ℓ ε α ι → Prop}

theorem Engine.Made.step {db : σ} (h : E.Made s db₀ db) (hstep : Step E s i s') :
    E.Made s' db₀ db := by
  obtain ⟨ws, hdb, hws⟩ := h
  refine ⟨ws, hdb, fun w hw => ?_⟩
  obtain ⟨j, hj⟩ := hws w hw
  obtain ⟨events, he⟩ := hstep.trace_grows j
  exact ⟨j, by rw [he]; exact hj.grow⟩

/-- What a step adds has to be accounted for only where the client that takes
it stands. -/
theorem Engine.Authored.of_step (h : E.Authored db₀ s) (hstep : Step E s i s')
    (hcommitted : E.Made s' db₀ s'.db)
    (hpending : ∀ t ∈ (s'.clients i).loc.stack, ∀ w ∈ t.writes,
      E.Wrote (s'.clients i).loc.trace w)
    (hread : ∀ (β : Type) (st : S β) (b : β), Event.stmt st (.ok b) ∈ (s'.clients i).loc.trace →
      Event.stmt st (.ok b) ∈ (s.clients i).loc.trace ∨
        ∃ env db ws, E.Made s' db₀ db ∧ E.exec st env db = .ok (b, ws)) :
    E.Authored db₀ s' where
  committed := hcommitted
  pending j := by
    by_cases hj : j = i
    · rw [hj]
      exact hpending
    · rw [hstep.other hj]
      exact h.pending j
  read j β st b hevent := by
    have hold : Event.stmt st (.ok b) ∈ (s.clients j).loc.trace →
        ∃ env db ws, E.Made s' db₀ db ∧ E.exec st env db = .ok (b, ws) := by
      intro hin
      obtain ⟨env, db, ws, hmade, hexec⟩ := h.read j β st b hin
      exact ⟨env, db, ws, hmade.step hstep, hexec⟩
    by_cases hj : j = i
    · rw [hj] at hevent hold
      cases hread β st b hevent with
      | inl hin => exact hold hin
      | inr hnew => exact hnew
    · rw [hstep.other hj] at hevent
      exact hold hevent

/-- A step keeps authorship. -/
theorem Engine.Authored.step (h : E.Authored db₀ s) (hstep : Step E s i s') :
    E.Authored db₀ s' := by
  have hmade : ∀ {db}, E.Made s db₀ db → E.Made s' db₀ db := fun hm => hm.step hstep
  obtain ⟨events, hgrows⟩ := hstep.trace_grows i
  have hpending : ∀ t ∈ (s.clients i).loc.stack, ∀ w ∈ t.writes,
      E.Wrote (s'.clients i).loc.trace w := by
    intro t ht w hw
    rw [hgrows]
    exact (h.pending i t ht w hw).grow
  have hview : ∀ t ∈ (s.clients i).loc.stack, E.Made s' db₀ (E.view t s.db) := fun t ht =>
    (hmade h.committed).append (hpending t ht)
  have hs := hstep
  obtain ⟨ch, c, db, took, hn, -, rfl⟩ := hstep
  simp only [Function.update_self] at hpending
  cases hp : (s.clients i).prog with
  | ret r => simp [Engine.next, hp] at hn
  | stmt st k =>
      simp only [Engine.next, hp, Option.some.injEq, Prod.mk.injEq] at hn
      obtain ⟨rfl, rfl, rfl⟩ := hn
      rcases E.run_cases st ch (s.clients i).loc.stack s.db with
        ⟨e, ha, hst, hdb⟩ | ⟨env, b, ws, ha, hdone⟩
      · -- a statement that fails leaves no trace but its failure
        refine h.of_step hs ?_ ?_ ?_
        · rw [hdb]
          exact hmade h.committed
        · simp only [Function.update_self, hst]
          exact hpending
        · intro β st' b hevent
          simp only [Function.update_self, ha] at hevent
          cases hevent with
          | tail _ hin => exact .inl hin
      · have hnew : ∀ db, E.exec st env db = .ok (b, ws) → ∀ w ∈ ws,
            E.Wrote (.stmt st (.ok b) :: (s.clients i).loc.trace) w := fun db hexec w hw =>
          ⟨_, st, b, env, db, ws, .head _, hexec, hw⟩
        rcases hdone with ⟨hnil, hexec, hst, hdb⟩ | ⟨t, ts, held, hcons, hexec, hst, hdb⟩
        · refine h.of_step hs ?_ ?_ ?_
          · rw [hdb]
            refine (hmade h.committed).append (i := i) fun w hw => ?_
            simp only [Function.update_self, ha]
            exact hnew s.db hexec w hw
          · simp only [Function.update_self, hst]
            simp
          · intro β' st' b' hevent
            simp only [Function.update_self, ha] at hevent
            exact read_cons (hmade h.committed) hexec hevent
        · have ht : t ∈ (s.clients i).loc.stack := by
            rw [hcons]
            exact .head _
          refine h.of_step hs ?_ ?_ ?_
          · rw [hdb]
            exact hmade h.committed
          · simp only [Function.update_self, hst, ha, List.forall_mem_cons, List.mem_append]
            rw [ha] at hpending
            refine ⟨fun w hw => ?_, fun t' ht' => hpending t' (by rw [hcons]; exact .tail _ ht')⟩
            cases hw with
            | inl hw => exact hpending t ht w hw
            | inr hw => exact hnew _ hexec w hw
          · intro β' st' b' hevent
            simp only [Function.update_self, ha] at hevent
            exact read_cons (hview t ht) hexec hevent
  | begin k =>
      simp only [Engine.next, hp, Option.some.injEq, Prod.mk.injEq] at hn
      obtain ⟨rfl, rfl, rfl⟩ := hn
      refine h.of_step hs (hmade h.committed) ?_ ?_
      · simp only [Function.update_self, List.forall_mem_cons]
        exact ⟨by simp, hpending⟩
      · intro β st b hevent
        simp only [Function.update_self] at hevent
        cases hevent with
        | tail _ hin => exact .inl hin
  | commit k =>
      simp only [Engine.next, hp, Option.some.injEq, Prod.mk.injEq] at hn
      obtain ⟨rfl, rfl, rfl⟩ := hn
      refine h.of_step hs ?_ ?_ ?_
      · rcases E.commit_db ch (s.clients i).loc.stack s.db with hdb | ⟨t, ht, hdb⟩
        · simpa only [hdb] using hmade h.committed
        · simpa only [hdb] using hview t ht
      · simp only [Function.update_self]
        cases hstack : (s.clients i).loc.stack with
        | nil => cases ch <;> simp [Engine.commit]
        | cons t ts =>
            rw [hstack] at hpending
            cases ch with
            | fail m => exact fun t' ht' => hpending t' (.tail _ ht')
            | go env => exact fun t' ht' => hpending t' (.tail _ ht')
      · intro β st b hevent
        simp only [Function.update_self] at hevent
        cases hevent with
        | tail _ hin => exact .inl hin
  | rollback k =>
      simp only [Engine.next, hp, Option.some.injEq, Prod.mk.injEq] at hn
      obtain ⟨rfl, rfl, rfl⟩ := hn
      refine h.of_step hs (hmade h.committed) ?_ ?_
      · simp only [Function.update_self]
        exact fun t ht => hpending t (List.mem_of_mem_tail ht)
      · intro β st b hevent
        simp only [Function.update_self] at hevent
        cases hevent with
        | tail _ hin => exact .inl hin

/-- Throughout a run everything goes back to statements of the clients. -/
theorem Runs.authored {db : σ} {progs : ι → Prog S ε α} (h : Runs E C (Sys.start db progs) s) :
    E.Authored db s := by
  induction h with
  | refl =>
      exact ⟨.refl _ _, fun _ _ ht => (List.not_mem_nil ht).elim,
        fun _ _ _ _ hevent => (List.not_mem_nil hevent).elim⟩
  | step _ hstep _ ih => exact ih.step hstep

end Step

/-! ## Statements chosen by answers -/

/-- `p` closes `d` more transactions than it opens, and all its statements
satisfy `N`, provided that the answers it gets outside of all transactions
satisfy `A`. -/
def OnlyGiven (A : (β : Type) → S β → β → Prop) (N : (β : Type) → S β → Prop) :
    Prog S ε α → Nat → Prop
  | .ret _, d => d = 0
  | .stmt s k, d => N _ s ∧ ∀ r, (d = 0 → ∀ b, r = .ok b → A _ s b) → OnlyGiven A N (k r) d
  | .begin k, d => OnlyGiven A N k (d + 1)
  | .commit _, 0 => False
  | .commit k, d + 1 => ∀ r, OnlyGiven A N (k r) d
  | .rollback _, 0 => False
  | .rollback k, d + 1 => OnlyGiven A N k d

section Given

variable {A : (β : Type) → S β → β → Prop} {N : (β : Type) → S β → Prop}

/-- Nothing has to be assumed where nothing is chosen. -/
theorem Only.given {p : Prog S ε α} {d : Nat} (h : Only N p d) : OnlyGiven A N p d := by
  induction p generalizing d with
  | ret r => exact h
  | stmt s k ih => exact ⟨h.1, fun r _ => ih r (h.2 r)⟩
  | begin k ih => exact ih h
  | commit k ih =>
      cases d with
      | zero => exact h.elim
      | succ d => exact fun r => ih r (h r)
  | rollback k ih =>
      cases d with
      | zero => exact h.elim
      | succ d => exact ih h

theorem given_andThen {p : Prog S ε α} {f : Except ε α → Prog S ε β} {d : Nat}
    (hp : OnlyGiven A N p d) (hf : ∀ r, OnlyGiven A N (f r) 0) : OnlyGiven A N (p.andThen f) d := by
  induction p generalizing d with
  | ret r =>
      have hd : d = 0 := hp
      rw [hd]
      exact hf r
  | stmt s k ih => exact ⟨hp.1, fun r hr => ih r (hp.2 r hr)⟩
  | begin k ih => exact ih hp
  | commit k ih =>
      cases d with
      | zero => exact hp.elim
      | succ d => exact fun r => ih r (hp r)
  | rollback k ih =>
      cases d with
      | zero => exact hp.elim
      | succ d => exact ih hp

theorem given_bind {p : Prog S ε α} {f : α → Prog S ε β} (hp : OnlyGiven A N p 0)
    (hf : ∀ a, OnlyGiven A N (f a) 0) : OnlyGiven A N (p >>= f) 0 := by
  refine given_andThen hp fun r => ?_
  cases r with
  | ok a => exact hf a
  | error e => rfl

/-- What follows a statement may rely on its answer. -/
theorem given_exec_bind {s : S α} {f : α → Prog S ε β} (hs : N _ s)
    (hf : ∀ a, A _ s a → OnlyGiven A N (f a) 0) : OnlyGiven A N (Prog.exec s >>= f) 0 := by
  refine ⟨hs, fun r hr => ?_⟩
  cases r with
  | ok a => exact hf a (hr rfl a rfl)
  | error e => rfl

end Given

/-- The statements of a client are in `N`, and so are those that it still has
to run. -/
def Confined (A : (β : Type) → S β → β → Prop) (N : (β : Type) → S β → Prop)
    (c : Client S ω ℓ ε α) : Prop :=
  OnlyGiven A N c.prog c.loc.stack.length ∧
    ∀ (β : Type) (st : S β) r, Event.stmt st r ∈ c.loc.trace → N β st

section Runs

variable [DecidableEq ι] {s s' : Sys S σ ω ℓ ε α ι} {i : ι} {D : Discipline E}
  {C : Sys S σ ω ℓ ε α ι → ι → Sys S σ ω ℓ ε α ι → Prop}
  {A : (β : Type) → S β → β → Prop}

/-- A client stays confined by a step that it takes, if it reads what may be
assumed outside of all transactions. -/
theorem Confined.step {N : (β : Type) → S β → Prop} (h : Confined A N (s.clients i))
    (hstep : Step E s i s')
    (hA : ∀ (β : Type) (st : S β) env b ws, E.exec st env s.db = .ok (b, ws) → A β st b) :
    Confined A N (s'.clients i) := by
  obtain ⟨hprog, htrace⟩ := h
  obtain ⟨ch, c, db, took, hn, -, rfl⟩ := hstep
  simp only [Function.update_self]
  have hother : ∀ {e : Event S ε}, (∀ (β : Type) (st : S β) r, e = .stmt st r → N β st) →
      ∀ (β : Type) (st : S β) r, Event.stmt st r ∈ e :: (s.clients i).loc.trace → N β st := by
    intro e he β st r hevent
    cases List.mem_cons.mp hevent with
    | inl heq => exact he β st r heq.symm
    | inr hin => exact htrace β st r hin
  cases hp : (s.clients i).prog with
  | ret r => simp [Engine.next, hp] at hn
  | stmt st k =>
      simp only [Engine.next, hp, Option.some.injEq, Prod.mk.injEq] at hn
      obtain ⟨rfl, -, -⟩ := hn
      rw [hp] at hprog
      refine ⟨?_, hother fun β st' r heq => ?_⟩
      · rcases E.run_cases st ch (s.clients i).loc.stack s.db with
          ⟨e, ha, hst, -⟩ | ⟨env, b, ws, ha, hdone⟩
        · simp only [ha, hst]
          refine hprog.2 _ fun _ b hb => ?_
          cases hb
        · rcases hdone with ⟨hnil, hexec, hst, -⟩ | ⟨t, ts, held, hcons, -, hst, -⟩
          · simp only [ha, hst]
            rw [hnil] at hprog
            refine hprog.2 _ fun _ b' hb => ?_
            obtain rfl := Except.ok.inj hb
            exact hA _ st env b ws hexec
          · simp only [ha, hst]
            rw [hcons] at hprog
            refine hprog.2 _ fun hzero => ?_
            cases hzero
      · cases heq
        exact hprog.1
  | begin k =>
      simp only [Engine.next, hp, Option.some.injEq, Prod.mk.injEq] at hn
      obtain ⟨rfl, -, -⟩ := hn
      rw [hp] at hprog
      refine ⟨hprog, hother fun _ _ _ heq => ?_⟩
      cases heq
  | commit k =>
      simp only [Engine.next, hp, Option.some.injEq, Prod.mk.injEq] at hn
      obtain ⟨rfl, -, -⟩ := hn
      rw [hp] at hprog
      refine ⟨?_, hother fun _ _ _ heq => by cases heq⟩
      cases hstack : (s.clients i).loc.stack with
      | nil =>
          rw [hstack] at hprog
          exact hprog.elim
      | cons t ts =>
          rw [hstack] at hprog
          cases ch with
          | fail m => exact hprog _
          | go env => exact hprog _
  | rollback k =>
      simp only [Engine.next, hp, Option.some.injEq, Prod.mk.injEq] at hn
      obtain ⟨rfl, -, -⟩ := hn
      rw [hp] at hprog
      refine ⟨?_, hother fun _ _ _ heq => by cases heq⟩
      cases hstack : (s.clients i).loc.stack with
      | nil =>
          rw [hstack] at hprog
          exact hprog.elim
      | cons t ts =>
          rw [hstack] at hprog
          exact hprog

/-- Programs that choose their statements by answers keep to `N` in every run
whose committed databases, up to `final`, answer as assumed. -/
theorem Runs.confined {db final : σ} {progs : ι → Prog S ε α}
    {N : ι → (β : Type) → S β → Prop} (hv : D.valid db)
    (h : Runs E C (Sys.start db progs) s) (hfinal : D.le s.db final)
    (hA : ∀ (β : Type) (st : S β) env db b ws, D.le db final →
      E.exec st env db = .ok (b, ws) → A β st b)
    (hp : ∀ i, OnlyGiven A (N i) (progs i) 0) (i : ι) : Confined A (N i) (s.clients i) := by
  induction h with
  | refl => exact ⟨hp i, fun _ _ _ hevent => (List.not_mem_nil hevent).elim⟩
  | @step s₁ s₂ j hruns hstep _ ih =>
      have hok := (Discipline.SysOk.start D hv progs).runs hruns
      have hle : D.le s₁.db s₂.db := by
        obtain ⟨ch, c, db, took, hn, -, rfl⟩ := hstep
        exact (D.next_ok ch hn hok.1.valid (hok.1.stack j)).2.2.1
      have hbefore := ih (D.le_trans hle hfinal)
      by_cases hj : i = j
      · rw [← hj] at hstep
        exact hbefore.step hstep fun β st env b ws hexec =>
          hA β st env s₁.db b ws (D.le_trans hle hfinal) hexec
      · rw [hstep.other hj]
        exact hbefore

end Runs

end Transact
