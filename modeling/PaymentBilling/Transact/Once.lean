import PaymentBilling.Transact.Solo

/-!
# Transact.Once

Work that is done once, because a record of it is inserted first.

A `Record` says which statements insert the record, which write they make and
which lock it takes.  A program that runs its work in one transaction, whose
first statement inserts the record (`First`), can commit only while the record
is not there yet, and keeps everybody else's record out until it ends.  Of any
number of such programs one commits at most (`Once.settled_unique`), and when
one has, nothing changes any more (`Once.frozen`).

The statement is about the shape of programs, so it is proved on shapes: a
client is outside its transaction, about to insert the record, closing after it
failed to, or inside with the record among its writes (`Phase`).
-/

set_option linter.unusedSectionVars false

namespace Transact

variable {S : Type → Type} {σ ω ℓ ε η α β ι : Type} [DecidableEq ℓ] {E : Engine S σ ω ℓ ε η}

/-- A record of work that is done: the statements that insert it, the write
they make and the lock it takes. -/
structure Record (D : Discipline E) where
  done : σ → Prop
  lock : ℓ
  write : ω → Prop
  inserts : (β : Type) → S β → Prop
  done_le : ∀ {db db'}, D.le db db' → done db → done db'
  done_apply : ∀ {w} db, write w → done (E.apply w db)
  fresh : ∀ {w db}, write w → D.fits w db → ¬done db
  locked : ∀ {w}, write w → lock ∈ E.locks w
  written : ∀ {β} {s : S β} {env db b ws}, inserts β s → E.exec s env db = .ok (b, ws) →
    ∃ w ∈ ws, write w

/-- The client has ended with the commit of its outermost transaction. -/
def Client.Settled (x : Client S ω ℓ ε α) : Prop :=
  x.prog.finished = true ∧ x.loc.stack = [] ∧ ∃ trace, x.loc.trace = .commit (.ok ()) :: trace

/-- A client whose last action was another has not ended like that. -/
theorem Client.not_settled {x : Client S ω ℓ ε α} {φ : Prop}
    (h : ∀ trace, x.loc.trace ≠ .commit (.ok ()) :: trace) (hs : x.Settled) : φ := by
  obtain ⟨trace, htrace⟩ := hs.2.2
  exact (h trace htrace).elim

/-! ## Shapes of programs -/

/-- `p` closes `d + 1` more transactions than it opens, and ends with the last
of them. -/
def Wrapped : Prog S ε α → Nat → Prop
  | .ret _, _ => False
  | .stmt _ k, d => ∀ r, Wrapped (k r) d
  | .begin k, d => Wrapped k (d + 1)
  | .commit k, 0 => ∀ r, (k r).finished = true
  | .commit k, d + 1 => ∀ r, Wrapped (k r) d
  | .rollback k, 0 => k.finished = true
  | .rollback k, d + 1 => Wrapped k d

/-- `p` rolls back and ends. -/
def Closing : Prog S ε α → Prop
  | .rollback k => k.finished = true
  | _ => False

/-- A finished program that goes on with one that ends at once. -/
theorem finished_andThen {p : Prog S ε α} {f : Except ε α → Prog S ε β} (hp : p.finished = true)
    (hf : ∀ r, (f r).finished = true) : (p.andThen f).finished = true := by
  cases p with
  | ret r => exact hf r
  | stmt s k => cases hp
  | begin k => cases hp
  | commit k => cases hp
  | rollback k => cases hp

theorem Wrapped.andThen {p : Prog S ε α} {f : Except ε α → Prog S ε β} {d : Nat}
    (hp : Wrapped p d) (hf : ∀ r, (f r).finished = true) : Wrapped (p.andThen f) d := by
  induction p generalizing d with
  | ret r => exact hp.elim
  | stmt s k ih => exact fun r => ih r (hp r)
  | begin k ih => exact ih hp
  | commit k ih =>
      cases d with
      | zero => exact fun r => finished_andThen (hp r) hf
      | succ d => exact fun r => ih r (hp r)
  | rollback k ih =>
      cases d with
      | zero => exact finished_andThen hp hf
      | succ d => exact ih hp

theorem Closing.andThen {p : Prog S ε α} {f : Except ε α → Prog S ε β} (hp : Closing p)
    (hf : ∀ r, (f r).finished = true) : Closing (p.andThen f) := by
  cases p with
  | rollback k => exact finished_andThen hp hf
  | ret r => exact hp.elim
  | stmt s k => exact hp.elim
  | begin k => exact hp.elim
  | commit k => exact hp.elim

/-- What closes all it opens is wrapped by what comes after it. -/
theorem wrapped_of_only {p : Prog S ε α} {f : Except ε α → Prog S ε β} {d e : Nat}
    (hp : Only anyStmt p d) (hf : ∀ r, Wrapped (f r) e) : Wrapped (p.andThen f) (d + e) := by
  induction p generalizing d with
  | ret r =>
      have hd : d = 0 := hp
      rw [hd, Nat.zero_add]
      exact hf r
  | stmt s k ih => exact fun r => ih r (hp.2 r)
  | begin k ih =>
      have h := ih hp
      rwa [Nat.add_right_comm] at h
  | commit k ih =>
      cases d with
      | zero => exact hp.elim
      | succ d =>
          rw [Nat.add_right_comm]
          exact fun r => ih r (hp r)
  | rollback k ih =>
      cases d with
      | zero => exact hp.elim
      | succ d =>
          rw [Nat.add_right_comm]
          exact ih hp

namespace Record

variable {D : Discipline E} (R : Record D)

/-- `p` is about to insert the record, and gives up if that fails. -/
def Opening : Prog S ε α → Prop
  | .stmt s k => R.inserts _ s ∧ (∀ b, Wrapped (k (.ok b)) 0) ∧ ∀ e, Closing (k (.error e))
  | _ => False

/-- `p` does its work in one transaction, which inserts the record first. -/
def First : Prog S ε α → Prop
  | .ret _ => True
  | .stmt s k => (∀ env db b ws, E.exec s env db = .ok (b, ws) → ws = []) ∧ ∀ r, First (k r)
  | .begin k => R.Opening k
  | .commit _ => False
  | .rollback _ => False

variable {R}

theorem first_of_finished {p : Prog S ε α} (h : p.finished = true) : R.First p := by
  cases p with
  | ret r => trivial
  | stmt s k => cases h
  | begin k => cases h
  | commit k => cases h
  | rollback k => cases h

theorem Opening.andThen {p : Prog S ε α} {f : Except ε α → Prog S ε β} (hp : R.Opening p)
    (hf : ∀ r, (f r).finished = true) : R.Opening (p.andThen f) := by
  cases p with
  | stmt s k => exact ⟨hp.1, fun b => (hp.2.1 b).andThen hf, fun e => (hp.2.2 e).andThen hf⟩
  | ret r => exact hp.elim
  | begin k => exact hp.elim
  | commit k => exact hp.elim
  | rollback k => exact hp.elim

theorem First.andThen {p : Prog S ε α} {f : Except ε α → Prog S ε β} (hp : R.First p)
    (hf : ∀ r, (f r).finished = true) : R.First (p.andThen f) := by
  induction p with
  | ret r => exact first_of_finished (hf r)
  | stmt s k ih => exact ⟨hp.1, fun r => ih r (hp.2 r)⟩
  | begin k _ => exact Opening.andThen (p := k) hp hf
  | commit k _ => exact hp.elim
  | rollback k _ => exact hp.elim

/-- A lookup outside the transaction. -/
theorem first_exec_bind {s : S α} {f : α → Prog S ε β}
    (hs : ∀ env db b ws, E.exec s env db = .ok (b, ws) → ws = []) (hf : ∀ a, R.First (f a)) :
    R.First (Prog.exec s >>= f) := by
  refine ⟨hs, fun r => ?_⟩
  cases r with
  | ok a => exact hf a
  | error e => trivial

/-- The transaction. -/
theorem first_transaction {s : S α} {f : α → Prog S ε β} (hs : R.inserts _ s)
    (hf : ∀ a, Only anyStmt (f a) 0) : R.First (Prog.transaction (Prog.exec s >>= f)) := by
  refine ⟨hs, fun a => ?_, fun e => rfl⟩
  refine wrapped_of_only (e := 0) (hf a) fun r => ?_
  cases r with
  | ok b => exact fun r => by cases r <;> rfl
  | error e => rfl

/-! ## Phases of a client -/

variable (R)

/-- The transaction has the record. -/
def Recorded (t : Tx ω ℓ) : Prop := R.lock ∈ t.held ∧ ∃ w ∈ t.writes, R.write w

/-- The client is in its transaction and has the record; its past shows it. -/
def Inside (x : Client S ω ℓ ε α) : Prop :=
  ∃ inner t, x.loc.stack = inner ++ [t] ∧ R.Recorded t ∧ Wrapped x.prog inner.length ∧
    ∃ β, ∃ s : S β, ∃ b, R.inserts β s ∧ Event.stmt s (.ok b) ∈ x.loc.trace

/-- Where a client can be. -/
inductive Phase : Client S ω ℓ ε α → Prop
  | outside {p : Prog S ε α} {trace : List (Event S ε)} : R.First p → Phase ⟨p, ⟨[], trace⟩⟩
  | opening {p : Prog S ε α} {trace : List (Event S ε)} : R.Opening p → Phase ⟨p, ⟨[{}], trace⟩⟩
  | closing {p : Prog S ε α} {trace : List (Event S ε)} : Closing p → Phase ⟨p, ⟨[{}], trace⟩⟩
  | inside {x : Client S ω ℓ ε α} : R.Inside x → Phase x

variable {R} {ch : Choice η} {db db' : σ} {x x' : Client S ω ℓ ε α} {took : List ℓ}

/-- Without the record a transaction cannot be in order once the work is done. -/
theorem Recorded.not_done {t : Tx ω ℓ} (h : R.Recorded t) (hf : D.fitsAll t.writes db) :
    ¬R.done db := by
  obtain ⟨-, w, hw, hwrite⟩ := h
  obtain ⟨ws₁, ws₂, he⟩ := List.append_of_mem hw
  rw [he, D.fitsAll_append] at hf
  exact fun hdone => R.fresh hwrite hf.2.1 (R.done_le (D.le_applyAll ws₁ db) hdone)

/-- Its commit makes the work done. -/
theorem Recorded.done_view {t : Tx ω ℓ} (h : R.Recorded t) : R.done (E.view t db) := by
  obtain ⟨-, w, hw, hwrite⟩ := h
  obtain ⟨ws₁, ws₂, he⟩ := List.append_of_mem hw
  rw [Engine.view, he, E.applyAll_append]
  exact R.done_le (D.le_applyAll ws₂ _) (R.done_apply _ hwrite)

theorem Recorded.extend {t : Tx ω ℓ} (h : R.Recorded t) (ws : List ω) (held : List ℓ) :
    R.Recorded ⟨t.writes ++ ws, t.held ++ held⟩ := by
  obtain ⟨hl, w, hw, hwrite⟩ := h
  exact ⟨List.mem_append_left _ hl, w, List.mem_append_left _ hw, hwrite⟩

theorem Inside.lock_mem (h : R.Inside x) : R.lock ∈ heldBy x.loc.stack := by
  obtain ⟨inner, t, hc, hrec, -⟩ := h
  rw [hc, heldBy, List.flatMap_append]
  exact List.mem_append_right _ (List.mem_flatMap.mpr ⟨t, .head _, hrec.1⟩)

theorem Inside.not_done (h : R.Inside x) (hs : D.StackOk x.loc.stack db) : ¬R.done db := by
  obtain ⟨inner, t, hc, hrec, -⟩ := h
  rw [hc] at hs
  exact hrec.not_done (hs.fits t (List.mem_append_right _ (.head _)))

/-- A statement in the only open transaction finds no lock in its way. -/
theorem run_single {s : S β} {env : η} {t : Tx ω ℓ} {b : β} {ws : List ω}
    (hx : E.exec s env (E.view t db) = .ok (b, ws)) :
    E.run s (.go env) [t] db = ⟨.ok b,
      [⟨t.writes ++ ws, t.held ++ E.needs s (E.view t db) ws⟩], db,
      E.needs s (E.view t db) ws⟩ := by
  simp [Engine.run, hx]

/-- The insertion of the record: it fails, or the client is inside. -/
theorem Opening.next {p : Prog S ε α} {trace : List (Event S ε)} (h : R.Opening p)
    (hn : E.next ch db ⟨p, ⟨[{}], trace⟩⟩ = some (x', db', took)) :
    R.Phase x' ∧ db' = db ∧ ¬x'.Settled := by
  cases p with
  | ret r => exact h.elim
  | begin k => exact h.elim
  | commit k => exact h.elim
  | rollback k => exact h.elim
  | stmt s k =>
      obtain ⟨hins, hok, herr⟩ := h
      simp only [Engine.next, Option.some.injEq, Prod.mk.injEq] at hn
      obtain ⟨rfl, rfl, -⟩ := hn
      refine ⟨?_, E.run_db_cons .., fun hs => ?_⟩
      · cases ch with
        | fail m => exact .closing (herr _)
        | go env =>
            cases hx : E.exec s env (E.view {} db) with
            | error e =>
                simp only [Engine.run, hx]
                exact .closing (herr _)
            | ok o =>
                obtain ⟨b, ws⟩ := o
                obtain ⟨w, hw, hwrite⟩ := R.written hins hx
                rw [run_single hx]
                refine .inside ⟨[], _, rfl, ⟨?_, w, hw, hwrite⟩, hok b, _, s, b, hins, .head _⟩
                refine List.mem_append_right _ (List.mem_append_right _ ?_)
                exact List.mem_flatMap.mpr ⟨w, hw, R.locked hwrite⟩
      · obtain ⟨ws, held, he, -⟩ := E.run_grows s ch [{}] db
        have hstack := hs.2.1
        rw [he] at hstack
        cases hstack

/-- An action inside keeps the client inside, or ends it. -/
theorem Inside.next (h : R.Inside x) (hn : E.next ch db x = some (x', db', took)) :
    R.Phase x' ∧ (x'.Settled → R.done db') := by
  obtain ⟨p, stack, trace⟩ := x
  obtain ⟨inner, t, hc, hrec, hwrap, β, s₀, b, hins, hmem⟩ := h
  obtain rfl : stack = inner ++ [t] := hc
  have hmem' : ∀ e : Event S ε, Event.stmt s₀ (.ok b) ∈ e :: trace := fun e => .tail _ hmem
  cases p with
  | ret r => exact hwrap.elim
  | stmt s k =>
      simp only [Engine.next, Option.some.injEq, Prod.mk.injEq] at hn
      obtain ⟨rfl, rfl, -⟩ := hn
      have hgrow := E.run_grows s ch (inner ++ [t]) db
      refine ⟨.inside ?_, Client.not_settled (by simp)⟩
      cases inner with
      | nil =>
          obtain ⟨ws, held, he, -⟩ := hgrow
          exact ⟨[], _, he, hrec.extend ws held, hwrap _, β, s₀, b, hins, hmem' _⟩
      | cons t₀ inner =>
          obtain ⟨ws, held, he, -⟩ := hgrow
          exact ⟨⟨t₀.writes ++ ws, t₀.held ++ held⟩ :: inner, t, he, hrec, hwrap _, β, s₀, b, hins,
            hmem' _⟩
  | begin k =>
      simp only [Engine.next, Option.some.injEq, Prod.mk.injEq] at hn
      obtain ⟨rfl, rfl, -⟩ := hn
      exact ⟨.inside ⟨{} :: inner, t, rfl, hrec, hwrap, β, s₀, b, hins, hmem' _⟩,
        Client.not_settled (by simp)⟩
  | rollback k =>
      simp only [Engine.next, Option.some.injEq, Prod.mk.injEq] at hn
      obtain ⟨rfl, rfl, -⟩ := hn
      refine ⟨?_, Client.not_settled (by simp)⟩
      cases inner with
      | nil => exact .outside (first_of_finished hwrap)
      | cons t₀ inner => exact .inside ⟨inner, t, rfl, hrec, hwrap, β, s₀, b, hins, hmem' _⟩
  | commit k =>
      simp only [Engine.next, Option.some.injEq, Prod.mk.injEq] at hn
      obtain ⟨rfl, rfl, -⟩ := hn
      cases inner with
      | nil =>
          cases ch with
          | fail m => exact ⟨.outside (first_of_finished (hwrap _)), Client.not_settled (by simp [Engine.commit])⟩
          | go env => exact ⟨.outside (first_of_finished (hwrap _)), fun _ => hrec.done_view⟩
      | cons t₀ inner =>
          cases ch with
          | fail m =>
              exact ⟨.inside ⟨inner, t, rfl, hrec, hwrap _, β, s₀, b, hins, hmem' _⟩,
                Client.not_settled (by simp [Engine.commit])⟩
          | go env =>
              exact ⟨.inside ⟨inner, t, rfl, hrec, hwrap _, β, s₀, b, hins, hmem' _⟩,
                fun hs => (List.append_ne_nil_of_right_ne_nil _ (by simp) hs.2.1).elim⟩

/-- Any action: the database changes only from inside, and so does a client
settle. -/
theorem Phase.next (h : R.Phase x) (hn : E.next ch db x = some (x', db', took)) :
    R.Phase x' ∧ (db' = db ∨ R.Inside x) ∧ (x'.Settled → R.Inside x ∧ R.done db') := by
  cases h with
  | inside h => exact ⟨(h.next hn).1, .inr h, fun hs => ⟨h, (h.next hn).2 hs⟩⟩
  | opening h =>
      obtain ⟨hphase, hdb, hs⟩ := h.next hn
      exact ⟨hphase, .inl hdb, fun h => (hs h).elim⟩
  | @closing p trace h =>
      cases p with
      | rollback k =>
          simp only [Engine.next, Option.some.injEq, Prod.mk.injEq] at hn
          obtain ⟨rfl, rfl, -⟩ := hn
          exact ⟨.outside (first_of_finished h), .inl rfl, Client.not_settled (by simp)⟩
      | ret r => exact h.elim
      | stmt s k => exact h.elim
      | begin k => exact h.elim
      | commit k => exact h.elim
  | @outside p trace h =>
      cases p with
      | ret r => simp [Engine.next] at hn
      | commit k => exact h.elim
      | rollback k => exact h.elim
      | begin k =>
          simp only [Engine.next, Option.some.injEq, Prod.mk.injEq] at hn
          obtain ⟨rfl, rfl, -⟩ := hn
          exact ⟨.opening h, .inl rfl, Client.not_settled (by simp)⟩
      | stmt s k =>
          simp only [Engine.next, Option.some.injEq, Prod.mk.injEq] at hn
          obtain ⟨rfl, rfl, -⟩ := hn
          -- a lookup that commits on its own writes nothing
          have hrun : (E.run s ch [] db).stack = [] ∧ (E.run s ch [] db).db = db := by
            cases ch with
            | fail m => exact ⟨rfl, rfl⟩
            | go env =>
                cases hx : E.exec s env db with
                | error e => simp only [Engine.run, hx, and_self]
                | ok o =>
                    obtain ⟨b, ws⟩ := o
                    obtain rfl := h.1 env db b ws hx
                    simp only [Engine.run, hx, Engine.applyAll_nil, and_self]
          rw [hrun.1]
          exact ⟨.outside (h.2 _), .inl hrun.2, Client.not_settled (by simp)⟩

end Record

/-! ## Runs -/

namespace Record

variable {D : Discipline E} (R : Record D)

/-- What holds of clients that all insert the record first: a client that has
settled has done the work, and only one has. -/
structure Once (s : Sys S σ ω ℓ ε α ι) : Prop where
  ok : D.SysOk s
  phase : ∀ i, R.Phase (s.clients i)
  done : ∀ i, (s.clients i).Settled → R.done s.db
  settled_unique : ∀ i j, (s.clients i).Settled → (s.clients j).Settled → i = j

variable {R} {s s' : Sys S σ ω ℓ ε α ι} {i : ι}

theorem Once.start {db : σ} {progs : ι → Prog S ε α} (hv : D.valid db)
    (hfirst : ∀ i, R.First (progs i)) : R.Once (Sys.start db progs) where
  ok := .start D hv progs
  phase i := .outside (hfirst i)
  done _ := fun ⟨_, _, _, he⟩ => nomatch he
  settled_unique _ _ := fun ⟨_, _, _, he⟩ => nomatch he

variable [DecidableEq ι]

/-- A step that changes the database is taken inside, before the work is done. -/
theorem Once.changes (h : R.Once s) (hs : Step E s i s') :
    s'.db = s.db ∨ R.Inside (s.clients i) ∧ ¬R.done s.db := by
  obtain ⟨ch, c, db, took, hn, -, rfl⟩ := hs
  obtain ⟨-, hdb, -⟩ := (h.phase i).next hn
  exact hdb.imp_right fun hin => ⟨hin, hin.not_done (h.ok.stack i)⟩

/-- Once the work is done, nothing changes any more. -/
theorem Once.frozen (h : R.Once s) (hdone : R.done s.db) (hs : Step E s i s') : s'.db = s.db :=
  (h.changes hs).resolve_right fun hin => hin.2 hdone

theorem Once.step (h : R.Once s) (hs : Step E s i s') : R.Once s' := by
  have hok := h.ok.step hs
  obtain ⟨ch, c, db, took, hn, hfree, rfl⟩ := hs
  obtain ⟨hphase, -, hsettled⟩ := (h.phase i).next hn
  obtain ⟨-, -, hle, -, -⟩ := D.next_ok _ hn h.ok.valid (h.ok.stack i)
  -- a client that settles now is the first one
  have hfirst : c.Settled → ∀ j, (s.clients j).Settled → False := fun hc j hj =>
    (hsettled hc).1.not_done (h.ok.stack i) (h.done j hj)
  refine ⟨hok, fun j => ?_, fun j hj => ?_, fun j k hj hk => ?_⟩
  · by_cases hji : j = i
    · subst hji
      simpa using hphase
    · simpa [Function.update_of_ne hji] using h.phase j
  · by_cases hji : j = i
    · subst hji
      exact (hsettled (by simpa using hj)).2
    · exact R.done_le hle (h.done j (by simpa [Function.update_of_ne hji] using hj))
  · by_cases hji : j = i <;> by_cases hki : k = i
    · rw [hji, hki]
    · subst hji
      simp only [Function.update_self, Function.update_of_ne hki] at hj hk
      exact (hfirst hj k hk).elim
    · subst hki
      simp only [Function.update_self, Function.update_of_ne hji] at hj hk
      exact (hfirst hk j hj).elim
    · simp only [Function.update_of_ne hji, Function.update_of_ne hki] at hj hk
      exact h.settled_unique j k hj hk

theorem Once.runs {C : Sys S σ ω ℓ ε α ι → ι → Sys S σ ω ℓ ε α ι → Prop} (h : R.Once s)
    (hr : Runs E C s s') : R.Once s' := by
  induction hr with
  | refl => exact h
  | step _ hs _ ih => exact ih.step hs

theorem Once.frozen_runs {C : Sys S σ ω ℓ ε α ι → ι → Sys S σ ω ℓ ε α ι → Prop} (h : R.Once s)
    (hdone : R.done s.db) (hr : Runs E C s s') : s'.db = s.db := by
  induction hr with
  | refl => rfl
  | step hr hs _ ih => rw [(h.runs hr).frozen (ih ▸ hdone) hs, ih]

/-- A client that has not been inside has changed nothing. -/
theorem Once.unrecorded {C : Sys S σ ω ℓ ε α ι → ι → Sys S σ ω ℓ ε α ι → Prop}
    {s'' : Sys S σ ω ℓ ε α ι} (h : R.Once s) (hs : Step E s i s') (hr : Runs E C s' s'')
    (hnone : ∀ β (s₀ : S β) b, R.inserts β s₀ →
      Event.stmt s₀ (.ok b) ∉ (s''.clients i).loc.trace) : s'.db = s.db := by
  refine (h.changes hs).resolve_right fun ⟨⟨inner, t, _, _, _, β, s₀, b, hins, hmem⟩, _⟩ => ?_
  obtain ⟨events, he⟩ := hs.trace_grows i
  obtain ⟨events', he'⟩ := hr.trace_grows i
  refine hnone β s₀ b hins ?_
  rw [he', he]
  exact List.mem_append_right _ (List.mem_append_right _ hmem)

end Record

/-! ## Clients inside run alone -/

namespace Record

variable {D : Discipline E} (R : Record D) {I : σ → Prop}

/-- The protocol of clients that insert the record first: the database belongs
to the one that holds its lock. -/
def protocol (I : σ → Prop) : Protocol D I where
  env c db db' := R.lock ∈ heldBy c.stack → db' = db
  guar c db db' := db' = db ∨ R.lock ∈ heldBy c.stack
  env_refl _ _ _ := rfl
  env_trans h h' hl := (h' hl).trans (h hl)
  guar_refl _ _ := .inl rfl

/-- Such clients together. -/
def contract (I : σ → Prop) (ι : Type) : Contract D I ι where
  proto _ := R.protocol I
  apart _ _ _ _ := True
  apart_symm _ := trivial
  compat _ _ hfree _ _ _ hguar hl := hguar.resolve_right fun hl' => hfree _ hl' hl

variable {R}

theorem wp_of_solo_aux {p : Prog S ε α} {Q : Post S σ ω ℓ ε α} {c : Local S ω ℓ ε} {db : σ}
    {inner ts : List (Tx ω ℓ)} (hc : c.stack = inner ++ ts) (hp : Only anyStmt p inner.length)
    (hl : R.lock ∈ heldBy ts) (h : (Protocol.solo D I).wp p Q c db) : (R.protocol I).wp p Q c db := by
  induction p generalizing c db inner ts with
  | ret r => exact h
  | stmt s k ih =>
      intro db' hs ch
      have hheld : R.lock ∈ heldBy c.stack := by
        rw [hc, heldBy, List.flatMap_append]
        exact List.mem_append_right _ hl
      obtain rfl := hs.env hheld
      obtain ⟨⟨hinv, -⟩, h⟩ := h db' (.refl _ hs.valid hs.inv hs.stack) ch
      refine ⟨⟨hinv, .inr hheld⟩, ?_⟩
      have hgrow := E.run_grows s ch c.stack db'
      rw [hc] at hgrow h ⊢
      cases inner with
      | nil => exact ih _ (List.nil_append _).symm (hp.2 _) (hgrow.heldBy_subset hl) h
      | cons t inner =>
          obtain ⟨ws, held, he, -⟩ := hgrow
          exact ih _ (he.trans (List.cons_append ..).symm) (hp.2 _) hl h
  | begin k ih =>
      intro db' hs
      have hheld : R.lock ∈ heldBy c.stack := by
        rw [hc, heldBy, List.flatMap_append]
        exact List.mem_append_right _ hl
      obtain rfl := hs.env hheld
      exact ih (show _ = ({} :: inner) ++ ts by rw [hc]; rfl) hp hl
        (h db' (.refl _ hs.valid hs.inv hs.stack))
  | commit k ih =>
      intro db' hs ch
      have hheld : R.lock ∈ heldBy c.stack := by
        rw [hc, heldBy, List.flatMap_append]
        exact List.mem_append_right _ hl
      obtain rfl := hs.env hheld
      obtain ⟨⟨hinv, -⟩, h⟩ := h db' (.refl _ hs.valid hs.inv hs.stack) ch
      refine ⟨⟨hinv, .inr hheld⟩, ?_⟩
      cases inner with
      | nil => exact hp.elim
      | cons t inner =>
          refine ih _ ?_ (hp _) hl h
          rw [hc]
          cases ch <;> rfl
  | rollback k ih =>
      intro db' hs
      have hheld : R.lock ∈ heldBy c.stack := by
        rw [hc, heldBy, List.flatMap_append]
        exact List.mem_append_right _ hl
      obtain rfl := hs.env hheld
      cases inner with
      | nil => exact hp.elim
      | cons t inner => exact ih (by rw [hc]; rfl) hp hl (h db' (.refl _ hs.valid hs.inv hs.stack))

/-- Whoever holds the lock of the record runs as if it were alone. -/
theorem wp_of_solo {p : Prog S ε α} {Q : Post S σ ω ℓ ε α} {c : Local S ω ℓ ε} {db : σ}
    (hp : Only anyStmt p 0) (hl : R.lock ∈ heldBy c.stack) (h : (Protocol.solo D I).wp p Q c db) :
    (R.protocol I).wp p Q c db := wp_of_solo_aux (List.nil_append _).symm hp hl h

end Record

end Transact
