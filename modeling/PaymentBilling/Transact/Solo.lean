import PaymentBilling.Transact.Scope

/-!
# Transact.Solo

Programs that run alone.

`E.Ends F p c db r c' db'` says that `p`, started as the client `c` on the
database `db` with nobody else at work, can end with the result `r` as `c'` on
`db'`.  The environment still chooses every answer it is free to choose, and
in the states of the client that `F` allows it may make the next action fail.

A solo run is a run of the system in which the other clients wait
(`Runs.of_ends`), and what `wp` proves under interference holds in particular
of solo runs (`Protocol.ends_of_wp`).  A `Session` is a sequence of them.
-/

set_option linter.unusedSectionVars false

namespace Transact

variable {S : Type → Type} {σ ω ℓ ε η α β κ ι : Type} [DecidableEq ℓ]

/-- The states of a client in which its next action may be made to fail. -/
abbrev Faults (S : Type → Type) (ω ℓ ε : Type) : Type 1 := Local S ω ℓ ε → Prop

/-- The environment may make any action fail. -/
def anyFault (_ : Local S ω ℓ ε) : Prop := True

/-- The environment makes no action fail. -/
def noFault (_ : Local S ω ℓ ε) : Prop := False

/-- The choices that are allowed in the state `c`. -/
def Faults.allow (F : Faults S ω ℓ ε) (c : Local S ω ℓ ε) : Choice η → Prop
  | .go _ => True
  | .fail _ => F c

namespace Engine

variable (E : Engine S σ ω ℓ ε η) (F : Faults S ω ℓ ε)

/-- The ways a program can end that runs alone. -/
def Ends : Prog S ε α → Local S ω ℓ ε → σ → Except ε α → Local S ω ℓ ε → σ → Prop
  | .ret r₀, c, db, r, c', db' => r = r₀ ∧ c' = c ∧ db' = db
  | .stmt s k, c, db, r, c', db' => ∃ ch : Choice η, F.allow c ch ∧
      Ends (k (E.run s ch c.stack db).answer)
        ⟨(E.run s ch c.stack db).stack, .stmt s (E.run s ch c.stack db).answer :: c.trace⟩
        (E.run s ch c.stack db).db r c' db'
  | .begin k, c, db, r, c', db' => Ends k ⟨{} :: c.stack, .begin :: c.trace⟩ db r c' db'
  | .commit k, c, db, r, c', db' => ∃ ch : Choice η, F.allow c ch ∧
      Ends (k (E.commit ch c.stack db).answer)
        ⟨(E.commit ch c.stack db).stack, .commit (E.commit ch c.stack db).answer :: c.trace⟩
        (E.commit ch c.stack db).db r c' db'
  | .rollback k, c, db, r, c', db' => Ends k ⟨c.stack.tail, .rollback :: c.trace⟩ db r c' db'

variable {E F} {c c' : Local S ω ℓ ε} {db db' : σ}

theorem ends_andThen {p : Prog S ε α} {f : Except ε α → Prog S ε β} {r : Except ε β} :
    E.Ends F (p.andThen f) c db r c' db' ↔
      ∃ r₁ c₁ db₁, E.Ends F p c db r₁ c₁ db₁ ∧ E.Ends F (f r₁) c₁ db₁ r c' db' := by
  induction p generalizing c db with
  | ret r₀ =>
      constructor
      · exact fun h => ⟨r₀, c, db, ⟨rfl, rfl, rfl⟩, h⟩
      · rintro ⟨r₁, c₁, db₁, ⟨rfl, rfl, rfl⟩, h⟩
        exact h
  | stmt s k ih =>
      simp only [Prog.andThen, Ends, ih]
      grind
  | begin k ih => simp only [Prog.andThen, Ends, ih]
  | commit k ih =>
      simp only [Prog.andThen, Ends, ih]
      grind
  | rollback k ih => simp only [Prog.andThen, Ends, ih]

@[simp] theorem ends_ret {r₀ r : Except ε α} :
    E.Ends F (.ret r₀) c db r c' db' ↔ r = r₀ ∧ c' = c ∧ db' = db := Iff.rfl

@[simp] theorem ends_pure {a : α} {r : Except ε α} :
    E.Ends F (pure a) c db r c' db' ↔ r = .ok a ∧ c' = c ∧ db' = db := Iff.rfl

@[simp] theorem ends_throw {e : ε} {r : Except ε α} :
    E.Ends F (throw e) c db r c' db' ↔ r = .error e ∧ c' = c ∧ db' = db := Iff.rfl

theorem ends_bind {p : Prog S ε α} {f : α → Prog S ε β} {r : Except ε β} :
    E.Ends F (p >>= f) c db r c' db' ↔
      (∃ a c₁ db₁, E.Ends F p c db (.ok a) c₁ db₁ ∧ E.Ends F (f a) c₁ db₁ r c' db') ∨
        ∃ e, r = .error e ∧ E.Ends F p c db (.error e) c' db' := by
  rw [Prog.bind_def, ends_andThen]
  constructor
  · rintro ⟨r₁, c₁, db₁, h₁, h₂⟩
    cases r₁ with
    | ok a => exact .inl ⟨a, c₁, db₁, h₁, h₂⟩
    | error e =>
        obtain ⟨rfl, rfl, rfl⟩ := h₂
        exact .inr ⟨e, rfl, h₁⟩
  · rintro (⟨a, c₁, db₁, h₁, h₂⟩ | ⟨e, rfl, h⟩)
    · exact ⟨.ok a, c₁, db₁, h₁, h₂⟩
    · exact ⟨.error e, c', db', h, rfl, rfl, rfl⟩

theorem ends_tryCatch {p : Prog S ε α} {h : ε → Prog S ε α} {r : Except ε α} :
    E.Ends F (tryCatch p h) c db r c' db' ↔
      (∃ a, r = .ok a ∧ E.Ends F p c db (.ok a) c' db') ∨
        ∃ e c₁ db₁, E.Ends F p c db (.error e) c₁ db₁ ∧ E.Ends F (h e) c₁ db₁ r c' db' := by
  rw [Prog.tryCatch_def, ends_andThen]
  constructor
  · rintro ⟨r₁, c₁, db₁, h₁, h₂⟩
    cases r₁ with
    | ok a =>
        obtain ⟨rfl, rfl, rfl⟩ := h₂
        exact .inl ⟨a, rfl, h₁⟩
    | error e => exact .inr ⟨e, c₁, db₁, h₁, h₂⟩
  · rintro (⟨a, rfl, h⟩ | ⟨e, c₁, db₁, h₁, h₂⟩)
    · exact ⟨.ok a, c', db', h, rfl, rfl, rfl⟩
    · exact ⟨.error e, c₁, db₁, h₁, h₂⟩

theorem ends_exec {s : S α} {r : Except ε α} :
    E.Ends F (Prog.exec s) c db r c' db' ↔ ∃ ch : Choice η, F.allow c ch ∧
      r = (E.run s ch c.stack db).answer ∧
      c' = ⟨(E.run s ch c.stack db).stack, .stmt s (E.run s ch c.stack db).answer :: c.trace⟩ ∧
      db' = (E.run s ch c.stack db).db := Iff.rfl

end Engine

/-! ## Solo runs among all runs -/

section Runs

variable {E : Engine S σ ω ℓ ε η} {F : Faults S ω ℓ ε} [DecidableEq ι]

/-- A client that runs while nobody else holds a lock takes the system to where
its solo run ends. -/
theorem Runs.of_ends {p : Prog S ε α} {c c' : Local S ω ℓ ε} {db db' : σ} {r : Except ε α}
    (clients : ι → Client S ω ℓ ε α) (i : ι)
    (hfree : ∀ j, j ≠ i → (clients j).loc.stack = []) (h : E.Ends F p c db r c' db') :
    Runs E AnyStep (⟨db, Function.update clients i ⟨p, c⟩⟩ : Sys S σ ω ℓ ε α ι)
      ⟨db', Function.update clients i ⟨.ret r, c'⟩⟩ := by
  -- one step of the client, then the rest of its run
  have hstep : ∀ {q : Prog S ε α} {d : Local S ω ℓ ε} {db₀ : σ} (ch : Choice η)
      (d' : Client S ω ℓ ε α) (db₁ : σ) (took : List ℓ),
      E.next ch db₀ ⟨q, d⟩ = some (d', db₁, took) →
      Runs E AnyStep (⟨db₀, Function.update clients i ⟨q, d⟩⟩ : Sys S σ ω ℓ ε α ι)
        ⟨db₁, Function.update clients i d'⟩ := by
    intro q d db₀ ch d' db₁ took hn
    have hs : Step E (⟨db₀, Function.update clients i ⟨q, d⟩⟩ : Sys S σ ω ℓ ε α ι) i
        ⟨db₁, Function.update clients i d'⟩ := by
      refine ⟨ch, d', db₁, took, by simpa using hn, fun j hj l _ => ?_, by simp⟩
      simp [Function.update_of_ne hj, hfree j hj]
    exact .step .refl hs trivial
  induction p generalizing c db with
  | ret r₀ =>
      obtain ⟨rfl, rfl, rfl⟩ := h
      exact .refl
  | stmt s k ih =>
      obtain ⟨ch, -, h⟩ := h
      exact (hstep ch _ _ _ rfl).trans (ih _ h)
  | begin k ih =>
      -- the choice does not matter to an action that cannot fail
      exact (hstep (.fail "") _ _ _ rfl).trans (ih h)
  | commit k ih =>
      obtain ⟨ch, -, h⟩ := h
      exact (hstep ch _ _ _ rfl).trans (ih _ h)
  | rollback k ih => exact (hstep (.fail "") _ _ _ rfl).trans (ih h)

end Runs

/-- What `wp` proves under a protocol holds of every solo run. -/
theorem Protocol.ends_of_wp {E : Engine S σ ω ℓ ε η} {F : Faults S ω ℓ ε} {D : Discipline E}
    {I : σ → Prop} (P : Protocol D I) {p : Prog S ε α} {Q : Post S σ ω ℓ ε α}
    {c c' : Local S ω ℓ ε} {db db' : σ} {r : Except ε α} (hv : D.valid db) (hi : I db)
    (hs : D.StackOk c.stack db) (h : P.wp p Q c db) (he : E.Ends F p c db r c' db') :
    Q r c' db' ∧ D.valid db' ∧ I db' ∧ D.StackOk c'.stack db' := by
  induction p generalizing c db with
  | ret r₀ =>
      obtain ⟨rfl, rfl, rfl⟩ := he
      exact ⟨h, hv, hi, hs⟩
  | stmt s k ih =>
      obtain ⟨ch, -, he⟩ := he
      obtain ⟨hkeep, h⟩ := h db (.refl P hv hi hs) ch
      obtain ⟨hv', hs', -⟩ := D.run_ok (s := s) ch hv hs
      exact ih _ hv' hkeep.1 hs' h he
  | begin k ih => exact ih hv hi hs.push (h db (.refl P hv hi hs)) he
  | commit k ih =>
      obtain ⟨ch, -, he⟩ := he
      obtain ⟨hkeep, h⟩ := h db (.refl P hv hi hs) ch
      obtain ⟨hv', hs', -⟩ := D.next_ok ch (c := ⟨.commit k, c⟩) rfl hv hs
      exact ih _ hv' hkeep.1 hs' h he
  | rollback k ih =>
      obtain ⟨hv', hs', -⟩ := D.next_ok (.fail "") (c := ⟨.rollback k, c⟩) rfl hv hs
      exact ih hv' hi hs' (h db (.refl P hv hi hs)) he

/-! ## Sessions -/

/-- `calls` one after the other, each alone, with the result of each. -/
inductive Session (E : Engine S σ ω ℓ ε η) (F : Faults S ω ℓ ε) (call : κ → Prog S ε α) (db₀ : σ) :
    List (κ × Except ε α) → σ → Prop
  | start : Session E F call db₀ [] db₀
  | call {log : List (κ × Except ε α)} {db db' : σ} {k : κ} {r : Except ε α} {c : Local S ω ℓ ε} :
      Session E F call db₀ log db → E.Ends F (call k) {} db r c db' →
      Session E F call db₀ (log ++ [(k, r)]) db'

/-- A session in which each call starts from a state that `C` allows. -/
inductive GuardedSession (E : Engine S σ ω ℓ ε η) (F : Faults S ω ℓ ε) (call : κ → Prog S ε α)
    (C : κ → σ → Prop) (db₀ : σ) : List (κ × Except ε α) → σ → Prop
  | start : GuardedSession E F call C db₀ [] db₀
  | call {log : List (κ × Except ε α)} {db db' : σ} {k : κ} {r : Except ε α} {c : Local S ω ℓ ε} :
      GuardedSession E F call C db₀ log db → C k db → E.Ends F (call k) {} db r c db' →
      GuardedSession E F call C db₀ (log ++ [(k, r)]) db'

/-- Nobody else is at work. -/
def Protocol.solo {E : Engine S σ ω ℓ ε η} (D : Discipline E) (I : σ → Prop) : Protocol D I where
  env _ db db' := db' = db
  guar _ _ _ := True
  env_refl _ _ := rfl
  env_trans h h' := h'.trans h
  guar_refl _ _ := trivial

section Sessions

variable {E : Engine S σ ω ℓ ε η} {F : Faults S ω ℓ ε} {call : κ → Prog S ε α}
  {db₀ db db' : σ} {log log' : List (κ × Except ε α)}

/-- What every call keeps by itself, every session keeps. -/
theorem Session.inv {D : Discipline E} {I : σ → Prop} (hv : D.valid db₀) (hi : I db₀)
    (hwp : ∀ k db, D.valid db → I db → (Protocol.solo D I).wp (call k) (fun _ _ _ => True) {} db)
    (h : Session E F call db₀ log db) : D.valid db ∧ I db := by
  induction h with
  | start => exact ⟨hv, hi⟩
  | call _ hends ih =>
      obtain ⟨-, hv', hi', -⟩ :=
        (Protocol.solo D I).ends_of_wp ih.1 ih.2 .nil (hwp _ _ ih.1 ih.2) hends
      exact ⟨hv', hi'⟩

theorem Session.valid {D : Discipline E} (hv : D.valid db₀) (h : Session E F call db₀ log db) :
    D.valid db :=
  (Session.inv (D := D) (I := fun _ => True) hv trivial
    (fun _ _ _ _ => Protocol.wp_of_keeps (fun _ _ _ => ⟨trivial, trivial⟩) _ _ _) h).1

theorem Session.trans (h : Session E F call db₀ log db) (h' : Session E F call db log' db') :
    Session E F call db₀ (log ++ log') db' := by
  induction h' with
  | start =>
      rw [List.append_nil]
      exact h
  | call _ hends ih =>
      rw [← List.append_assoc]
      exact ih.call hends

end Sessions

/-! ## Runs that are played out -/

namespace Engine

variable (E : Engine S σ ω ℓ ε η) (choose : Local S ω ℓ ε → Choice η)

/-- The end of a program that runs alone, with the given choices. -/
def solo : Prog S ε α → Local S ω ℓ ε → σ → Except ε α × Local S ω ℓ ε × σ
  | .ret r, c, db => (r, c, db)
  | .stmt s k, c, db =>
    let o := E.run s (choose c) c.stack db
    solo (k o.answer) ⟨o.stack, .stmt s o.answer :: c.trace⟩ o.db
  | .begin k, c, db => solo k ⟨{} :: c.stack, .begin :: c.trace⟩ db
  | .commit k, c, db =>
    let o := E.commit (choose c) c.stack db
    solo (k o.answer) ⟨o.stack, .commit o.answer :: c.trace⟩ o.db
  | .rollback k, c, db => solo k ⟨c.stack.tail, .rollback :: c.trace⟩ db

/-- Calls one after the other, each alone and with the given choices. -/
def session (call : κ → Prog S ε α) : List κ → σ → List (κ × Except ε α) × σ
  | [], db => ([], db)
  | k :: ks, db =>
    let (r, _, db') := E.solo choose (call k) {} db
    let (log, db'') := session call ks db'
    ((k, r) :: log, db'')

variable {E choose} {F : Faults S ω ℓ ε}

theorem ends_solo (hchoose : ∀ c, F.allow c (choose c)) (p : Prog S ε α) (c : Local S ω ℓ ε)
    (db : σ) :
    E.Ends F p c db (E.solo choose p c db).1 (E.solo choose p c db).2.1
      (E.solo choose p c db).2.2 := by
  induction p generalizing c db with
  | ret r => exact ⟨rfl, rfl, rfl⟩
  | stmt s k ih => exact ⟨choose c, hchoose c, ih ..⟩
  | begin k ih => exact ih ..
  | commit k ih => exact ⟨choose c, hchoose c, ih ..⟩
  | rollback k ih => exact ih ..

theorem session_play (choose : Local S ω ℓ ε → Choice η) (hchoose : ∀ c, F.allow c (choose c))
    (call : κ → Prog S ε α) (ks : List κ) (db : σ) :
    Session E F call db (E.session choose call ks db).1 (E.session choose call ks db).2 := by
  induction ks generalizing db with
  | nil => exact .start
  | cons k ks ih => exact (Session.start.call (ends_solo hchoose (call k) {} db)).trans (ih _)

end Engine

end Transact
