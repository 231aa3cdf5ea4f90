import PaymentBilling.Transact.Nested

/-!
# Transact.Journal

A system by its commits.

A `Journal` says which writes each client may commit, on which database, and
what such a commit never undoes (`later`).  Of the others a client relies on
nothing but `later`: what it has read stays true as far as that goes, and what
its answers show it may use in the rest of its program (`Gives`).

Once each program keeps to its commits, programs are out of the picture: every
step of a run commits nothing or makes one of the commits of its client
(`Journal.commit_of_step`), and whatever every commit keeps is kept by every
run (`Journal.inv_of_runs`).
-/

set_option linter.unusedSectionVars false

namespace Transact

variable {S : Type → Type} {σ ω ℓ ε η α β ι : Type} [DecidableEq ℓ] {E : Engine S σ ω ℓ ε η}

namespace Protocol

variable {D : Discipline E} {I : σ → Prop} (P : Protocol D I)

/-! ## What an answer shows -/

/-- The program ends with the stack it starts with, and its answer shows `B`. -/
def Gives (stack : List (Tx ω ℓ)) (p : Prog S ε α) (B : α → σ → Prop) : Prop :=
  ∀ trace db, D.valid db → D.StackOk stack db → I db →
    P.wp p (fun r c' db' => c'.stack = stack ∧ ∀ a, r = .ok a → B a db') ⟨stack, trace⟩ db

/-- Nothing in particular. -/
abbrev Ends (stack : List (Tx ω ℓ)) (p : Prog S ε α) : Prop := P.Gives stack p fun _ _ => True

variable {P} {stack : List (Tx ω ℓ)} {B B' : α → σ → Prop} {C : β → σ → Prop}

/-- A program leaves the invariant true. -/
theorem wp_inv {p : Prog S ε α} {Q : Post S σ ω ℓ ε α} {c : Local S ω ℓ ε} {db : σ}
    (hi : I db) (h : P.wp p Q c db) : P.wp p (fun r c db => Q r c db ∧ I db) c db := by
  induction p generalizing c db with
  | ret r => exact ⟨h, hi⟩
  | stmt s k ih => exact fun db' hs ch => ⟨(h db' hs ch).1, ih _ (h db' hs ch).1.1 (h db' hs ch).2⟩
  | begin k ih => exact fun db' hs => ih hs.inv (h db' hs)
  | commit k ih => exact fun db' hs ch => ⟨(h db' hs ch).1, ih _ (h db' hs ch).1.1 (h db' hs ch).2⟩
  | rollback k ih => exact fun db' hs => ih hs.inv (h db' hs)

theorem Gives.mono {p : Prog S ε α} (h : P.Gives stack p B) (hB : ∀ a db, B a db → B' a db) :
    P.Gives stack p B' := fun trace db hv hs hi =>
  P.wp_mono (fun _ _ _ hr => ⟨hr.1, fun a ha => hB a _ (hr.2 a ha)⟩) (h trace db hv hs hi)

theorem gives_of_returns {p : Prog S ε α} (h : P.Returns stack p) : P.Ends stack p :=
  fun trace db _ _ _ => P.wp_mono (fun _ _ _ hr => ⟨hr, fun _ _ => trivial⟩) (h trace db)

theorem gives_pure {a : α} (h : ∀ db, I db → B a db) : P.Gives stack (pure a) B := by
  intro trace db _ _ hi
  refine ⟨rfl, fun a' ha => ?_⟩
  obtain rfl := Except.ok.inj ha
  exact h db hi

theorem ends_pure (a : α) : P.Ends stack (pure a : Prog S ε α) := gives_pure fun _ _ => trivial

theorem gives_throw (e : ε) : P.Gives stack (throw e) B :=
  fun _ _ _ _ _ => ⟨rfl, fun _ ha => by cases ha⟩

/-- What the others leave true may be used once it is known. -/
theorem gives_of_knowing {A : σ → Prop} {p : Prog S ε α}
    (hA : ∀ c db db', P.Sees c db db' → A db → A db') (h : (P.knowing A).Gives stack p B)
    (hI : ∀ db, I db → A db) : P.Gives stack p B := by
  intro trace db hv hs hi
  have hpast : ∃ events, trace = events ++ trace := ⟨[], rfl⟩
  refine P.wp_of_knowing (fun c db db' _ => hA c db db') hpast (hI db hi) ?_
  exact Protocol.wp_mono _ (fun _ _ _ hr _ => hr) (h trace db hv hs ⟨hi, hI db hi⟩)

/-- The rest of a program may use what the answer of its first part shows. -/
theorem gives_bind {p : Prog S ε α} {f : α → Prog S ε β} (hp : P.Gives stack p B)
    (hB : ∀ a c db db', P.Sees c db db' → B a db → B a db')
    (hf : ∀ a, (P.knowing (B a)).Gives stack (f a) C) : P.Gives stack (p >>= f) C := by
  intro trace db hv hs hi
  rw [P.wp_bind]
  refine P.wp_mono (fun r c' db' hr => ?_) (P.wp_inv hi (P.wp_stackOk hv hs (hp trace db hv hs hi)))
  obtain ⟨⟨⟨hstack, hb⟩, hv', hs'⟩, hi'⟩ := hr
  cases r with
  | error e => exact ⟨hstack, fun _ hb => by cases hb⟩
  | ok a =>
      rw [bindPost_ok]
      have hpast : ∃ events, c'.trace = events ++ c'.trace := ⟨[], rfl⟩
      have hc : c' = ⟨stack, c'.trace⟩ := by rw [← hstack]
      refine P.wp_of_knowing (fun c db db' _ => hB a c db db') hpast (hb a rfl) ?_
      rw [hc]
      exact Protocol.wp_mono _ (fun _ _ _ hr _ => hr)
        (hf a c'.trace db' hv' (hstack ▸ hs') ⟨hi', hb a rfl⟩)

theorem ends_bind {p : Prog S ε α} {f : α → Prog S ε β} (hp : P.Ends stack p)
    (hf : ∀ a, P.Gives stack (f a) C) : P.Gives stack (p >>= f) C := by
  intro trace db hv hs hi
  rw [P.wp_bind]
  refine P.wp_mono (fun r c' db' hr => ?_) (P.wp_inv hi (P.wp_stackOk hv hs (hp trace db hv hs hi)))
  obtain ⟨⟨⟨hstack, -⟩, hv', hs'⟩, hi'⟩ := hr
  cases r with
  | error e => exact ⟨hstack, fun _ hb => by cases hb⟩
  | ok a =>
      rw [bindPost_ok]
      have hc : c' = ⟨stack, c'.trace⟩ := by rw [← hstack]
      rw [hc]
      exact hf a c'.trace db' hv' (hstack ▸ hs') hi'

theorem gives_tryCatch {p : Prog S ε α} {f : ε → Prog S ε α} (hp : P.Gives stack p B)
    (hf : ∀ e, P.Gives stack (f e) B) : P.Gives stack (tryCatch p f) B := by
  intro trace db hv hs hi
  rw [P.wp_tryCatch]
  refine P.wp_mono (fun r c' db' hr => ?_) (P.wp_inv hi (P.wp_stackOk hv hs (hp trace db hv hs hi)))
  obtain ⟨⟨⟨hstack, hb⟩, hv', hs'⟩, hi'⟩ := hr
  cases r with
  | ok a => exact ⟨hstack, hb⟩
  | error e =>
      have hc : c' = ⟨stack, c'.trace⟩ := by rw [← hstack]
      rw [hc]
      exact hf e c'.trace db' hv' (hstack ▸ hs') hi'

/-- A statement, its writes and its answer. -/
theorem gives_exec {s : S α} (h : ∀ trace env a ws db, D.valid db → I db →
      E.exec s env db = .ok (a, ws) →
      P.Keeps ⟨[], trace⟩ db (E.applyAll ws db) ∧ B a (E.applyAll ws db)) :
    P.Gives [] (Prog.exec s) B := fun trace _ _ _ _ =>
  P.wp_exec_auto (fun _ _ _ => ⟨rfl, fun _ ha => by cases ha⟩) fun env a ws db' hs hx => by
    obtain ⟨hkeeps, hb⟩ := h trace env a ws db' hs.valid hs.inv hx
    refine ⟨hkeeps, rfl, fun a' ha => ?_⟩
    obtain rfl := Except.ok.inj ha
    exact hb

/-- A transaction, what it commits and its answer. -/
theorem gives_transaction {p : Prog S ε α} {X : Effect D α} (h : ∀ past, P.Does past p X)
    (hcommit : ∀ a ws c db, D.valid db → I db → D.fitsAll ws db → X.rel a ws db →
      P.Keeps c db (E.applyAll ws db) ∧ B a (E.applyAll ws db)) :
    P.Gives stack (Prog.transaction p) B := fun trace _ _ _ _ =>
  wp_transaction_of_does (h trace) (fun _ _ _ hc => ⟨hc, fun _ ha => by cases ha⟩)
    fun a t c' db' _ _ _ hs hfits hx => by
      obtain ⟨hkeeps, hb⟩ := hcommit a t.writes c' db' hs.valid hs.inv hfits hx
      refine ⟨hkeeps, rfl, fun a' ha => ?_⟩
      obtain rfl := Except.ok.inj ha
      exact hb

end Protocol

/-! ## Two facts about a body -/

namespace Effect

variable {D : Discipline E}

/-- One effect and the other. -/
def and (X Y : Effect D α) : Effect D α where
  rel a ws db := X.rel a ws db ∧ Y.rel a ws db
  stable hf hf' hle h := ⟨X.stable hf hf' hle h.1, Y.stable hf hf' hle h.2⟩

end Effect

/-- The writes that a body has added are in its transaction, so two facts about
them are about the same writes. -/
theorem Protocol.does_and {D : Discipline E} {I : σ → Prop} {P : Protocol D I} {X Y : Effect D α}
    {past : List (Event S ε)} {p : Prog S ε α} (hX : P.Does past p X) (hY : P.Does past p Y) :
    P.Does past p (X.and Y) := by
  intro t ts events db hv hs
  refine P.wp_mono (fun r c db' hr => ?_) (P.wp_and (hX t ts events db hv hs) (hY t ts events db hv hs))
  refine ⟨hr.1.trace, hr.1.le, hr.1.error, fun a ha => ?_⟩
  obtain ⟨ws, held, hc, hx⟩ := hr.1.ok a ha
  obtain ⟨ws', held', hc', hy⟩ := hr.2.ok a ha
  have hsame := hc.symm.trans hc'
  simp only [List.cons.injEq, Tx.mk.injEq, List.append_cancel_left_eq, and_true] at hsame
  obtain ⟨rfl, -⟩ := hsame
  exact ⟨ws, held, hc, hx, hy⟩

section Writes

variable {D : Discipline E} {I : σ → Prop} {P : Protocol D I} {past : List (Event S ε)} {W : ω → Prop}

theorem Protocol.does_pure_writes (a : α) :
    P.Does past (pure a) (Effect.writes D W) := by
  refine Protocol.does_weaken (Protocol.does_pure a) ?_
  rintro _ ws db ⟨-, rfl⟩ w hw
  cases hw

theorem Protocol.does_exec_writes {s : S α}
    (h : ∀ env db a ws, D.valid db → E.exec s env db = .ok (a, ws) → ∀ w ∈ ws, W w) :
    P.Does past (Prog.exec s) (Effect.writes D W) := Protocol.does_exec h

theorem Protocol.does_bind_writes {p : Prog S ε α} {f : α → Prog S ε β}
    (hp : P.Does past p (Effect.writes D W)) (hf : ∀ a, P.Does past (f a) (Effect.writes D W)) :
    P.Does past (p >>= f) (Effect.writes D W) := by
  refine Protocol.does_weaken (Protocol.does_bind hp hf) ?_
  rintro b ws db ⟨a, ws₁, ws₂, rfl, h₁, h₂⟩
  exact fun w hw => (List.mem_append.mp hw).elim (h₁ w) (h₂ w)

end Writes

/-! ## Journals -/

/-- The commits of the clients `ι`, and what they never undo. -/
structure Journal (D : Discipline E) (ι : Type) where
  commit : ι → σ → List ω → Prop
  later : σ → σ → Prop
  later_refl : ∀ db, later db db
  later_trans : ∀ {db₁ db₂ db₃}, later db₁ db₂ → later db₂ db₃ → later db₁ db₃
  later_commit : ∀ {i db ws}, D.valid db → D.fitsAll ws db → commit i db ws →
    later db (E.applyAll ws db)

namespace Journal

variable {D : Discipline E} (J : Journal D ι)

/-- A client commits nothing, or what the journal allows it. -/
def Made (i : ι) (db db' : σ) : Prop :=
  db' = db ∨ ∃ ws, D.valid db ∧ D.fitsAll ws db ∧ J.commit i db ws ∧ db' = E.applyAll ws db

/-- The protocol of a client. -/
def protocol (i : ι) : Protocol D (fun _ => True) where
  env _ := J.later
  guar _ := J.Made i
  env_refl _ := J.later_refl
  env_trans := J.later_trans
  guar_refl _ _ := .inl rfl

/-- The clients together. -/
def contract : Contract D (fun _ => True) ι where
  proto := J.protocol
  apart _ _ _ _ := True
  apart_symm _ := trivial
  compat := by
    rintro i j c c' db db' - - - - - - (rfl | ⟨ws, hv, hf, hc, rfl⟩)
    · exact J.later_refl _
    · exact J.later_commit hv hf hc

/-- A fact that no commit undoes. -/
def Lasting (A : σ → Prop) : Prop := ∀ db db', D.le db db' → J.later db db' → A db → A db'

variable {J} {i : ι} {A : σ → Prop}

theorem Lasting.of_le (h : ∀ db db', D.le db db' → A db → A db') : J.Lasting A :=
  fun db db' hle _ => h db db' hle

/-! ## Clients -/

/-- The protocol is that of the client `i`, with what it has come to know. -/
structure Client (J : Journal D ι) (i : ι) {I : σ → Prop} (P : Protocol D I) : Prop where
  keeps : ∀ c db ws, D.valid db → I db → D.fitsAll ws db → J.commit i db ws →
    P.Keeps c db (E.applyAll ws db)
  later : ∀ c db db', P.env c db db' → J.later db db'

theorem client_protocol : J.Client i (J.protocol i) where
  keeps _ _ ws hv _ hf hc := ⟨trivial, .inr ⟨ws, hv, hf, hc, rfl⟩⟩
  later _ _ _ h := h

namespace Client

section Rules

variable {I : σ → Prop} {P : Protocol D I} {stack : List (Tx ω ℓ)} {X : Effect D α}
  {C : α → σ → Prop} {C' : β → σ → Prop}

theorem knowing (hP : J.Client i P) (hA : J.Lasting A) : J.Client i (P.knowing A) where
  keeps c db ws hv hi hf hc := by
    obtain ⟨hinv, hguar⟩ := hP.keeps c db ws hv hi.1 hf hc
    exact ⟨⟨hinv, hA _ _ (D.le_applyAll ws db) (J.later_commit hv hf hc) hi.2⟩, hguar⟩
  later := hP.later

theorem stays (hP : J.Client i P) (hA : J.Lasting A) {c : Local S ω ℓ ε} {db db' : σ}
    (hs : P.Sees c db db') (ha : A db) : A db' := hA _ _ hs.le (hP.later _ _ _ hs.env) ha

/-- A statement whose writes are a commit, or that has none. -/
theorem gives_exec (hP : J.Client i P) {s : S α}
    (h : ∀ env a ws db, D.valid db → I db → E.exec s env db = .ok (a, ws) →
      (ws = [] ∨ J.commit i db ws) ∧ C a (E.applyAll ws db)) : P.Gives [] (Prog.exec s) C := by
  refine Protocol.gives_exec fun trace env a ws db hv hi hx => ?_
  obtain ⟨hws, hc⟩ := h env a ws db hv hi hx
  refine ⟨?_, hc⟩
  rcases hws with rfl | hcommit
  · exact P.keeps_refl hi
  · exact hP.keeps _ db ws hv hi (D.fitsAll_of_exec hv hx) hcommit

/-- A transaction whose writes are a commit. -/
theorem gives_transaction (hP : J.Client i P) {p : Prog S ε α} (hp : ∀ past, P.Does past p X)
    (h : ∀ a ws db, D.valid db → I db → D.fitsAll ws db → X.rel a ws db →
      J.commit i db ws ∧ C a (E.applyAll ws db)) : P.Gives stack (Prog.transaction p) C :=
  Protocol.gives_transaction hp fun a ws c db hv hi hf hx => by
    obtain ⟨hcommit, hc⟩ := h a ws db hv hi hf hx
    exact ⟨hP.keeps c db ws hv hi hf hcommit, hc⟩

theorem gives_bind (hP : J.Client i P) {p : Prog S ε α} {f : α → Prog S ε β}
    (hp : P.Gives stack p C) (hC : ∀ a, J.Lasting (C a))
    (hf : ∀ a, (P.knowing (C a)).Gives stack (f a) C') : P.Gives stack (p >>= f) C' :=
  Protocol.gives_bind hp (fun a _ _ _ hs => hP.stays (hC a) hs) hf

end Rules

end Client

/-! ## Runs -/

section Runs

variable [DecidableEq ι] {db : σ} {progs : ι → Prog S ε α} {s s' : Sys S σ ω ℓ ε α ι}

/-- Programs that keep to their commits are safe together. -/
theorem safe_of_runs (hv : D.valid db) (hends : ∀ i, (J.protocol i).Ends [] (progs i))
    (h : Runs E AnyStep (Sys.start db progs) s) : J.contract.Safe (fun _ _ _ _ => True) s := by
  have hsafe : J.contract.Safe (fun _ _ _ _ => True) (Sys.start db progs) := by
    refine .start hv trivial (fun _ _ _ => trivial) fun i => ?_
    exact Protocol.wp_mono _ (fun _ _ _ _ => trivial) (hends i [] db hv .nil trivial)
  have hruns : Runs E J.contract.Clean (Sys.start db progs) s := h.mono fun _ _ _ _ _ _ _ _ => trivial
  exact (hsafe.runs (T := fun _ _ => True) (fun _ _ _ _ _ _ _ _ h => h) (fun _ => trivial)
    (fun _ _ => trivial) (fun _ _ _ _ => trivial) hruns).1

/-- A step commits nothing, or what the journal allows its client. -/
theorem commit_of_step (hv : D.valid db) (hends : ∀ i, (J.protocol i).Ends [] (progs i))
    (h : Runs E AnyStep (Sys.start db progs) s) (hstep : Step E s i s') : J.Made i s.db s'.db :=
  ((safe_of_runs hv hends h).allowed hstep).1.2

/-- What every commit keeps, every run keeps. -/
theorem inv_of_runs {K : σ → Prop} (hv : D.valid db) (hk : K db)
    (hends : ∀ i, (J.protocol i).Ends [] (progs i))
    (hcommit : ∀ i db ws, D.valid db → K db → D.fitsAll ws db → J.commit i db ws →
      K (E.applyAll ws db))
    (h : Runs E AnyStep (Sys.start db progs) s) : K s.db := by
  induction h with
  | refl => exact hk
  | step hruns hstep _ ih =>
      rcases commit_of_step hv hends hruns hstep with hsame | ⟨ws, hv', hf, hc, hdb⟩
      · rw [hsame]
        exact ih
      · rw [hdb]
        exact hcommit _ _ ws hv' ih hf hc

end Runs

end Journal

end Transact
