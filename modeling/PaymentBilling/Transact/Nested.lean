import PaymentBilling.Transact.Body

/-!
# Transact.Nested

Programs that leave the stack of transactions as they found it.

`P.Returns stack p` says that `p` may run on top of `stack`, and ends there
whether it returns or throws.  Such programs are composed without a word about
their traces; inside a transaction they add nothing to it (`does_of_returns`).
-/

set_option linter.unusedSectionVars false

namespace Transact

variable {S : Type → Type} {σ ω ℓ ε η α β : Type} [DecidableEq ℓ] {E : Engine S σ ω ℓ ε η}

namespace Protocol

variable {D : Discipline E} {I : σ → Prop} (P : Protocol D I)

/-- The program ends with the stack that it starts with. -/
def Returns (stack : List (Tx ω ℓ)) (p : Prog S ε α) : Prop :=
  ∀ trace db, P.wp p (fun _ c' _ => c'.stack = stack) ⟨stack, trace⟩ db

/-- Nothing is added to the transaction. -/
def silent (D : Discipline E) (α : Type) : Effect D α := .exactly D α []

variable {P} {stack : List (Tx ω ℓ)} {X : Effect D α}

theorem returns_pure (a : α) : P.Returns stack (pure a : Prog S ε α) := fun _ _ => rfl

theorem returns_throw (e : ε) : P.Returns stack (throw e : Prog S ε α) := fun _ _ => rfl

theorem returns_bind {p : Prog S ε α} {f : α → Prog S ε β} (hp : P.Returns stack p)
    (hf : ∀ a, P.Returns stack (f a)) : P.Returns stack (p >>= f) := by
  intro trace db
  rw [P.wp_bind]
  refine P.wp_mono (fun r c' db' hr => ?_) (hp trace db)
  obtain ⟨stack', trace'⟩ := c'
  obtain rfl : stack' = stack := hr
  cases r with
  | ok a => exact hf a trace' db'
  | error e => rfl

theorem returns_tryCatch {p : Prog S ε α} {f : ε → Prog S ε α} (hp : P.Returns stack p)
    (hf : ∀ e, P.Returns stack (f e)) : P.Returns stack (tryCatch p f) := by
  intro trace db
  rw [P.wp_tryCatch]
  refine P.wp_mono (fun r c' db' hr => ?_) (hp trace db)
  obtain ⟨stack', trace'⟩ := c'
  obtain rfl : stack' = stack := hr
  cases r with
  | ok a => rfl
  | error e => exact hf e trace' db'

/-- A statement that commits at once. -/
theorem returns_exec {s : S α} (h : ∀ trace env a ws db, D.valid db → I db →
    E.exec s env db = .ok (a, ws) → P.Keeps ⟨[], trace⟩ db (E.applyAll ws db)) :
    P.Returns [] (Prog.exec s) := fun trace _ =>
  P.wp_exec_auto (fun _ _ _ => rfl) fun env a ws db' hs hx =>
    ⟨h trace env a ws db' hs.valid hs.inv hx, rfl⟩

/-- A statement that reads, and what goes on with its answer. -/
theorem returns_read {s : S α} {f : α → Prog S ε β}
    (hread : ∀ env a ws db, E.exec s env db = .ok (a, ws) → ws = [])
    (hf : ∀ env a db trace, D.valid db → E.exec s env db = .ok (a, []) →
      P.wp (f a) (fun _ c' _ => c'.stack = []) ⟨[], trace⟩ db) :
    P.Returns [] (Prog.exec s >>= f) := by
  intro trace db
  rw [P.wp_bind]
  refine P.wp_exec_auto (fun _ _ _ => rfl) fun env a ws db' hs hx => ?_
  obtain rfl := hread env a ws db' hx
  exact ⟨P.keeps_refl hs.inv, hf env a db' _ hs.valid hx⟩

/-- A transaction whose commits are allowed. -/
theorem returns_transaction {p : Prog S ε α} (h : ∀ past, P.Does past p X)
    (hcommit : ∀ a ws c db, D.valid db → I db → D.fitsAll ws db → X.rel a ws db →
      P.Keeps c db (E.applyAll ws db)) : P.Returns stack (Prog.transaction p) := fun trace _ =>
  wp_transaction_of_does (h trace) (fun _ _ _ hc => hc) fun a t c' db' _ _ _ hs hfits hx =>
    ⟨hcommit a t.writes c' db' hs.valid hs.inv hfits hx, rfl⟩

/-- Inside a transaction such a program adds nothing to it. -/
theorem does_of_returns {past : List (Event S ε)} {p : Prog S ε α} (hp : Only anyStmt p 0)
    (h : ∀ stack, P.Returns stack p) : P.Does past p (silent D α) := by
  intro t ts events db _ _
  refine P.wp_mono (fun r c' db' hr => ?_) (P.wp_frame hp (h (t :: ts) (events ++ past) db))
  obtain ⟨hstack, hframe⟩ := hr
  refine ⟨hframe.trace, hframe.le, fun _ _ => by rw [hstack, List.tail_cons], fun a _ => ?_⟩
  exact ⟨[], t.held, by rw [hstack, List.append_nil], rfl⟩

/-- What the others leave true may be used. -/
theorem wp_of_returns_knowing {A : σ → Prop} {p : Prog S ε α} {db : σ} {trace : List (Event S ε)}
    (hA : ∀ db db', D.le db db' → A db → A db') (ha : A db)
    (h : (P.knowing A).Returns stack p) :
    P.wp p (fun _ c' _ => c'.stack = stack) ⟨stack, trace⟩ db := by
  have hpast : ∃ events, trace = events ++ trace := ⟨[], rfl⟩
  refine P.wp_of_knowing (fun _ _ _ _ hs => hA _ _ hs.le) hpast ha ?_
  exact Protocol.wp_mono _ (fun _ _ _ hr _ => hr) (h trace db)

end Protocol

end Transact
