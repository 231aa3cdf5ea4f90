import PaymentBilling.Transact.Scope

/-!
# Transact.Blame

Where the errors of programs come from.

Some kinds of errors are made by the store only: a program that ends with one
passes on the answer of one of its statements.  `Passes B p` says so of the kind
`B`, by the shape of `p`; that there is such a statement in the past of a
client follows under any protocol (`wp_blame`).
-/

set_option linter.unusedSectionVars false

namespace Transact

variable {S : Type → Type} {σ ω ℓ ε η α β : Type} [DecidableEq ℓ] {E : Engine S σ ω ℓ ε η}

/-- `p` ends with an error of the kind `B` only if one of its actions did. -/
def Passes (B : ε → Prop) : Prog S ε α → Prop
  | .ret r => ∀ e, r = .error e → ¬B e
  | .stmt _ k => ∀ r, (∀ e, r = .error e → ¬B e) → Passes B (k r)
  | .begin k => Passes B k
  | .commit k => ∀ r, (∀ e, r = .error e → ¬B e) → Passes B (k r)
  | .rollback k => Passes B k

variable {B : ε → Prop}

theorem passes_andThen {p : Prog S ε α} {f : Except ε α → Prog S ε β} (hp : Passes B p)
    (hf : ∀ r, (∀ e, r = .error e → ¬B e) → Passes B (f r)) : Passes B (p.andThen f) := by
  induction p with
  | ret r => exact hf r hp
  | stmt s k ih => exact fun r hr => ih r (hp r hr)
  | begin k ih => exact ih hp
  | commit k ih => exact fun r hr => ih r (hp r hr)
  | rollback k ih => exact ih hp

theorem passes_pure (a : α) : Passes B (pure a : Prog S ε α) := nofun

theorem passes_throw {e : ε} (h : ¬B e) : Passes B (throw e : Prog S ε α) := by
  intro e' he
  cases he
  exact h

theorem passes_exec (s : S α) : Passes B (Prog.exec s : Prog S ε α) := fun _ hr => hr

theorem passes_bind {p : Prog S ε α} {f : α → Prog S ε β} (hp : Passes B p)
    (hf : ∀ a, Passes B (f a)) : Passes B (p >>= f) := by
  refine passes_andThen hp fun r hr => ?_
  cases r with
  | ok a => exact hf a
  | error e => exact passes_throw (hr e rfl)

theorem passes_tryCatch {p : Prog S ε α} {h : ε → Prog S ε α} (hp : Passes B p)
    (hh : ∀ e, Passes B (h e)) : Passes B (tryCatch p h) := by
  refine passes_andThen hp fun r _ => ?_
  cases r with
  | ok a => exact passes_pure a
  | error e => exact hh e

theorem passes_transaction {p : Prog S ε α} (hp : Passes B p) :
    Passes B (Prog.transaction p) := by
  refine passes_andThen hp fun r hr => ?_
  cases r with
  | ok a =>
      intro r hr
      cases r with
      | ok _ => exact passes_pure a
      | error e => exact passes_throw (hr e rfl)
  | error e => exact hr

/-- A statement in `N` failed with an error of the kind `B`. -/
def Event.Blamed (N : (β : Type) → S β → Prop) (B : ε → Prop) : Event S ε → Prop
  | @Event.stmt _ _ β s (.error e) => N β s ∧ B e
  | _ => False

theorem Event.Blamed.failed {N : (β : Type) → S β → Prop} {event : Event S ε} (h : event.Blamed N B) :
    event.Failed := by
  cases event with
  | stmt s answer =>
      cases answer with
      | ok _ => exact h.elim
      | error e => trivial
  | begin => exact h.elim
  | commit _ => exact h.elim
  | rollback => exact h.elim

namespace Protocol

variable {D : Discipline E} {I : σ → Prop} {N : (β : Type) → S β → Prop} {P : Protocol D I}

theorem wp_blame_aux {p : Prog S ε α} {Q : Post S σ ω ℓ ε α} {past : List (Event S ε)}
    {c : Local S ω ℓ ε} {db : σ} {d : Nat} (hB : ∀ m, ¬B (E.fault m)) (hp : Only N p d)
    (hpast : ∃ events, c.trace = events ++ past ∧
      (Passes B p ∨ ∃ event ∈ events, event.Blamed N B)) (h : P.wp p Q c db) :
    P.wp p (fun r c' db' => Q r c' db' ∧ ∃ events, c'.trace = events ++ past ∧
      ∀ e, r = .error e → B e → ∃ event ∈ events, event.Blamed N B) c db := by
  -- an action that fails with such an error can be blamed from then on
  have hcons : ∀ {q : Prog S ε α} {c : Local S ω ℓ ε} (event : Event S ε),
      (∃ events, c.trace = events ++ past ∧
        ((Passes B q ∨ event.Blamed N B) ∨ ∃ event ∈ events, event.Blamed N B)) →
      ∃ events, event :: c.trace = events ++ past ∧
        (Passes B q ∨ ∃ event ∈ events, event.Blamed N B) := by
    rintro q c event ⟨events, he, (hq | hb) | ⟨event', hmem, hb⟩⟩
    · exact ⟨event :: events, by rw [he]; rfl, .inl hq⟩
    · exact ⟨event :: events, by rw [he]; rfl, .inr ⟨event, .head _, hb⟩⟩
    · exact ⟨event :: events, by rw [he]; rfl, .inr ⟨event', .tail _ hmem, hb⟩⟩
  induction p generalizing c db d with
  | ret r =>
      obtain ⟨events, he, hblame⟩ := hpast
      refine ⟨h, events, he, fun e hr hb => hblame.resolve_left fun hpass => ?_⟩
      exact hpass e hr hb
  | stmt s k ih =>
      intro db' hs ch
      obtain ⟨hkeep, hrest⟩ := h db' hs ch
      obtain ⟨events, he, hblame⟩ := hpast
      refine ⟨hkeep, ih _ (hp.2 _) (hcons (c := c) _ ⟨events, he, ?_⟩) hrest⟩
      refine hblame.imp_left fun hpass => ?_
      cases hr : (E.run s ch c.stack db').answer with
      | ok a => exact .inl (hpass _ nofun)
      | error e =>
          by_cases hb : B e
          · exact .inr ⟨hp.1, hb⟩
          · refine .inl (hpass _ fun e' he' => ?_)
            cases he'
            exact hb
  | begin k ih =>
      intro db' hs
      obtain ⟨events, he, hblame⟩ := hpast
      exact ih hp (hcons (c := c) _ ⟨events, he, hblame.imp_left .inl⟩) (h db' hs)
  | commit k ih =>
      intro db' hs ch
      obtain ⟨hkeep, hrest⟩ := h db' hs ch
      obtain ⟨events, he, hblame⟩ := hpast
      cases d with
      | zero => exact hp.elim
      | succ d =>
          refine ⟨hkeep, ih _ (hp _) (hcons (c := c) _ ⟨events, he, ?_⟩) hrest⟩
          refine hblame.imp_left fun hpass => .inl (hpass _ fun e he => ?_)
          cases ch with
          | fail m =>
              cases he
              exact hB m
          | go env => cases hstk : c.stack <;> simp [Engine.commit, hstk] at he
  | rollback k ih =>
      intro db' hs
      obtain ⟨events, he, hblame⟩ := hpast
      cases d with
      | zero => exact hp.elim
      | succ d => exact ih hp (hcons (c := c) _ ⟨events, he, hblame.imp_left .inl⟩) (h db' hs)

/-- An error of the kind `B`, which no fault is of, was the answer of a statement. -/
theorem wp_blame {p : Prog S ε α} {Q : Post S σ ω ℓ ε α} {c : Local S ω ℓ ε} {db : σ}
    (hB : ∀ m, ¬B (E.fault m)) (hp : Only N p 0) (hpass : Passes B p) (h : P.wp p Q c db) :
    P.wp p (fun r c' db' => Q r c' db' ∧ ∃ events, c'.trace = events ++ c.trace ∧
      ∀ e, r = .error e → B e → ∃ event ∈ events, event.Blamed N B) c db :=
  wp_blame_aux hB hp ⟨[], rfl, .inl hpass⟩ h

end Protocol

end Transact
