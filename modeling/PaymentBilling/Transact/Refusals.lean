import PaymentBilling.Transact.Blame
import PaymentBilling.Transact.Body

/-!
# Transact.Refusals

Refusals that programs do not meet, in whatever company they run.

Some statements, those in `N`, may be refused with some errors, those in `B`.
`D.Avoids N B Z₀ p Q Zs` says that a program is never refused so.  It follows
what each of its open transactions may see, `Zs`, from one statement to the
next: its own writes on top of any committed database that satisfies `Z₀`.  So
it holds in any run that keeps `Z₀` (`unblamed_of_runs`), whatever is made to
fail.
-/

set_option linter.unusedSectionVars false

namespace Transact

variable {S : Type → Type} {σ ω ℓ ε η α β ι : Type} [DecidableEq ℓ] {E : Engine S σ ω ℓ ε η}

namespace Discipline

variable (D : Discipline E) (N : (β : Type) → S β → Prop) (B : ε → Prop) (Z₀ : σ → Prop)

/-- What a transaction may see once a statement that found `v` has added `ws`. -/
def after (Z : σ → Prop) (v : σ) (ws : List ω) (v' : σ) : Prop :=
  ∃ v₁, Z v₁ ∧ D.valid v₁ ∧ D.le v v₁ ∧ D.fitsAll ws v₁ ∧ v' = E.applyAll ws v₁

/-- A statement adds to the innermost transaction, or is committed at once. -/
def afterAll (v : σ) (ws : List ω) : List (σ → Prop) → List (σ → Prop)
  | [] => []
  | Z :: Zs => D.after Z v ws :: Zs

/-- No statement in `N` is refused with an error in `B`, and at the end `Q` holds
of what the open transactions may see. -/
def Avoids : Prog S ε α → (Except ε α → List (σ → Prop) → Prop) → List (σ → Prop) → Prop
  | .ret r, Q, Zs => Q r Zs
  | .stmt s k, Q, Zs => (∀ m, Avoids (k (.error (E.fault m))) Q Zs) ∧
      ∀ env v, D.valid v → Zs.headD Z₀ v →
        (∀ e, E.exec s env v = .error e → ¬(N _ s ∧ B e) ∧ Avoids (k (.error e)) Q Zs) ∧
          ∀ b ws, E.exec s env v = .ok (b, ws) → (Zs = [] → Z₀ (E.applyAll ws v)) →
            Avoids (k (.ok b)) Q (D.afterAll v ws Zs)
  | .begin k, Q, Zs => Avoids k Q (Z₀ :: Zs)
  | .commit k, Q, Zs =>
      Avoids (k (.ok ())) Q Zs.tail ∧ ∀ m, Avoids (k (.error (E.fault m))) Q Zs.tail
  | .rollback k, Q, Zs => Avoids k Q Zs.tail

/-- The same for the body of a transaction that sees `Z` and opens none itself. -/
def AvoidsIn (p : Prog S ε α) (Q : α → (σ → Prop) → Prop) (Z : σ → Prop) : Prop :=
  ∀ Zs, D.Avoids N B Z₀ p (fun r Zs' => ∃ Z', Zs' = Z' :: Zs ∧ ∀ a, r = .ok a → Q a Z') (Z :: Zs)

variable {D N B Z₀}

/-! ## Rules for programs -/

section Rules

variable {Zs : List (σ → Prop)}

theorem Avoids.mono {p : Prog S ε α} {Q Q' : Except ε α → List (σ → Prop) → Prop}
    (hQ : ∀ r Zs, Q r Zs → Q' r Zs) (h : D.Avoids N B Z₀ p Q Zs) : D.Avoids N B Z₀ p Q' Zs := by
  induction p generalizing Zs with
  | ret r => exact hQ r Zs h
  | stmt s k ih =>
      obtain ⟨hfault, h⟩ := h
      refine ⟨fun m => ih _ (hfault m), fun env v hv hz => ?_⟩
      obtain ⟨herr, hok⟩ := h env v hv hz
      exact ⟨fun e hx => ⟨(herr e hx).1, ih _ (herr e hx).2⟩,
        fun b ws hx hz' => ih _ (hok b ws hx hz')⟩
  | begin k ih => exact ih h
  | commit k ih => exact ⟨ih _ h.1, fun m => ih _ (h.2 m)⟩
  | rollback k ih => exact ih h

theorem avoids_andThen {p : Prog S ε α} {f : Except ε α → Prog S ε β}
    {Q : Except ε β → List (σ → Prop) → Prop}
    (h : D.Avoids N B Z₀ p (fun r Zs' => D.Avoids N B Z₀ (f r) Q Zs') Zs) :
    D.Avoids N B Z₀ (p.andThen f) Q Zs := by
  induction p generalizing Zs with
  | ret r => exact h
  | stmt s k ih =>
      obtain ⟨hfault, h⟩ := h
      refine ⟨fun m => ih _ (hfault m), fun env v hv hz => ?_⟩
      obtain ⟨herr, hok⟩ := h env v hv hz
      exact ⟨fun e hx => ⟨(herr e hx).1, ih _ (herr e hx).2⟩,
        fun b ws hx hz' => ih _ (hok b ws hx hz')⟩
  | begin k ih => exact ih h
  | commit k ih => exact ⟨ih _ h.1, fun m => ih _ (h.2 m)⟩
  | rollback k ih => exact ih h

theorem avoids_bind {p : Prog S ε α} {f : α → Prog S ε β} {Q : Except ε β → List (σ → Prop) → Prop}
    (h : D.Avoids N B Z₀ p (fun r Zs' => match r with
      | .ok a => D.Avoids N B Z₀ (f a) Q Zs'
      | .error e => Q (.error e) Zs') Zs) : D.Avoids N B Z₀ (p >>= f) Q Zs := by
  refine avoids_andThen (h.mono fun r Zs' hr => ?_)
  cases r with
  | ok a => exact hr
  | error e => exact hr

theorem avoids_tryCatch {p : Prog S ε α} {f : ε → Prog S ε α}
    {Q : Except ε α → List (σ → Prop) → Prop}
    (h : D.Avoids N B Z₀ p (fun r Zs' => match r with
      | .ok a => Q (.ok a) Zs'
      | .error e => D.Avoids N B Z₀ (f e) Q Zs') Zs) : D.Avoids N B Z₀ (tryCatch p f) Q Zs := by
  refine avoids_andThen (h.mono fun r Zs' hr => ?_)
  cases r with
  | ok a => exact hr
  | error e => exact hr

/-- A transaction starts on what is committed. -/
theorem avoids_transaction {p : Prog S ε α} {Q : Except ε α → List (σ → Prop) → Prop}
    (h : D.Avoids N B Z₀ p (fun _ Zs' => ∀ r, Q r Zs'.tail) (Z₀ :: Zs)) :
    D.Avoids N B Z₀ (Prog.transaction p) Q Zs := by
  refine avoids_andThen (p := p) (h.mono fun r Zs' hr => ?_)
  cases r with
  | ok a => exact ⟨hr _, fun m => hr _⟩
  | error e => exact hr _

/-- A statement that commits at once. -/
theorem avoids_exec_auto {s : S α} {Q : Except ε α → List (σ → Prop) → Prop} (hs : ¬N α s)
    (herr : ∀ e, Q (.error e) [])
    (hok : ∀ env v a ws, D.valid v → Z₀ v → E.exec s env v = .ok (a, ws) → Z₀ (E.applyAll ws v) →
      Q (.ok a) []) : D.Avoids N B Z₀ (Prog.exec s) Q [] :=
  ⟨fun _ => herr _, fun env v hv hz =>
    ⟨fun e _ => ⟨fun hb => hs hb.1, herr e⟩, fun a ws hx hz' => hok env v a ws hv hz hx (hz' rfl)⟩⟩

/-- A program without such statements. -/
theorem avoids_only {N' : (β : Type) → S β → Prop} {p : Prog S ε α} {d : Nat}
    {Q : Except ε α → List (σ → Prop) → Prop} (hN : ∀ β s, N' β s → ¬N β s) (hp : Only N' p d)
    (hQ : ∀ r Zs, Q r Zs) : D.Avoids N B Z₀ p Q Zs := by
  induction p generalizing Zs d with
  | ret r => exact hQ r Zs
  | stmt s k ih =>
      exact ⟨fun m => ih _ (hp.2 _), fun env v _ _ =>
        ⟨fun e _ => ⟨fun hb => hN _ s hp.1 hb.1, ih _ (hp.2 _)⟩, fun b ws _ _ => ih _ (hp.2 _)⟩⟩
  | begin k ih => exact ih hp
  | commit k ih =>
      cases d with
      | zero => exact hp.elim
      | succ d => exact ⟨ih _ (hp _), fun m => ih _ (hp _)⟩
  | rollback k ih =>
      cases d with
      | zero => exact hp.elim
      | succ d => exact ih hp

/-- A program that goes on without such statements. -/
theorem Avoids.bind_only {N' : (β : Type) → S β → Prop} {p : Prog S ε α} {f : α → Prog S ε β}
    (h : D.Avoids N B Z₀ p (fun _ _ => True) Zs) (hN : ∀ β s, N' β s → ¬N β s)
    (hf : ∀ a, Only N' (f a) 0) : D.Avoids N B Z₀ (p >>= f) (fun _ _ => True) Zs := by
  refine avoids_bind (h.mono fun r Zs' _ => ?_)
  cases r with
  | ok a => exact avoids_only hN (hf a) fun _ _ => trivial
  | error e => trivial

theorem Avoids.tryCatch_only {N' : (β : Type) → S β → Prop} {p : Prog S ε α} {f : ε → Prog S ε α}
    (h : D.Avoids N B Z₀ p (fun _ _ => True) Zs) (hN : ∀ β s, N' β s → ¬N β s)
    (hf : ∀ e, Only N' (f e) 0) : D.Avoids N B Z₀ (tryCatch p f) (fun _ _ => True) Zs := by
  refine avoids_tryCatch (h.mono fun r Zs' _ => ?_)
  cases r with
  | ok a => trivial
  | error e => exact avoids_only hN (hf e) fun _ _ => trivial

end Rules

/-! ## Rules for bodies -/

section Bodies

variable {Z : σ → Prop}

theorem avoidsIn_pure {a : α} {Q : α → (σ → Prop) → Prop} (h : Q a Z) :
    D.AvoidsIn N B Z₀ (pure a) Q Z := by
  refine fun Zs => ⟨Z, rfl, fun a' ha => ?_⟩
  obtain rfl := Except.ok.inj ha
  exact h

theorem avoidsIn_throw {Q : α → (σ → Prop) → Prop} (e : ε) :
    D.AvoidsIn N B Z₀ (throw e : Prog S ε α) Q Z := fun _ => ⟨Z, rfl, nofun⟩

/-- A statement is not refused for what it finds. -/
theorem avoidsIn_exec {s : S α} {Q : α → (σ → Prop) → Prop}
    (herr : ∀ env v e, D.valid v → Z v → E.exec s env v = .error e → ¬(N α s ∧ B e))
    (hok : ∀ env v a ws, D.valid v → Z v → E.exec s env v = .ok (a, ws) → Q a (D.after Z v ws)) :
    D.AvoidsIn N B Z₀ (Prog.exec s) Q Z := by
  refine fun Zs => ⟨fun m => ⟨Z, rfl, nofun⟩, fun env v hv hz => ⟨fun e hx => ?_, fun a ws hx _ => ?_⟩⟩
  · exact ⟨herr env v e hv hz hx, Z, rfl, nofun⟩
  · refine ⟨_, rfl, fun a' ha => ?_⟩
    obtain rfl := Except.ok.inj ha
    exact hok env v a ws hv hz hx

/-- A statement of another kind. -/
theorem avoidsIn_other {s : S α} {Q : α → (σ → Prop) → Prop} (hs : ¬N α s)
    (hok : ∀ env v a ws, D.valid v → Z v → E.exec s env v = .ok (a, ws) → Q a (D.after Z v ws)) :
    D.AvoidsIn N B Z₀ (Prog.exec s) Q Z :=
  avoidsIn_exec (fun _ _ _ _ _ _ h => hs h.1) hok

/-- A transaction that goes on without such statements. -/
theorem AvoidsIn.transaction {N' : (β : Type) → S β → Prop} {p : Prog S ε α} {f : α → Prog S ε β}
    {Q : α → (σ → Prop) → Prop} {Zs : List (σ → Prop)} (h : D.AvoidsIn N B Z₀ p Q Z₀)
    (hN : ∀ β s, N' β s → ¬N β s) (hf : ∀ a, Only N' (f a) 0) :
    D.Avoids N B Z₀ (Prog.transaction (p >>= f)) (fun _ _ => True) Zs :=
  avoids_transaction ((Avoids.bind_only ((h Zs).mono fun _ _ _ => trivial) hN hf).mono
    fun _ _ _ _ => trivial)

theorem AvoidsIn.bind {p : Prog S ε α} {f : α → Prog S ε β} {Q : α → (σ → Prop) → Prop}
    {Q' : β → (σ → Prop) → Prop} (h : D.AvoidsIn N B Z₀ p Q Z)
    (hf : ∀ a Z', Q a Z' → D.AvoidsIn N B Z₀ (f a) Q' Z') : D.AvoidsIn N B Z₀ (p >>= f) Q' Z := by
  refine fun Zs => avoids_bind ((h Zs).mono fun r Zs' hr => ?_)
  obtain ⟨Z', rfl, hq⟩ := hr
  cases r with
  | ok a => exact hf a Z' (hq a rfl) Zs
  | error e => exact ⟨Z', rfl, nofun⟩

end Bodies

/-! ## Runs -/

/-- Every open transaction sees what it may see, now and later. -/
def Covers (D : Discipline E) (Z₀ : σ → Prop) (Zs : List (σ → Prop)) (stack : List (Tx ω ℓ))
    (db : σ) : Prop :=
  List.Forall₂ (fun Z t => ∀ db', D.valid db' → Z₀ db' → D.le db db' → D.fitsAll t.writes db' →
    Z (E.view t db')) Zs stack

section Runs

variable {Zs : List (σ → Prop)} {stack : List (Tx ω ℓ)} {db db' : σ}

theorem Covers.mono (h : D.Covers Z₀ Zs stack db) (hle : D.le db db') : D.Covers Z₀ Zs stack db' :=
  List.Forall₂.imp (fun _ _ hz db'' hv hz₀ hle' => hz db'' hv hz₀ (D.le_trans hle hle')) h

theorem Covers.tail (h : D.Covers Z₀ Zs stack db) : D.Covers Z₀ Zs.tail stack.tail db := by
  cases h with
  | nil => exact .nil
  | cons _ h => exact h

/-- A statement sees the view of the innermost transaction, or what is committed. -/
theorem Covers.head {t : Tx ω ℓ} {ts : List (Tx ω ℓ)} {Z : σ → Prop} (hv : D.valid db) (hz : Z₀ db)
    (hs : D.StackOk (t :: ts) db) (h : D.Covers Z₀ (Z :: Zs) (t :: ts) db) : Z (E.view t db) := by
  cases h with
  | cons h _ => exact h db hv hz (D.le_refl db) (hs.fits t (.head _))

/-- What a statement adds is covered. -/
theorem Covers.add {t : Tx ω ℓ} {ts : List (Tx ω ℓ)} {Z : σ → Prop} {ws : List ω} {held : List ℓ}
    (hs : D.StackOk (t :: ts) db) (h : D.Covers Z₀ (Z :: Zs) (t :: ts) db) :
    D.Covers Z₀ (D.after Z (E.view t db) ws :: Zs) (⟨t.writes ++ ws, held⟩ :: ts) db := by
  cases h with
  | cons h hrest =>
      refine .cons (fun db' hv hz hle hfits => ?_) hrest
      have hfits := D.fitsAll_append.mp hfits
      exact ⟨E.view t db', h db' hv hz hle hfits.1, D.valid_applyAll hfits.1 hv,
        D.applyAll_le (hs.fits t (.head _)) hfits.1 hle, hfits.2, E.view_append t ws held db'⟩

variable {c c' : Client S ω ℓ ε α} {Q : Except ε α → List (σ → Prop) → Prop} {ch : Choice η}
  {took : List ℓ}

/-- The step: what a client does next is not refused, and it goes on so. -/
theorem Avoids.next (hB : ∀ m, ¬B (E.fault m)) (hv : D.valid db) (hz : Z₀ db) (hz' : Z₀ db')
    (hs : D.StackOk c.loc.stack db) (hc : D.Covers Z₀ Zs c.loc.stack db)
    (h : D.Avoids N B Z₀ c.prog Q Zs) (hn : E.next ch db c = some (c', db', took)) :
    ∃ event Zs', c'.loc.trace = event :: c.loc.trace ∧ ¬event.Blamed N B ∧
      D.Avoids N B Z₀ c'.prog Q Zs' ∧ D.Covers Z₀ Zs' c'.loc.stack db' := by
  obtain ⟨-, -, hle, -, -⟩ := D.next_ok ch hn hv hs
  obtain ⟨prog, stack, trace⟩ := c
  cases prog with
  | ret r => simp [Engine.next] at hn
  | stmt s k =>
      simp only [Engine.next, Option.some.injEq, Prod.mk.injEq] at hn
      obtain ⟨rfl, rfl, rfl⟩ := hn
      obtain ⟨hfault, h⟩ := h
      -- a fault is not blamed on the statement
      have hfail : ∀ m, ¬(Event.stmt s (.error (E.fault m))).Blamed N B := fun m hb => hB m hb.2
      cases ch with
      | fail m => exact ⟨_, Zs, rfl, hfail m, hfault m, hc⟩
      | go env =>
          cases hc with
          | nil =>
              obtain ⟨herr, hok⟩ := h env db hv hz
              cases hx : E.exec s env db with
              | error e =>
                  simp only [Engine.run, hx]
                  exact ⟨_, [], rfl, (herr e hx).1, (herr e hx).2, .nil⟩
              | ok o =>
                  simp only [Engine.run, hx] at hz' ⊢
                  exact ⟨_, [], rfl, id, hok o.1 o.2 hx fun _ => hz', .nil⟩
          | @cons Z t Zs ts hzt hrest =>
              have hcovers : D.Covers Z₀ (Z :: Zs) (t :: ts) db := .cons hzt hrest
              obtain ⟨herr, hok⟩ := h env (E.view t db) (hs.valid_view hv) (hcovers.head hv hz hs)
              cases hx : E.exec s env (E.view t db) with
              | error e =>
                  simp only [Engine.run, hx]
                  exact ⟨_, Z :: Zs, rfl, (herr e hx).1, (herr e hx).2, hcovers⟩
              | ok o =>
                  simp only [Engine.run, hx]
                  split
                  · exact ⟨_, Z :: Zs, rfl, hfail _, hfault _, hcovers⟩
                  · exact ⟨_, _, rfl, id, hok o.1 o.2 hx (by simp), hcovers.add hs⟩
  | begin k =>
      simp only [Engine.next, Option.some.injEq, Prod.mk.injEq] at hn
      obtain ⟨rfl, rfl, rfl⟩ := hn
      exact ⟨_, _, rfl, id, h, .cons (fun _ _ hz _ _ => hz) hc⟩
  | commit k =>
      simp only [Engine.next, Option.some.injEq, Prod.mk.injEq] at hn
      obtain ⟨rfl, rfl, rfl⟩ := hn
      cases ch with
      | fail m => exact ⟨_, _, rfl, id, h.2 m, hc.tail⟩
      | go env =>
          cases hc with
          | nil => exact ⟨_, _, rfl, id, h.1, .nil⟩
          | cons hzt hrest => exact ⟨_, _, rfl, id, h.1, Covers.mono (D := D) hrest hle⟩
  | rollback k =>
      simp only [Engine.next, Option.some.injEq, Prod.mk.injEq] at hn
      obtain ⟨rfl, rfl, rfl⟩ := hn
      exact ⟨_, _, rfl, id, h, hc.tail⟩

/-- In a run that keeps `Z₀`, programs that avoid the refusals do not meet them. -/
theorem unblamed_of_runs [DecidableEq ι] {progs : ι → Prog S ε α} {s : Sys S σ ω ℓ ε α ι}
    (hB : ∀ m, ¬B (E.fault m)) (hv : D.valid db) (hz : Z₀ db)
    (hp : ∀ i, D.Avoids N B Z₀ (progs i) (fun _ _ => True) [])
    (h : Runs E (fun _ _ s' => Z₀ s'.db) (Sys.start db progs) s) (i : ι) :
    ∀ event ∈ (s.clients i).loc.trace, ¬event.Blamed N B := by
  suffices hall : D.SysOk s ∧ Z₀ s.db ∧ ∀ i, (∀ event ∈ (s.clients i).loc.trace, ¬event.Blamed N B) ∧
      ∃ Zs, D.Avoids N B Z₀ (s.clients i).prog (fun _ _ => True) Zs ∧
        D.Covers Z₀ Zs (s.clients i).loc.stack s.db from (hall.2.2 i).1
  induction h with
  | refl => exact ⟨.start D hv progs, hz, fun i => ⟨List.forall_mem_nil _, [], hp i, .nil⟩⟩
  | @step s₁ s₂ j _ hstep hz₂ ih =>
      obtain ⟨hok, hz₁, hclients⟩ := ih
      have hok₂ := hok.step hstep
      obtain ⟨ch, c, db', took, hn, -, rfl⟩ := hstep
      obtain ⟨-, -, hle, -, -⟩ := D.next_ok ch hn hok.valid (hok.stack j)
      refine ⟨hok₂, hz₂, fun i => ?_⟩
      obtain ⟨htrace, Zs, hp, hc⟩ := hclients i
      by_cases hi : i = j
      · subst hi
        simp only [Function.update_self]
        obtain ⟨event, Zs', he, hnot, hp', hc'⟩ := hp.next hB hok.valid hz₁ hz₂ (hok.stack i) hc hn
        refine ⟨fun e hin => ?_, Zs', hp', hc'⟩
        rw [he] at hin
        cases List.mem_cons.mp hin with
        | inl hin => exact hin ▸ hnot
        | inr hin => exact htrace e hin
      · simp only [Function.update_of_ne hi]
        exact ⟨htrace, Zs, hp, hc.mono hle⟩

end Runs

end Discipline

end Transact
