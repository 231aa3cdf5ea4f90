import PaymentBilling.Transact.Solo

/-!
# Transact.Body

The bodies of transactions: what a program adds to the log of the transaction
it runs in.

An `Effect` relates the result of such a program to the writes it adds and to
the view it adds them to.  It has to survive what other clients commit in the
meantime, as the view moves with every commit.  `Does p X` says that `p` adds
`X` or throws, under any interference the protocol admits; bodies are then
composed without looking at the protocol (`does_bind`), and only their commit
is left to be justified (`wp_transaction_of_does`).
-/

set_option linter.unusedSectionVars false

namespace Transact

variable {S : Type → Type} {σ ω ℓ ε η α β γ : Type} [DecidableEq ℓ] {E : Engine S σ ω ℓ ε η}

/-! ## Effects -/

/-- A result and the writes that come with it, seen from the view they are
made on. -/
structure Effect (D : Discipline E) (α : Type) where
  rel : α → List ω → σ → Prop
  stable : ∀ {a ws db db'}, D.fitsAll ws db → D.fitsAll ws db' → D.le db db' → rel a ws db →
    rel a ws db'

namespace Effect

variable {D : Discipline E}

/-- Add nothing. -/
def pure (D : Discipline E) (a : α) : Effect D α where
  rel a' ws _ := a' = a ∧ ws = []
  stable _ _ _ h := h

/-- One effect after another. -/
def bind (X : Effect D α) (Y : α → Effect D β) : Effect D β where
  rel b ws db := ∃ a ws₁ ws₂, ws = ws₁ ++ ws₂ ∧ X.rel a ws₁ db ∧
    (Y a).rel b ws₂ (E.applyAll ws₁ db)
  stable := by
    intro b ws db db' hf hf' hle h
    obtain ⟨a, ws₁, ws₂, rfl, hx, hy⟩ := h
    rw [D.fitsAll_append] at hf hf'
    exact ⟨a, ws₁, ws₂, rfl, X.stable hf.1 hf'.1 hle hx,
      (Y a).stable hf.2 hf'.2 (D.applyAll_le hf.1 hf'.1 hle) hy⟩

/-- Writes that all satisfy `W`. -/
def writes (D : Discipline E) (W : ω → Prop) : Effect D α where
  rel _ ws _ := ∀ w ∈ ws, W w
  stable _ _ _ h := h

/-- Make exactly the writes `ws`. -/
def exactly (D : Discipline E) (α : Type) (ws : List ω) : Effect D α where
  rel _ ws' _ := ws' = ws
  stable _ _ _ h := h

/-- Return only if `φ`, which is not about the database. -/
def fact (D : Discipline E) (α : Type) (φ : Prop) : Effect D α where
  rel _ _ _ := φ
  stable _ _ _ h := h

/-- One effect or the other. -/
def or (X Y : Effect D α) : Effect D α where
  rel a ws db := X.rel a ws db ∨ Y.rel a ws db
  stable hf hf' hle h := h.imp (X.stable hf hf' hle) (Y.stable hf hf' hle)

/-- Never return. -/
def never (D : Discipline E) (α : Type) : Effect D α where
  rel _ _ _ := False
  stable _ _ _ h := h

end Effect

namespace Engine

theorem view_append (t : Tx ω ℓ) (ws : List ω) (held : List ℓ) (db : σ) :
    E.view ⟨t.writes ++ ws, held⟩ db = E.applyAll ws (E.view t db) := E.applyAll_append ..

end Engine

namespace Protocol

variable {D : Discipline E} {I : σ → Prop} (P : Protocol D I)

/-! ## The order of the stack -/

/-- A program leaves the store valid and its stack in order. -/
theorem wp_stackOk {p : Prog S ε α} {Q : Post S σ ω ℓ ε α} {c : Local S ω ℓ ε} {db : σ}
    (hv : D.valid db) (hs : D.StackOk c.stack db) (h : P.wp p Q c db) :
    P.wp p (fun r c db => Q r c db ∧ D.valid db ∧ D.StackOk c.stack db) c db := by
  induction p generalizing c db with
  | ret r => exact ⟨h, hv, hs⟩
  | stmt s k ih =>
      intro db' hsees ch
      obtain ⟨hv', hs', -⟩ := D.run_ok (s := s) ch hsees.valid hsees.stack
      exact ⟨(h db' hsees ch).1, ih _ hv' hs' (h db' hsees ch).2⟩
  | begin k ih => exact fun db' hsees => ih hsees.valid hsees.stack.push (h db' hsees)
  | commit k ih =>
      intro db' hsees ch
      obtain ⟨hv', hs', -⟩ :=
        D.next_ok ch (c := ⟨.commit k, c⟩) rfl hsees.valid hsees.stack
      exact ⟨(h db' hsees ch).1, ih _ hv' hs' (h db' hsees ch).2⟩
  | rollback k ih =>
      intro db' hsees
      obtain ⟨hv', hs', -⟩ :=
        D.next_ok (.fail "") (c := ⟨.rollback k, c⟩) rfl hsees.valid hsees.stack
      exact ih hv' hs' (h db' hsees)

/-- The view of a transaction only ever grows. -/
theorem Sees.view_le {P : Protocol D I} {t : Tx ω ℓ} {ts : List (Tx ω ℓ)}
    {trace : List (Event S ε)} {db db' : σ} (hs : P.Sees ⟨t :: ts, trace⟩ db db')
    (hok : D.StackOk (t :: ts) db) : D.le (E.view t db) (E.view t db') :=
  D.applyAll_le (hok.fits t (.head _)) (hs.stack.fits t (.head _)) hs.le

/-! ## Bodies -/

/-- What a body that started in the transaction `t` on `db₀` ends with: it
threw, or its writes have joined `t`. -/
structure Added (X : Effect D α) (t : Tx ω ℓ) (ts : List (Tx ω ℓ)) (trace : List (Event S ε))
    (db₀ : σ) (r : Except ε α) (c : Local S ω ℓ ε) (db : σ) : Prop where
  trace : ∃ events, c.trace = events ++ trace
  le : D.le db₀ db
  error : ∀ e, r = .error e → c.stack.tail = ts
  ok : ∀ a, r = .ok a → ∃ ws held, c.stack = ⟨t.writes ++ ws, held⟩ :: ts ∧
    X.rel a ws (E.view t db)

/-- Inside any transaction of a client with this past, `p` adds `X` to it or
throws. -/
def Does (past : List (Event S ε)) (p : Prog S ε α) (X : Effect D α) : Prop :=
  ∀ t ts events db, D.valid db → D.StackOk (t :: ts) db →
    P.wp p (Added X t ts (events ++ past) db) ⟨t :: ts, events ++ past⟩ db

/-- The same for a client that knows `K` of the database, before and after. -/
def DoesWith (K : σ → Prop) (past : List (Event S ε)) (p : Prog S ε α) (X : Effect D α) : Prop :=
  ∀ t ts events db, D.valid db → D.StackOk (t :: ts) db → K db →
    P.wp p (fun r c db' => Added X t ts (events ++ past) db r c db' ∧ K db')
      ⟨t :: ts, events ++ past⟩ db

variable {P} {X : Effect D α} {past : List (Event S ε)}

theorem doesWith_true {p : Prog S ε α} (h : P.Does past p X) : P.DoesWith (fun _ => True) past p X :=
  fun t ts events db hv hok _ =>
    P.wp_mono (fun _ _ _ hr => ⟨hr, trivial⟩) (h t ts events db hv hok)

/-- What the others leave true stays known. -/
theorem doesWith_of_knowing {K : σ → Prop} {p : Prog S ε α} (h : (P.knowing K).Does past p X)
    (hK : ∀ c db₁ db₂, (∃ events, c.trace = events ++ past) → P.Sees c db₁ db₂ → K db₁ → K db₂) :
    P.DoesWith K past p X :=
  fun t ts events db hv hok hk =>
    P.wp_of_knowing hK ⟨events, rfl⟩ hk
      (Protocol.wp_mono _ (fun _ _ _ hr hknown => And.intro hr hknown) (h t ts events db hv hok))

theorem does_weaken {Y : Effect D α} {p : Prog S ε α} (h : P.Does past p X)
    (hXY : ∀ a ws db, X.rel a ws db → Y.rel a ws db) : P.Does past p Y := by
  intro t ts events db hv hok
  refine P.wp_mono (fun r c db' hr => ⟨hr.trace, hr.le, hr.error, fun a ha => ?_⟩)
    (h t ts events db hv hok)
  obtain ⟨ws, held, hc, hx⟩ := hr.ok a ha
  exact ⟨ws, held, hc, hXY _ _ _ hx⟩

theorem does_pure (a : α) : P.Does past (Pure.pure a) (Effect.pure D a) := by
  intro t ts trace db hv hok
  refine ⟨⟨[], rfl⟩, D.le_refl db, nofun, fun a' ha => ?_⟩
  obtain rfl := Except.ok.inj ha
  exact ⟨[], t.held, by rw [List.append_nil], rfl, rfl⟩

theorem does_throw (e : ε) : P.Does past (throw e) X :=
  fun _ _ _ db _ _ => ⟨⟨[], rfl⟩, D.le_refl db, fun _ _ => rfl, nofun⟩

/-- A statement adds its writes. -/
theorem does_exec {s : S α}
    (h : ∀ env db a ws, D.valid db → E.exec s env db = .ok (a, ws) → X.rel a ws db) :
    P.Does past (Prog.exec s) X := by
  intro t ts trace db hv hok
  refine P.wp_exec_tx (fun e db' hs => ⟨⟨[_], rfl⟩, hs.le, fun _ _ => rfl, nofun⟩)
    fun env a ws db' hs hx => ⟨⟨[_], rfl⟩, hs.le, nofun, fun a' ha => ?_⟩
  obtain rfl := Except.ok.inj ha
  exact ⟨ws, _, rfl, h env _ a ws (hs.stack.valid_view hs.valid) hx⟩

/-- The same, of what every state of the store satisfies and commits keep. -/
theorem does_exec_knowing {A : σ → Prop} {s : S α} (hI : ∀ db, I db → A db)
    (hA : ∀ db db', D.le db db' → A db → A db')
    (h : ∀ env db a ws, D.valid db → A db → E.exec s env db = .ok (a, ws) → X.rel a ws db) :
    P.Does past (Prog.exec s) X := by
  intro t ts trace db hv hok
  refine P.wp_exec_tx (fun e db' hs => ⟨⟨[_], rfl⟩, hs.le, fun _ _ => rfl, nofun⟩)
    fun env a ws db' hs hx => ⟨⟨[_], rfl⟩, hs.le, nofun, fun a' ha => ?_⟩
  obtain rfl := Except.ok.inj ha
  have hview : A (E.view t db') := hA _ _ (D.le_applyAll t.writes db') (hI db' hs.inv)
  exact ⟨ws, _, rfl, h env _ a ws (hs.stack.valid_view hs.valid) hview hx⟩

theorem does_bind {p : Prog S ε α} {f : α → Prog S ε β} {Y : α → Effect D β} (hp : P.Does past p X)
    (hf : ∀ a, P.Does past (f a) (Y a)) : P.Does past (p >>= f) (X.bind Y) := by
  intro t ts events₀ db hv hok
  rw [P.wp_bind]
  refine P.wp_mono (fun r c db₁ hr => ?_) (P.wp_stackOk hv hok (hp t ts events₀ db hv hok))
  obtain ⟨hr, hv₁, hok₁⟩ := hr
  cases r with
  | error e => exact ⟨hr.trace, hr.le, fun _ _ => hr.error e rfl, nofun⟩
  | ok a =>
      obtain ⟨stack, trace₁⟩ := c
      obtain ⟨events, he⟩ := hr.trace
      obtain rfl : trace₁ = (events ++ events₀) ++ past := by
        rw [List.append_assoc]
        exact he
      obtain ⟨ws₁, held₁, rfl, hx⟩ := hr.ok a rfl
      refine P.wp_mono (fun r c db₂ h => ?_)
        (P.wp_stackOk hv₁ hok₁ (hf a ⟨t.writes ++ ws₁, held₁⟩ ts (events ++ events₀) db₁ hv₁ hok₁))
      obtain ⟨h, -, hok₂⟩ := h
      obtain ⟨events₂, he₂⟩ := h.trace
      refine ⟨⟨events₂ ++ events, by rw [he₂]; simp⟩, D.le_trans hr.le h.le,
        h.error, fun b hb => ?_⟩
      obtain ⟨ws₂, held₂, hc, hy⟩ := h.ok b hb
      rw [hc] at hok₂
      -- what the first program added still holds of the view at the end
      have hfit₁ := D.fitsAll_append.mp (hok₁.fits _ (.head _))
      have hfit₂ := D.fitsAll_append.mp (D.fitsAll_append.mp (hok₂.fits _ (.head _))).1
      have hx₂ := X.stable hfit₁.2 hfit₂.2 (D.applyAll_le hfit₁.1 hfit₂.1 h.le) hx
      refine ⟨ws₁ ++ ws₂, held₂, by rw [hc, List.append_assoc], a, ws₁, ws₂, rfl, hx₂, ?_⟩
      rw [← E.view_append t ws₁ held₁]
      exact hy

theorem does_map {Y : Effect D β} {f : α → β} {p : Prog S ε α} (hp : P.Does past p X)
    (hXY : ∀ a ws db, X.rel a ws db → Y.rel (f a) ws db) :
    P.Does past (p >>= fun a => Pure.pure (f a)) Y := by
  refine does_weaken (does_bind hp fun a => does_pure (f a)) ?_
  rintro b ws db ⟨a, ws₁, ws₂, rfl, hx, rfl, rfl⟩
  rw [List.append_nil]
  exact hXY a ws₁ db hx

/-- A transaction whose body adds `X` commits `X`, or leaves nothing behind. -/
theorem wp_transaction_of_does {body : Prog S ε α} {Q : Post S σ ω ℓ ε α} {c : Local S ω ℓ ε}
    {db : σ} (h : P.Does c.trace body X)
    (hthrow : ∀ e c' db', c'.stack = c.stack → Q (.error e) c' db')
    (hcommit : ∀ a t c' db', c'.stack = t :: c.stack → (∃ events, c'.trace = events ++ c.trace) →
      D.le db db' → P.Sees c' db' db' → D.fitsAll t.writes db' → X.rel a t.writes db' →
      P.Keeps c' db' (E.view t db') ∧
        Q (.ok a) ⟨c.stack, .commit (.ok ()) :: c'.trace⟩ (E.view t db')) :
    P.wp (Prog.transaction body) Q c db := by
  refine P.wp_transaction fun db₁ hs₁ => ?_
  refine P.wp_mono (fun r c' db₂ hr => ?_) (P.wp_stackOk hs₁.valid hs₁.stack.push
    (h {} c.stack [.begin] db₁ hs₁.valid hs₁.stack.push))
  obtain ⟨hr, hv₂, hok₂⟩ := hr
  cases r with
  | error e => exact fun db₃ _ => hthrow e _ _ (hr.error e rfl)
  | ok a =>
      obtain ⟨ws, held, hc, hx⟩ := hr.ok a rfl
      obtain ⟨events, he⟩ := hr.trace
      refine ⟨_, _, hc, fun db₃ hs₃ => ?_⟩
      have hok₃ := hs₃.stack
      rw [hc] at hok₂ hok₃
      have hfit₂ : D.fitsAll ([] ++ ws) db₂ := hok₂.fits _ (.head _)
      have hfit₃ : D.fitsAll ([] ++ ws) db₃ := hok₃.fits _ (.head _)
      have hx₃ : X.rel a ([] ++ ws) db₃ := X.stable hfit₂ hfit₃ hs₃.le hx
      obtain ⟨hkeep, hq⟩ := hcommit a _ c' db₃ hc ⟨events ++ [.begin], by rw [he]; simp⟩
        (D.le_trans hs₁.le (D.le_trans hr.le hs₃.le)) (.refl P hs₃.valid hs₃.inv hs₃.stack) hfit₃ hx₃
      exact ⟨hkeep, hq, fun _ => hthrow _ _ _ rfl⟩

/-- A transaction whose body adds `X`, runs a program that leaves it alone, such
as one with a transaction of its own, and then adds `Y`.  `K` is known of the
database until the middle program starts, and `R` from its end on. -/
theorem wp_transaction_of_middle {p : Prog S ε α} {m : α → Prog S ε β}
    {q : α → β → Prog S ε γ} {Q : Post S σ ω ℓ ε γ} {Y : α → β → Effect D γ} {K : σ → Prop}
    {R : α → Except ε β → Local S ω ℓ ε → σ → Prop} {c : Local S ω ℓ ε} {db : σ}
    (hp : P.DoesWith K c.trace p X) (honly : ∀ a, Only anyStmt (m a) 0)
    (hq : ∀ a b c₁, (∃ events, c₁.trace = events ++ c.trace) →
      P.DoesWith (R a (.ok b) c₁) c₁.trace (q a b) (Y a b))
    (hK : ∀ c' db₁ db₂, (∃ events, c'.trace = events ++ c.trace) → P.Sees c' db₁ db₂ → K db₁ → K db₂)
    (hk : K db)
    (hm : ∀ a t c₁ db₁, c₁.stack = t :: c.stack → (∃ events, c₁.trace = events ++ c.trace) →
      D.valid db₁ → D.StackOk c₁.stack db₁ → X.rel a t.writes db₁ → K db₁ →
      P.wp (m a) (fun r c' db' => (∀ b, r = .ok b → c'.stack = c₁.stack) ∧ R a r c' db') c₁ db₁)
    (hR : ∀ a r c₁ c' db₁ db₂, (∃ events, c₁.trace = events ++ c.trace) →
      (∃ events, c'.trace = events ++ c₁.trace) → P.Sees c' db₁ db₂ → R a r c₁ db₁ → R a r c₁ db₂)
    (hthrow : ∀ e c' db', c'.stack = c.stack →
      (K db' ∨ ∃ a r c₁, (∃ events, c'.trace = events ++ c₁.trace) ∧ R a r c₁ db') →
      Q (.error e) c' db')
    (hcommit : ∀ a b g t c₁ c' db' ws₁ ws₂, c'.stack = t :: c.stack →
      (∃ events, c₁.trace = events ++ c.trace) → (∃ events, c'.trace = events ++ c₁.trace) →
      D.le db db' → P.Sees c' db' db' → D.fitsAll t.writes db' → t.writes = ws₁ ++ ws₂ →
      X.rel a ws₁ db' → (Y a b).rel g ws₂ (E.applyAll ws₁ db') → R a (.ok b) c₁ db' →
      P.Keeps c' db' (E.view t db') ∧
        Q (.ok g) ⟨c.stack, .commit (.ok ()) :: c'.trace⟩ (E.view t db')) :
    P.wp (Prog.transaction (p >>= fun a => m a >>= q a)) Q c db := by
  refine P.wp_transaction fun db₁ hs₁ => ?_
  have hk₁ := hK _ _ _ ⟨[], rfl⟩ hs₁ hk
  rw [P.wp_bind]
  -- the first program
  refine P.wp_mono (fun r c₂ db₂ hr => ?_) (P.wp_stackOk hs₁.valid hs₁.stack.push
    (hp {} c.stack [.begin] db₁ hs₁.valid hs₁.stack.push hk₁))
  obtain ⟨⟨hr, hknown⟩, hv₂, hok₂⟩ := hr
  obtain ⟨events₂, he₂⟩ := hr.trace
  have hpast₂ : ∃ events, c₂.trace = events ++ c.trace := ⟨events₂ ++ [.begin], by rw [he₂]; simp⟩
  cases r with
  | error e =>
      refine fun db₃ hs₃ => hthrow e _ _ (hr.error e rfl) (.inl (hK c₂ _ _ hpast₂ hs₃ hknown))
  | ok a =>
      obtain ⟨ws₁, held₁, hc₂, hx⟩ := hr.ok a rfl
      -- the program in the middle
      rw [Protocol.bindPost_ok, P.wp_bind]
      refine P.wp_mono (fun r c₃ db₃ hr₃ => ?_) (P.wp_stackOk hv₂ hok₂
        (P.wp_frame (honly a) (hm a _ c₂ db₂ hc₂ hpast₂ hv₂ hok₂ hx hknown)))
      obtain ⟨⟨⟨hsame, hr₃⟩, hframe⟩, hv₃, hok₃⟩ := hr₃
      have hpast₃ : ∃ events, c₃.trace = events ++ c.trace := by
        obtain ⟨events, he⟩ := hpast₂
        obtain ⟨events', he'⟩ := hframe.trace
        exact ⟨events' ++ events, by rw [he', he, List.append_assoc]⟩
      cases r with
      | error e =>
          refine fun db₄ hs₄ => hthrow e _ _ ?_ (.inr ⟨a, _, c₃, ⟨[_], rfl⟩,
            hR _ _ _ _ _ _ hpast₃ ⟨[], rfl⟩ hs₄ hr₃⟩)
          have htail := hframe.grows.tail_eq
          rw [hc₂] at htail
          exact htail
      | ok b =>
          obtain ⟨stack₃, trace₃⟩ := c₃
          obtain rfl : stack₃ = ⟨[] ++ ws₁, held₁⟩ :: c.stack := (hsame b rfl).trans hc₂
          -- the last program
          rw [Protocol.bindPost_ok]
          refine P.wp_mono (fun r c₄ db₄ hr₄ => ?_) (P.wp_stackOk hv₃ hok₃
            (hq a b ⟨_, trace₃⟩ hpast₃ ⟨[] ++ ws₁, held₁⟩ c.stack [] db₃ hv₃ hok₃ hr₃))
          obtain ⟨⟨hr₄, hknown₄⟩, hv₄, hok₄⟩ := hr₄
          have hpast₄ : ∃ events, c₄.trace = events ++ trace₃ := hr₄.trace
          cases r with
          | error e =>
              exact fun db₅ hs₅ => hthrow e _ _ (hr₄.error e rfl)
                (.inr ⟨a, _, ⟨_, trace₃⟩, past_cons _ hpast₄,
                  hR _ _ _ _ _ _ hpast₃ hpast₄ hs₅ hknown₄⟩)
          | ok g =>
              obtain ⟨ws₂, held₂, hc₄, hy⟩ := hr₄.ok g rfl
              refine ⟨_, _, hc₄, fun db₅ hs₅ => ?_⟩
              have hok₅ := hs₅.stack
              rw [hc₂] at hok₂
              rw [hc₄] at hok₄ hok₅
              -- both effects survive until the commit
              have hfit₂ : D.fitsAll ([] ++ ws₁) db₂ := hok₂.fits _ (.head _)
              have hfit₄ : D.fitsAll (([] ++ ws₁) ++ ws₂) db₄ := hok₄.fits _ (.head _)
              have hfit₅ : D.fitsAll (([] ++ ws₁) ++ ws₂) db₅ := hok₅.fits _ (.head _)
              have hsplit₄ := D.fitsAll_append.mp hfit₄
              have hsplit₅ := D.fitsAll_append.mp hfit₅
              have hle₂ : D.le db₂ db₅ := D.le_trans hframe.le (D.le_trans hr₄.le hs₅.le)
              have hx₅ : X.rel a ws₁ db₅ := X.stable hfit₂ hsplit₅.1 hle₂ hx
              have hy₅ : (Y a b).rel g ws₂ (E.applyAll ws₁ db₅) :=
                (Y a b).stable hsplit₄.2 hsplit₅.2 (D.applyAll_le hsplit₄.1 hsplit₅.1 hs₅.le) hy
              obtain ⟨hkeep, hq₅⟩ := hcommit a b g _ ⟨_, trace₃⟩ c₄ db₅ ws₁ ws₂ hc₄ hpast₃ hpast₄
                (D.le_trans hs₁.le (D.le_trans hr.le hle₂)) (.refl P hs₅.valid hs₅.inv hs₅.stack)
                hfit₅ rfl hx₅ hy₅ (hR _ _ _ _ _ _ hpast₃ hpast₄ hs₅ hknown₄)
              exact ⟨hkeep, hq₅, fun _ => hthrow _ _ _ rfl
                (.inr ⟨a, _, ⟨_, trace₃⟩, past_cons _ hpast₄, hR _ _ _ _ _ _ hpast₃ hpast₄ hs₅ hknown₄⟩)⟩

/-- The same with nothing but `X` to know, and nothing at the end. -/
theorem wp_transaction_of_does_bind {p : Prog S ε α} {f : α → Prog S ε β} {Q : Post S σ ω ℓ ε β}
    {c : Local S ω ℓ ε} {db : σ} (h : P.Does c.trace p X) (hf : ∀ a, Only anyStmt (f a) 0)
    (hrest : ∀ a t c₁ db₁, c₁.stack = t :: c.stack → (∃ events, c₁.trace = events ++ c.trace) →
      D.valid db₁ → D.StackOk c₁.stack db₁ → X.rel a t.writes db₁ →
      P.wp (f a) (fun r c' _ => ∀ b, r = .ok b → c'.stack = c₁.stack) c₁ db₁)
    (hthrow : ∀ e c' db', c'.stack = c.stack → Q (.error e) c' db')
    (hcommit : ∀ a b t c' db', c'.stack = t :: c.stack → (∃ events, c'.trace = events ++ c.trace) →
      D.le db db' → P.Sees c' db' db' → D.fitsAll t.writes db' → X.rel a t.writes db' →
      P.Keeps c' db' (E.view t db') ∧
        Q (.ok b) ⟨c.stack, .commit (.ok ()) :: c'.trace⟩ (E.view t db')) :
    P.wp (Prog.transaction (p >>= f)) Q c db := by
  have hbody : p >>= f = p >>= fun a => f a >>= pure := by simp only [Prog.bind_pure]
  rw [hbody]
  refine P.wp_transaction_of_middle (X := X) (Y := fun _ b => Effect.pure D b) (K := fun _ => True)
    (R := fun _ _ _ _ => True) (doesWith_true h) hf (fun _ b _ _ => doesWith_true (does_pure b))
    (fun _ _ _ _ _ _ => trivial) trivial (fun a t c₁ db₁ hc hpast hv hok hx _ => ?_)
    (fun _ _ _ _ _ _ _ _ _ _ => trivial) (fun e c' db' hc _ => hthrow e c' db' hc) ?_
  · exact P.wp_mono (fun _ _ _ hr => ⟨hr, trivial⟩) (hrest a t c₁ db₁ hc hpast hv hok hx)
  · intro a b g t c₁ c' db' ws₁ ws₂ hc hpast₁ hpast hle hs hfits hws hx hy _
    obtain ⟨rfl, rfl⟩ := hy
    obtain ⟨events₁, he₁⟩ := hpast₁
    obtain ⟨events, he⟩ := hpast
    rw [List.append_nil] at hws
    exact hcommit a g t c' db' hc ⟨events ++ events₁, by rw [he, he₁, List.append_assoc]⟩ hle hs hfits
      (hws ▸ hx)

/-- The same for a client that runs alone: what the middle program makes of the
database is told by `M`, and the transaction is committed on top of that. -/
theorem wp_transaction_alone {p : Prog S ε α} {m : α → Prog S ε β} {q : α → β → Prog S ε γ}
    {Y : α → β → Effect D γ} {M : α → Except ε β → List (Event S ε) → σ → Prop}
    {c : Local S ω ℓ ε} {db : σ} (hp : ∀ K, ((solo D fun _ => True).knowing K).Does c.trace p X)
    (honly : ∀ a, Only anyStmt (m a) 0)
    (hm : ∀ a c₁, (solo D fun _ => True).wp (m a) (fun r c' db' =>
      (∀ b, r = .ok b → c'.stack = c₁.stack) ∧ M a r c'.trace db') c₁ db)
    (hq : ∀ K a b past, ((solo D fun _ => True).knowing K).Does past (q a b) (Y a b)) :
    (solo D fun _ => True).wp (Prog.transaction (p >>= fun a => m a >>= q a)) (fun r c' db' =>
      ∀ g, r = .ok g → ∃ a b past db₁ ws₁ ws₂, (∃ events, c'.trace = events ++ past) ∧
        M a (.ok b) past db₁ ∧ D.valid db₁ ∧ D.fitsAll (ws₁ ++ ws₂) db₁ ∧ X.rel a ws₁ db₁ ∧
        (Y a b).rel g ws₂ (E.applyAll ws₁ db₁) ∧ db' = E.applyAll (ws₁ ++ ws₂) db₁) c db := by
  have hK : ∀ c' db₁ db₂, (∃ events, c'.trace = events ++ c.trace) →
      (solo D fun _ => True).Sees c' db₁ db₂ → db₁ = db → db₂ = db := fun _ _ _ _ hs hk => hs.env.trans hk
  refine wp_transaction_of_middle (X := X) (Y := Y) (K := fun db' => db' = db) (R := fun a r c₁ db' => M a r c₁.trace db')
    ?_ honly (fun a b c₁ _ => ?_) hK rfl (fun a t c₁ db₁ _ _ _ _ _ hk => ?_)
    (fun _ _ _ _ _ _ _ _ hs hr => hs.env ▸ hr) (fun _ _ _ _ _ => nofun)
    fun a b g t c₁ c' db' ws₁ ws₂ _ _ hpast _ hs hfits hws hx hy hr => ⟨⟨trivial, trivial⟩, ?_⟩
  · exact doesWith_of_knowing (hp _) hK
  · exact doesWith_of_knowing (hq _ a b c₁.trace) fun _ _ _ _ hs hr => hs.env ▸ hr
  · subst hk
    exact hm a c₁
  · intro g' hg
    obtain rfl := Except.ok.inj hg
    rw [hws] at hfits
    refine ⟨a, b, c₁.trace, db', ws₁, ws₂, past_cons _ hpast, hr, hs.valid, hfits, hx, hy, ?_⟩
    rw [Engine.view, hws]

/-- A transaction of its own, run alone: it makes the writes of its body, or
none. -/
theorem wp_transaction_of_does_alone {body : Prog S ε α} {c : Local S ω ℓ ε} {db : σ}
    (h : ∀ K, ((solo D fun _ => True).knowing K).Does c.trace body X) :
    (solo D fun _ => True).wp (Prog.transaction body) (fun r _ db' =>
      (∀ e, r = .error e → db' = db) ∧
        ∀ a, r = .ok a → ∃ ws, D.fitsAll ws db ∧ X.rel a ws db ∧ db' = E.applyAll ws db) c db := by
  have hK : ∀ c' db₁ db₂, (∃ events, c'.trace = events ++ c.trace) →
      (solo D fun _ => True).Sees c' db₁ db₂ → db₁ = db → db₂ = db := fun _ _ _ _ hs hk => hs.env.trans hk
  have hbody : body = body >>= fun a => (pure () : Prog S ε Unit) >>= fun _ => pure a :=
    (Prog.bind_pure body).symm
  rw [hbody]
  refine wp_transaction_of_middle (X := X) (Y := fun a _ => Effect.pure D a) (K := fun db' => db' = db)
    (R := fun _ _ _ db' => db' = db) ?_ (fun _ => only_pure ())
    (fun a _ _ _ => doesWith_of_knowing (does_pure a) fun _ _ _ _ hs hk => hs.env.trans hk) hK rfl (fun _ _ _ _ _ _ _ _ _ hk => ⟨fun _ _ => rfl, hk⟩) ?_ ?_ ?_
  · exact doesWith_of_knowing (h _) hK
  · exact fun _ _ _ _ _ _ _ _ hs hr => hs.env.trans hr
  · rintro e c' db' - (hk | ⟨_, _, _, -, hk⟩)
    · exact ⟨fun _ _ => hk, nofun⟩
    · exact ⟨fun _ _ => hk, nofun⟩
  · intro a _ g t c₁ c' db' ws₁ ws₂ hc _ _ _ hs hfits hws hx hy hr
    obtain ⟨rfl, rfl⟩ := hy
    rw [List.append_nil] at hws
    subst hr
    rw [hws] at hfits
    refine ⟨⟨trivial, trivial⟩, nofun, fun g' hg => ⟨ws₁, hfits, ?_, ?_⟩⟩
    · exact Except.ok.inj hg ▸ hx
    · rw [Engine.view, hws]

/-- A program whose writes do not matter to the protocol adds such writes. -/
theorem does_only {N : (β : Type) → S β → Prop} {W : ω → Prop}
    (hN : ∀ β (s : S β), N β s → ∀ env db b ws, E.exec s env db = .ok (b, ws) → ∀ w ∈ ws, W w)
    (hW : ∀ c db ws, (∃ events, c.trace = events ++ past) → (∀ w ∈ ws, W w) → D.valid db →
      I db → D.fitsAll ws db → P.Keeps c db (E.applyAll ws db))
    {p : Prog S ε α} (hp : Only N p 0) : P.Does past p (Effect.writes D W) := by
  intro t ts events db hv hok
  refine P.wp_mono (fun r c db' hr => ?_) (P.wp_only hN (fun c db ws hpast => ?_) hp)
  · obtain ⟨hgrow, hframe⟩ := hr
    exact ⟨hframe.trace, hframe.le, fun _ _ => hgrow.tail_eq, fun a _ => by
      obtain ⟨ws, held, hc, hw⟩ := hgrow
      exact ⟨ws, _, hc, hw⟩⟩
  · obtain ⟨events', he⟩ := hpast
    exact hW c db ws ⟨events' ++ events, by rw [he, List.append_assoc]⟩

end Protocol

end Transact
