import PaymentBilling.Transact.Rely

/-!
# Transact.Scope

Programs that close exactly the transactions they open, and what follows from
it for the transactions around them.

`Only N p d` says that `p` leaves `d` transactions fewer open than it finds,
never touches the ones further out, and runs only statements in `N`.  Such a
program extends the innermost of the outer transactions at most (`Grows`), and
keeps all that they have locked (`wp_frame`).  When no statement of it writes
anything that the protocol is about, nothing else has to be proved
(`wp_only`).
-/

set_option linter.unusedSectionVars false

namespace Transact

variable {S : Type → Type} {σ ω ℓ ε η α β ι : Type} [DecidableEq ℓ] {E : Engine S σ ω ℓ ε η}

/-! ## Brackets -/

/-- `p` closes `d` more transactions than it opens, and all its statements
satisfy `N`. -/
def Only (N : (β : Type) → S β → Prop) : Prog S ε α → Nat → Prop
  | .ret _, d => d = 0
  | .stmt s k, d => N _ s ∧ ∀ r, Only N (k r) d
  | .begin k, d => Only N k (d + 1)
  | .commit _, 0 => False
  | .commit k, d + 1 => ∀ r, Only N (k r) d
  | .rollback _, 0 => False
  | .rollback k, d + 1 => Only N k d

/-- Any statement. -/
def anyStmt (β : Type) (_ : S β) : Prop := True

variable {N N' : (β : Type) → S β → Prop}

theorem only_andThen {p : Prog S ε α} {f : Except ε α → Prog S ε β} {d e : Nat}
    (hp : Only N p d) (hf : ∀ r, Only N (f r) e) : Only N (p.andThen f) (d + e) := by
  induction p generalizing d with
  | ret r =>
      have hd : d = 0 := hp
      rw [hd, Nat.zero_add]
      exact hf r
  | stmt s k ih => exact ⟨hp.1, fun r => ih r (hp.2 r)⟩
  | begin k ih =>
      have h := ih hp
      rwa [Nat.add_right_comm] at h
  | commit k ih =>
      cases d with
      | zero => exact hp.elim
      | succ d =>
          rw [Nat.add_right_comm]
          exact fun r => ih r (hp r)
  | rollback k ih =>
      cases d with
      | zero => exact hp.elim
      | succ d =>
          rw [Nat.add_right_comm]
          exact ih hp

theorem only_ret (r : Except ε α) : Only N (.ret r) 0 := rfl

theorem only_pure (a : α) : Only N (pure a : Prog S ε α) 0 := rfl

theorem only_throw (e : ε) : Only N (throw e : Prog S ε α) 0 := rfl

theorem only_exec {s : S α} (h : N _ s) : Only N (Prog.exec s : Prog S ε α) 0 := ⟨h, fun _ => rfl⟩

theorem only_bind {p : Prog S ε α} {f : α → Prog S ε β} (hp : Only N p 0)
    (hf : ∀ a, Only N (f a) 0) : Only N (p >>= f) 0 := by
  refine only_andThen (e := 0) hp fun r => ?_
  cases r with
  | ok a => exact hf a
  | error e => rfl

theorem only_tryCatch {p : Prog S ε α} {h : ε → Prog S ε α} (hp : Only N p 0)
    (hh : ∀ e, Only N (h e) 0) : Only N (tryCatch p h) 0 := by
  refine only_andThen (e := 0) hp fun r => ?_
  cases r with
  | ok a => rfl
  | error e => exact hh e

theorem only_transaction {p : Prog S ε α} (hp : Only N p 0) :
    Only N (Prog.transaction p) 0 := by
  refine only_andThen (d := 0) (e := 1) hp fun r => ?_
  cases r with
  | ok a => exact fun r => by cases r <;> rfl
  | error e => rfl

theorem Only.mono (hN : ∀ β (s : S β), N β s → N' β s) {p : Prog S ε α} {d : Nat} (hp : Only N p d) : Only N' p d := by
  induction p generalizing d with
  | ret r => exact hp
  | stmt s k ih => exact ⟨hN _ s hp.1, fun r => ih r (hp.2 r)⟩
  | begin k ih => exact ih hp
  | commit k ih =>
      cases d with
      | zero => exact hp.elim
      | succ d => exact fun r => ih r (hp r)
  | rollback k ih =>
      cases d with
      | zero => exact hp.elim
      | succ d => exact ih hp

/-! ## Growth of the outer transactions -/

/-- The stack `ts'` is `ts`, but for more writes in `W` and more locks of its
innermost transaction. -/
def Grows (W : ω → Prop) : List (Tx ω ℓ) → List (Tx ω ℓ) → Prop
  | [], ts' => ts' = []
  | t :: ts, ts' =>
    ∃ ws held, ts' = ⟨t.writes ++ ws, t.held ++ held⟩ :: ts ∧ ∀ w ∈ ws, W w

variable {W : ω → Prop} {ts ts' ts'' : List (Tx ω ℓ)}

theorem Grows.refl (W : ω → Prop) (ts : List (Tx ω ℓ)) : Grows W ts ts := by
  cases ts with
  | nil => rfl
  | cons t ts => exact ⟨[], [], by simp, by simp⟩

theorem Grows.trans (h : Grows W ts ts') (h' : Grows W ts' ts'') : Grows W ts ts'' := by
  cases ts with
  | nil =>
      have he : ts' = [] := h
      subst he
      exact h'
  | cons t ts =>
      obtain ⟨ws, held, rfl, hw⟩ := h
      obtain ⟨ws', held', rfl, hw'⟩ := h'
      refine ⟨ws ++ ws', held ++ held', by simp, fun w hin => ?_⟩
      exact (List.mem_append.mp hin).elim (hw w) (hw' w)

theorem Grows.ne_nil (h : Grows W ts ts') (hts : ts ≠ []) : ts' ≠ [] := by
  cases ts with
  | nil => exact (hts rfl).elim
  | cons t ts =>
      obtain ⟨ws, held, rfl, -⟩ := h
      exact List.cons_ne_nil _ _

theorem Grows.tail_eq (h : Grows W ts ts') : ts'.tail = ts.tail := by
  cases ts with
  | nil =>
      have he : ts' = [] := h
      rw [he]
  | cons t ts =>
      obtain ⟨ws, held, rfl, -⟩ := h
      rfl

theorem Grows.heldBy_subset (h : Grows W ts ts') {l : ℓ} (hl : l ∈ heldBy ts) :
    l ∈ heldBy ts' := by
  cases ts with
  | nil => cases hl
  | cons t ts =>
      obtain ⟨ws, held, rfl, -⟩ := h
      simp only [heldBy_cons, List.mem_append] at hl ⊢
      exact hl.elim (fun h => .inl (.inl h)) .inr

theorem Engine.run_grows (E : Engine S σ ω ℓ ε η) (s : S β) (ch : Choice η)
    (stack : List (Tx ω ℓ)) (db : σ) :
    Grows (fun _ => True) stack (E.run s ch stack db).stack := by
  cases ch with
  | fail m => exact .refl _ _
  | go env =>
      cases stack with
      | nil => cases hx : E.exec s env db <;> simp only [run, hx] <;> exact .refl _ _
      | cons t ts =>
          cases hx : E.exec s env (E.view t db) with
          | error e =>
              simp only [run, hx]
              exact .refl _ _
          | ok r =>
              simp only [run, hx]
              split
              · exact .refl _ _
              · exact ⟨r.2, _, rfl, fun _ _ => trivial⟩

namespace Protocol

variable {D : Discipline E} {I : σ → Prop} (P : Protocol D I)

/-! ## The frame rule -/

/-- What a program that starts at `c` and `db` leaves of the transactions
around it: they are extended at most, what they have locked is unchanged, and
the past stays the past. -/
structure Framed (c : Local S ω ℓ ε) (db : σ) (c' : Local S ω ℓ ε) (db' : σ) : Prop where
  grows : Grows (fun _ => True) c.stack c'.stack
  trace : ∃ events, c'.trace = events ++ c.trace
  same : ∀ l ∈ heldBy c.stack, D.same l db db'
  le : D.le db db'

theorem Framed.refl (c : Local S ω ℓ ε) (db : σ) : Framed (D := D) c db c db :=
  ⟨.refl _ _, ⟨[], rfl⟩, fun l _ => D.same_refl l db, D.le_refl db⟩

theorem Framed.trans {c₁ c₂ c₃ : Local S ω ℓ ε} {db₁ db₂ db₃ : σ}
    (h : Framed (D := D) c₁ db₁ c₂ db₂) (h' : Framed (D := D) c₂ db₂ c₃ db₃) :
    Framed (D := D) c₁ db₁ c₃ db₃ where
  grows := h.grows.trans h'.grows
  trace := by
    obtain ⟨e, he⟩ := h.trace
    obtain ⟨e', he'⟩ := h'.trace
    exact ⟨e' ++ e, by rw [he', he, List.append_assoc]⟩
  same l hl := D.same_trans (h.same l hl) (h'.same l (h.grows.heldBy_subset hl))
  le := D.le_trans h.le h'.le

theorem Sees.framed {P : Protocol D I} {c : Local S ω ℓ ε} {db db' : σ} (h : P.Sees c db db') :
    Framed (D := D) c db c db' :=
  ⟨.refl _ _, ⟨[], rfl⟩, h.same, h.le⟩

/-- The bookkeeping of `wp_frame`: `inner` are the transactions that the
program has opened itself. -/
structure Inside (c₀ : Local S ω ℓ ε) (db₀ : σ) (inner : List (Tx ω ℓ)) (c : Local S ω ℓ ε)
    (db : σ) : Prop where
  stack : ∃ ts, c.stack = inner ++ ts ∧ Grows (fun _ => True) c₀.stack ts
  trace : ∃ events, c.trace = events ++ c₀.trace
  same : ∀ l ∈ heldBy c₀.stack, D.same l db₀ db
  le : D.le db₀ db

theorem Inside.sees {P : Protocol D I} {c₀ c : Local S ω ℓ ε} {db₀ db db' : σ}
    {inner : List (Tx ω ℓ)} (h : Inside (D := D) c₀ db₀ inner c db) (hs : P.Sees c db db') :
    Inside (D := D) c₀ db₀ inner c db' where
  stack := h.stack
  trace := h.trace
  same l hl := by
    obtain ⟨ts, hc, hts⟩ := h.stack
    refine D.same_trans (h.same l hl) (hs.same l ?_)
    rw [hc, heldBy, List.flatMap_append]
    exact List.mem_append_right _ (hts.heldBy_subset hl)
  le := D.le_trans h.le hs.le

theorem Inside.nil_of_nil {c₀ c : Local S ω ℓ ε} {db₀ db : σ} {inner : List (Tx ω ℓ)}
    (h : Inside (D := D) c₀ db₀ inner c db) (hc : c.stack = []) : c₀.stack = [] := by
  obtain ⟨ts, hts, hgrow⟩ := h.stack
  rw [hc] at hts
  obtain ⟨-, rfl⟩ := List.append_eq_nil_iff.mp hts.symm
  cases hs : c₀.stack with
  | nil => rfl
  | cons t rest =>
      rw [hs] at hgrow
      obtain ⟨ws, held, he, -⟩ := hgrow
      cases he

/-- A statement extends the innermost transaction, its own or an outer one. -/
theorem Inside.run {c₀ c : Local S ω ℓ ε} {db₀ db : σ} {inner : List (Tx ω ℓ)}
    (h : Inside (D := D) c₀ db₀ inner c db) (s : S β) (ch : Choice η) :
    ∃ inner', inner'.length = inner.length ∧
      Inside (D := D) c₀ db₀ inner'
        ⟨(E.run s ch c.stack db).stack, .stmt s (E.run s ch c.stack db).answer :: c.trace⟩
        (E.run s ch c.stack db).db := by
  have hgrow := E.run_grows s ch c.stack db
  obtain ⟨events, he⟩ := h.trace
  have htrace : ∃ events', (Event.stmt s (E.run s ch c.stack db).answer :: c.trace) =
      events' ++ c₀.trace := ⟨_ :: events, by rw [he]; rfl⟩
  have hsame : ∀ l ∈ heldBy c₀.stack, D.same l db₀ (E.run s ch c.stack db).db := by
    intro l hl
    cases hc : c.stack with
    | nil => rw [h.nil_of_nil hc] at hl; cases hl
    | cons t ts => rw [E.run_db_cons]; exact h.same l hl
  have hle : D.le db₀ (E.run s ch c.stack db).db := by
    refine D.le_trans h.le ?_
    cases hc : c.stack with
    | nil => exact D.le_run_nil s ch db
    | cons t ts => rw [E.run_db_cons]; exact D.le_refl _
  obtain ⟨ts, hc, hts⟩ := h.stack
  cases inner with
  | nil =>
      rw [List.nil_append] at hc
      rw [hc] at hgrow htrace hsame hle ⊢
      exact ⟨[], rfl, ⟨_, rfl, hts.trans hgrow⟩, htrace, hsame, hle⟩
  | cons t inner =>
      rw [hc] at hgrow htrace hsame hle ⊢
      obtain ⟨ws, held, hs, -⟩ := hgrow
      exact ⟨⟨t.writes ++ ws, t.held ++ held⟩ :: inner, rfl, ⟨ts, hs, hts⟩, htrace, hsame, hle⟩

theorem wp_frame_aux {p : Prog S ε α} {Q : Post S σ ω ℓ ε α} {c₀ c : Local S ω ℓ ε} {db₀ db : σ}
    (inner : List (Tx ω ℓ)) (hp : Only anyStmt p inner.length)
    (hin : Inside (D := D) c₀ db₀ inner c db) (h : P.wp p Q c db) :
    P.wp p (fun r c' db' => Q r c' db' ∧ Framed (D := D) c₀ db₀ c' db') c db := by
  induction p generalizing c db inner with
  | ret r =>
      obtain rfl : inner = [] := List.length_eq_zero_iff.mp hp
      obtain ⟨ts, hc, hts⟩ := hin.stack
      exact ⟨h, ⟨by rw [hc]; exact hts, hin.trace, hin.same, hin.le⟩⟩
  | stmt s k ih =>
      intro db' hs ch
      obtain ⟨inner', hlen, hin'⟩ := (hin.sees hs).run s ch
      exact ⟨(h db' hs ch).1, ih _ inner' (hlen ▸ hp.2 _) hin' (h db' hs ch).2⟩
  | begin k ih =>
      intro db' hs
      obtain ⟨ts, hc, hts⟩ := (hin.sees hs).stack
      obtain ⟨events, he⟩ := hin.trace
      have hin' : Inside (D := D) c₀ db₀ ({} :: inner) ⟨{} :: c.stack, .begin :: c.trace⟩ db' :=
        ⟨⟨ts, by rw [hc]; rfl, hts⟩, ⟨_ :: events, by rw [he]; rfl⟩, (hin.sees hs).same,
          (hin.sees hs).le⟩
      exact ih ({} :: inner) hp hin' (h db' hs)
  | commit k ih =>
      intro db' hs ch
      cases inner with
      | nil => exact hp.elim
      | cons t inner =>
          refine ⟨(h db' hs ch).1, ih _ inner (hp _) ?_ (h db' hs ch).2⟩
          have hin' := hin.sees hs
          obtain ⟨ts, hc, hts⟩ := hin'.stack
          obtain ⟨events, he⟩ := hin.trace
          have hstack := hs.stack
          rw [List.cons_append] at hc
          rw [hc] at hstack ⊢
          cases ch with
          | fail m => exact ⟨⟨ts, rfl, hts⟩, ⟨_ :: events, by rw [he]; rfl⟩, hin'.same, hin'.le⟩
          | go env =>
              refine ⟨⟨ts, rfl, hts⟩, ⟨_ :: events, by rw [he]; rfl⟩, fun l hl => ?_,
                D.le_trans hin'.le (D.le_applyAll _ _)⟩
              refine D.same_trans (hin'.same l hl) (hstack.same_view_outer l ?_)
              rw [heldBy, List.flatMap_append]
              exact List.mem_append_right _ (hts.heldBy_subset hl)
  | rollback k ih =>
      intro db' hs
      cases inner with
      | nil => exact hp.elim
      | cons t inner =>
          have hin' := hin.sees hs
          obtain ⟨ts, hc, hts⟩ := hin'.stack
          obtain ⟨events, he⟩ := hin.trace
          refine ih inner hp ⟨⟨ts, ?_, hts⟩, ⟨_ :: events, by rw [he]; rfl⟩, hin'.same, hin'.le⟩ (h db' hs)
          rw [hc]
          rfl

/-- A program that closes what it opens keeps what its caller has locked. -/
theorem wp_frame {p : Prog S ε α} {Q : Post S σ ω ℓ ε α} {c : Local S ω ℓ ε} {db : σ}
    (hp : Only anyStmt p 0) (h : P.wp p Q c db) :
    P.wp p (fun r c' db' => Q r c' db' ∧ Framed (D := D) c db c' db') c db :=
  have hin : Inside (D := D) c db [] c db :=
    ⟨⟨c.stack, rfl, .refl _ _⟩, ⟨[], rfl⟩, fun l _ => D.same_refl l db, D.le_refl db⟩
  P.wp_frame_aux [] hp hin h

/-! ## Programs whose writes do not matter -/

theorem past_cons {past trace : List (Event S ε)} (e : Event S ε)
    (h : ∃ events, trace = events ++ past) : ∃ events, e :: trace = events ++ past := by
  obtain ⟨events, rfl⟩ := h
  exact ⟨e :: events, rfl⟩

theorem wp_only_aux {W : ω → Prop} {past : List (Event S ε)}
    (hN : ∀ β (s : S β), N β s → ∀ env db b ws, E.exec s env db = .ok (b, ws) → ∀ w ∈ ws, W w)
    (hW : ∀ c db ws, (∃ events, c.trace = events ++ past) → (∀ w ∈ ws, W w) → D.valid db → I db →
      D.fitsAll ws db → P.Keeps c db (E.applyAll ws db))
    {p : Prog S ε α} {c : Local S ω ℓ ε} {db : σ} (inner : List (Tx ω ℓ)) {ts₀ ts : List (Tx ω ℓ)}
    (hp : Only N p inner.length) (hpast : ∃ events, c.trace = events ++ past)
    (hc : c.stack = inner ++ ts) (hts : Grows W ts₀ ts)
    (hinner : ∀ t ∈ inner, ∀ w ∈ t.writes, W w) :
    P.wp p (fun _ c' _ => Grows W ts₀ c'.stack) c db := by
  induction p generalizing c db inner ts with
  | ret r =>
      obtain rfl : inner = [] := List.length_eq_zero_iff.mp hp
      show Grows W ts₀ c.stack
      rw [hc]
      exact hts
  | stmt s k ih =>
      intro db' hs ch
      obtain ⟨hkeep, hgrow⟩ : P.Keeps c db' (E.run s ch c.stack db').db ∧
          Grows W c.stack (E.run s ch c.stack db').stack := by
        cases ch with
        | fail m => exact ⟨P.keeps_refl hs.inv, .refl _ _⟩
        | go env =>
            cases hstk : c.stack with
            | nil =>
                cases hx : E.exec s env db' with
                | error e =>
                    simp only [Engine.run, hx]
                    exact ⟨P.keeps_refl hs.inv, .refl _ _⟩
                | ok r =>
                    simp only [Engine.run, hx]
                    exact ⟨hW _ _ _ hpast (hN _ s hp.1 _ _ _ _ hx) hs.valid hs.inv
                      (D.fitsAll_of_exec hs.valid hx), .refl _ _⟩
            | cons t rest =>
                rw [E.run_db_cons]
                refine ⟨P.keeps_refl hs.inv, ?_⟩
                cases hx : E.exec s env (E.view t db') with
                | error e =>
                    simp only [Engine.run, hx]
                    exact .refl _ _
                | ok r =>
                    simp only [Engine.run, hx]
                    split
                    · exact .refl _ _
                    · exact ⟨r.2, _, rfl, hN _ s hp.1 _ _ _ _ hx⟩
      refine ⟨hkeep, ?_⟩
      cases inner with
      | nil =>
          rw [List.nil_append] at hc
          rw [hc] at hgrow ⊢
          exact ih _ [] (hp.2 _) (past_cons _ hpast) rfl (hts.trans hgrow) (by simp)
      | cons t inner =>
          rw [hc] at hgrow ⊢
          obtain ⟨ws, held, hstk, hws⟩ := hgrow
          refine ih _ (⟨t.writes ++ ws, t.held ++ held⟩ :: inner) (hp.2 _) (past_cons _ hpast)
            hstk hts ?_
          rw [List.forall_mem_cons] at hinner ⊢
          exact ⟨fun w hw => (List.mem_append.mp hw).elim (hinner.1 w) (hws w), hinner.2⟩
  | begin k ih =>
      intro db' hs
      refine ih ({} :: inner) hp (past_cons _ hpast) (by simp [hc]) hts ?_
      rw [List.forall_mem_cons]
      exact ⟨by simp, hinner⟩
  | commit k ih =>
      intro db' hs ch
      cases inner with
      | nil => exact hp.elim
      | cons t inner =>
          have hstack := hs.stack
          rw [List.forall_mem_cons] at hinner
          rw [List.cons_append] at hc
          rw [hc] at hstack ⊢
          refine ⟨?_, ih _ inner (hp _) (past_cons _ hpast) ?_ hts hinner.2⟩
          · cases ch with
            | fail m => exact P.keeps_refl hs.inv
            | go env =>
                exact hW _ _ _ hpast hinner.1 hs.valid hs.inv (hstack.fits t (.head _))
          · cases ch <;> rfl
  | rollback k ih =>
      intro db' hs
      cases inner with
      | nil => exact hp.elim
      | cons t inner =>
          rw [List.forall_mem_cons] at hinner
          exact ih inner hp (past_cons _ hpast) (by rw [hc]; rfl) hts hinner.2

/-- A program whose statements only make writes in `W` satisfies a protocol
that allows any commit of such writes. -/
theorem wp_only {W : ω → Prop} {c : Local S ω ℓ ε}
    (hN : ∀ β (s : S β), N β s → ∀ env db b ws, E.exec s env db = .ok (b, ws) → ∀ w ∈ ws, W w)
    (hW : ∀ c' db ws, (∃ events, c'.trace = events ++ c.trace) → (∀ w ∈ ws, W w) → D.valid db →
      I db → D.fitsAll ws db → P.Keeps c' db (E.applyAll ws db))
    {p : Prog S ε α} {db : σ} (hp : Only N p 0) :
    P.wp p (fun _ c' db' => Grows W c.stack c'.stack ∧ Framed (D := D) c db c' db') c db :=
  P.wp_frame (hp.mono fun _ _ _ => trivial)
    (P.wp_only_aux hN hW [] hp ⟨[], rfl⟩ rfl (.refl _ _) (by simp))

end Protocol

/-! ## Knowledge of a client -/

namespace Protocol

variable {D : Discipline E} {I : σ → Prop} (P : Protocol D I)

/-- The protocol of a client that knows `A` of the database. -/
def knowing (A : σ → Prop) : Protocol D (fun db => I db ∧ A db) where
  env := P.env
  guar := P.guar
  env_refl := P.env_refl
  env_trans := P.env_trans
  guar_refl := P.guar_refl

/-- What the others leave true may be used, as long as the client leaves it
true as well. -/
theorem wp_of_knowing {A : σ → Prop} {past : List (Event S ε)}
    (hA : ∀ c db db', (∃ events, c.trace = events ++ past) → P.Sees c db db' → A db → A db')
    {p : Prog S ε α} {Q : Post S σ ω ℓ ε α} {c : Local S ω ℓ ε} {db : σ}
    (hc : ∃ events, c.trace = events ++ past) (ha : A db)
    (h : (P.knowing A).wp p (fun r c' db' => A db' → Q r c' db') c db) : P.wp p Q c db := by
  have hsees : ∀ {c : Local S ω ℓ ε} {db db' : σ}, (∃ events, c.trace = events ++ past) → A db →
      P.Sees c db db' → (P.knowing A).Sees c db db' := fun hc ha hs =>
    ⟨hs.valid, ⟨hs.inv, hA _ _ _ hc hs ha⟩, hs.stack, hs.same, hs.le, hs.env⟩
  induction p generalizing c db with
  | ret r => exact h ha
  | stmt s k ih =>
      intro db' hs ch
      obtain ⟨⟨⟨hinv, ha'⟩, hguar⟩, hrest⟩ := h db' (hsees hc ha hs) ch
      exact ⟨⟨hinv, hguar⟩, ih _ (past_cons _ hc) ha' hrest⟩
  | begin k ih =>
      intro db' hs
      exact ih (past_cons _ hc) (hA _ _ _ hc hs ha) (h db' (hsees hc ha hs))
  | commit k ih =>
      intro db' hs ch
      obtain ⟨⟨⟨hinv, ha'⟩, hguar⟩, hrest⟩ := h db' (hsees hc ha hs) ch
      exact ⟨⟨hinv, hguar⟩, ih _ (past_cons _ hc) ha' hrest⟩
  | rollback k ih =>
      intro db' hs
      exact ih (past_cons _ hc) (hA _ _ _ hc hs ha) (h db' (hsees hc ha hs))

end Protocol

end Transact
