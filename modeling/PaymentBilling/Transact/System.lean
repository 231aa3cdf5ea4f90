import PaymentBilling.Transact.Engine

/-!
# Transact.System

Clients running programs against one store, interleaved.

A client is what is left of its program, its stack of open transactions and
the trace of what it has done.  The system steps one client at a time, by one
action of its program; a step that needs a lock held by another client is not
possible until that client ends its transaction.  Any number of clients run:
they are indexed by an arbitrary type, and one that has not started is simply
still at the beginning of its program.
-/

set_option linter.unusedSectionVars false

namespace Transact

/-- One action of a client, as the client saw it. -/
inductive Event (S : Type → Type) (ε : Type) : Type 1
  | stmt {β : Type} (s : S β) (answer : Except ε β)
  | begin
  | commit (answer : Except ε Unit)
  | rollback

/-- The action failed: an error, or a commit that did not take place. -/
def Event.Failed {S : Type → Type} {ε : Type} : Event S ε → Prop
  | .stmt _ (.error _) => True
  | .commit (.error _) => True
  | _ => False

instance {S : Type → Type} {ε : Type} (e : Event S ε) : Decidable e.Failed :=
  match e with
  | .stmt _ (.ok _) => .isFalse id
  | .stmt _ (.error _) => .isTrue trivial
  | .begin => .isFalse id
  | .commit (.ok _) => .isFalse id
  | .commit (.error _) => .isTrue trivial
  | .rollback => .isFalse id

/-- The state of a client besides its program: its open transactions,
innermost first, and its past actions, newest first. -/
structure Local (S : Type → Type) (ω ℓ ε : Type) : Type 1 where
  stack : List (Tx ω ℓ) := []
  trace : List (Event S ε) := []

/-- Since it was `c`, a client has seen an action fail. -/
def FailedSince {S : Type → Type} {ω ℓ ε : Type} (c c' : Local S ω ℓ ε) : Prop :=
  ∃ events, c'.trace = events ++ c.trace ∧ ∃ e ∈ events, e.Failed

/-- No action has failed. -/
def Flawless {S : Type → Type} {ε : Type} (trace : List (Event S ε)) : Prop := ∀ e ∈ trace, ¬e.Failed

instance {S : Type → Type} {ε : Type} (trace : List (Event S ε)) : Decidable (Flawless trace) :=
  inferInstanceAs (Decidable (∀ e ∈ trace, ¬e.Failed))

theorem Flawless.of_grows {S : Type → Type} {ε : Type} {trace trace' : List (Event S ε)}
    (h : Flawless trace') (hgrows : ∃ events, trace' = events ++ trace) : Flawless trace := by
  obtain ⟨events, rfl⟩ := hgrows
  exact fun e he => h e (List.mem_append_right _ he)

theorem FailedSince.not_flawless {S : Type → Type} {ω ℓ ε : Type} {c c' : Local S ω ℓ ε}
    (h : FailedSince c c') : ¬Flawless c'.trace := by
  obtain ⟨events, htrace, e, he, hfailed⟩ := h
  intro hflawless
  rw [htrace] at hflawless
  exact hflawless e (List.mem_append_left _ he) hfailed

/-- A client: the rest of its program and its state. -/
structure Client (S : Type → Type) (ω ℓ ε α : Type) : Type 1 where
  prog : Prog S ε α
  loc : Local S ω ℓ ε := {}

variable {S : Type → Type} {σ ω ℓ ε η α β ι : Type} [DecidableEq ℓ]

namespace Engine

variable (E : Engine S σ ω ℓ ε η)

/-- Commit the innermost transaction.  A commit that fails drops it. -/
def commit (ch : Choice η) (stack : List (Tx ω ℓ)) (db : σ) : Outcome σ ω ℓ ε Unit :=
  match ch, stack with
  | .fail message, stack => ⟨.error (E.fault message), stack.tail, db, []⟩
  | .go _, [] => ⟨.ok (), [], db, []⟩
  | .go _, t :: ts => ⟨.ok (), ts, E.view t db, []⟩

/-- One action of a client: what becomes of it and of the database, and the
locks the action needs.  A finished client has none. -/
def next (ch : Choice η) (db : σ) (c : Client S ω ℓ ε α) :
    Option (Client S ω ℓ ε α × σ × List ℓ) :=
  match c.prog with
  | .ret _ => none
  | .stmt s k =>
    let o := E.run s ch c.loc.stack db
    some (⟨k o.answer, ⟨o.stack, .stmt s o.answer :: c.loc.trace⟩⟩, o.db, o.took)
  | .begin k => some (⟨k, ⟨{} :: c.loc.stack, .begin :: c.loc.trace⟩⟩, db, [])
  | .commit k =>
    let o := E.commit ch c.loc.stack db
    some (⟨k o.answer, ⟨o.stack, .commit o.answer :: c.loc.trace⟩⟩, o.db, [])
  | .rollback k => some (⟨k, ⟨c.loc.stack.tail, .rollback :: c.loc.trace⟩⟩, db, [])

end Engine

/-- The committed database and the clients. -/
structure Sys (S : Type → Type) (σ ω ℓ ε α ι : Type) : Type 1 where
  db : σ
  clients : ι → Client S ω ℓ ε α

/-- Client `i` of `s` takes one action and leaves `s'`; no other client holds
a lock it needs. -/
def Step [DecidableEq ι] (E : Engine S σ ω ℓ ε η) (s : Sys S σ ω ℓ ε α ι) (i : ι)
    (s' : Sys S σ ω ℓ ε α ι) : Prop :=
  ∃ ch c db took, E.next ch s.db (s.clients i) = some (c, db, took) ∧
    (∀ j, j ≠ i → ∀ ℓ ∈ took, ℓ ∉ heldBy (s.clients j).loc.stack) ∧
    s' = ⟨db, Function.update s.clients i c⟩

/-- Runs whose every step satisfies `C`. -/
inductive Runs [DecidableEq ι] (E : Engine S σ ω ℓ ε η)
    (C : Sys S σ ω ℓ ε α ι → ι → Sys S σ ω ℓ ε α ι → Prop) (s : Sys S σ ω ℓ ε α ι) :
    Sys S σ ω ℓ ε α ι → Prop
  | refl : Runs E C s s
  | step {s' s'' : Sys S σ ω ℓ ε α ι} {i : ι} :
      Runs E C s s' → Step E s' i s'' → C s' i s'' → Runs E C s s''

/-- All runs. -/
def AnyStep (_ : Sys S σ ω ℓ ε α ι) (_ : ι) (_ : Sys S σ ω ℓ ε α ι) : Prop := True

/-- The system in which client `i` is about to run `progs i`. -/
def Sys.start (db : σ) (progs : ι → Prog S ε α) : Sys S σ ω ℓ ε α ι :=
  ⟨db, fun i => ⟨progs i, {}⟩⟩

theorem Runs.trans [DecidableEq ι] {E : Engine S σ ω ℓ ε η}
    {C : Sys S σ ω ℓ ε α ι → ι → Sys S σ ω ℓ ε α ι → Prop} {s₁ s₂ s₃ : Sys S σ ω ℓ ε α ι}
    (h : Runs E C s₁ s₂) (h' : Runs E C s₂ s₃) : Runs E C s₁ s₃ := by
  induction h' with
  | refl => exact h
  | step _ hs hc ih => exact .step ih hs hc

theorem Runs.mono [DecidableEq ι] {E : Engine S σ ω ℓ ε η}
    {C C' : Sys S σ ω ℓ ε α ι → ι → Sys S σ ω ℓ ε α ι → Prop} {s s' : Sys S σ ω ℓ ε α ι}
    (hC : ∀ s i s', C s i s' → C' s i s') (h : Runs E C s s') : Runs E C' s s' := by
  induction h with
  | refl => exact .refl
  | step _ hs hc ih => exact .step ih hs (hC _ _ _ hc)

/-- Conditions that agree on every step that can be reached have the same runs. -/
theorem Runs.congr [DecidableEq ι] {E : Engine S σ ω ℓ ε η}
    {C C' : Sys S σ ω ℓ ε α ι → ι → Sys S σ ω ℓ ε α ι → Prop} {s₀ s : Sys S σ ω ℓ ε α ι}
    (hC : ∀ s s' i, Runs E AnyStep s₀ s → Step E s i s' → (C s i s' ↔ C' s i s')) :
    Runs E C s₀ s ↔ Runs E C' s₀ s := by
  constructor
  · intro h
    induction h with
    | refl => exact .refl
    | step hruns hs hc ih =>
        exact .step ih hs ((hC _ _ _ (hruns.mono fun _ _ _ _ => trivial) hs).mp hc)
  · intro h
    induction h with
    | refl => exact .refl
    | step hruns hs hc ih =>
        exact .step ih hs ((hC _ _ _ (hruns.mono fun _ _ _ _ => trivial) hs).mpr hc)

/-- An invariant that a step keeps exactly if it meets a condition holds
throughout a run exactly if all its steps meet that condition. -/
theorem Runs.inv_iff [DecidableEq ι] {E : Engine S σ ω ℓ ε η} {A : Sys S σ ω ℓ ε α ι → Prop}
    {C : Sys S σ ω ℓ ε α ι → ι → Sys S σ ω ℓ ε α ι → Prop} {s₀ s : Sys S σ ω ℓ ε α ι} (h₀ : A s₀)
    (hC : ∀ s s' i, Runs E AnyStep s₀ s → A s → Step E s i s' → (A s' ↔ C s i s')) :
    (Runs E (fun _ _ s' => A s') s₀ s ↔ Runs E C s₀ s) ∧ (Runs E C s₀ s → A s) := by
  have hinv : ∀ {s}, Runs E C s₀ s → A s := by
    intro s h
    induction h with
    | refl => exact h₀
    | step hruns hs hc ih => exact (hC _ _ _ (hruns.mono fun _ _ _ _ => trivial) ih hs).mpr hc
  refine ⟨⟨fun h => ?_, fun h => ?_⟩, hinv⟩
  · induction h with
    | refl => exact .refl
    | step hruns hs hc ih =>
        exact .step ih hs ((hC _ _ _ (hruns.mono fun _ _ _ _ => trivial) (hinv ih) hs).mp hc)
  · induction h with
    | refl => exact .refl
    | step hruns hs hc ih => exact .step ih hs (hinv (.step hruns hs hc))

/-- What does not hold at first and holds in the end comes about in some step. -/
theorem Runs.exists_step [DecidableEq ι] {E : Engine S σ ω ℓ ε η}
    {C : Sys S σ ω ℓ ε α ι → ι → Sys S σ ω ℓ ε α ι → Prop} {A : σ → Prop}
    {s s' : Sys S σ ω ℓ ε α ι} (h : Runs E C s s') (hnot : ¬A s.db) (hA : A s'.db) :
    ∃ s₁ i s₂, Runs E C s s₁ ∧ Step E s₁ i s₂ ∧ Runs E C s₂ s' ∧ ¬A s₁.db ∧ A s₂.db := by
  induction h with
  | refl => exact (hnot hA).elim
  | @step s₁ s₂ i hruns hs hc ih =>
      by_cases hbefore : A s₁.db
      · obtain ⟨s₃, j, s₄, h₃, hstep, h₄, hno, hyes⟩ := ih hbefore
        exact ⟨s₃, j, s₄, h₃, hstep, h₄.step hs hc, hno, hyes⟩
      · exact ⟨s₁, i, s₂, hruns, hs, .refl, hbefore, hA⟩

/-! ## The past of clients -/

section Past

variable [DecidableEq ι] {E : Engine S σ ω ℓ ε η} {s s' : Sys S σ ω ℓ ε α ι} {i : ι}
  {C : Sys S σ ω ℓ ε α ι → ι → Sys S σ ω ℓ ε α ι → Prop}

/-- An action adds one event to the past of its client, which is not finished. -/
theorem Step.acts (h : Step E s i s') : (s.clients i).prog.finished = false ∧
    ∃ e, (s'.clients i).loc.trace = e :: (s.clients i).loc.trace := by
  obtain ⟨ch, c, db, took, hn, -, rfl⟩ := h
  simp only [Function.update_self]
  cases hp : (s.clients i).prog with
  | ret r => simp [Engine.next, hp] at hn
  | stmt s k =>
      simp only [Engine.next, hp, Option.some.injEq, Prod.mk.injEq] at hn
      obtain ⟨rfl, -, -⟩ := hn
      exact ⟨rfl, _, rfl⟩
  | begin k =>
      simp only [Engine.next, hp, Option.some.injEq, Prod.mk.injEq] at hn
      obtain ⟨rfl, -, -⟩ := hn
      exact ⟨rfl, _, rfl⟩
  | commit k =>
      simp only [Engine.next, hp, Option.some.injEq, Prod.mk.injEq] at hn
      obtain ⟨rfl, -, -⟩ := hn
      exact ⟨rfl, _, rfl⟩
  | rollback k =>
      simp only [Engine.next, hp, Option.some.injEq, Prod.mk.injEq] at hn
      obtain ⟨rfl, -, -⟩ := hn
      exact ⟨rfl, _, rfl⟩

theorem Step.other (h : Step E s i s') {j : ι} (hj : j ≠ i) : s'.clients j = s.clients j := by
  obtain ⟨ch, c, db, took, -, -, rfl⟩ := h
  exact Function.update_of_ne hj _ _

/-- What every step leaves of the client that takes it holds of all clients. -/
theorem Runs.all {A : Client S ω ℓ ε α → Prop} (h : Runs E (fun _ i s' => A (s'.clients i)) s s')
    (hA : ∀ i, A (s.clients i)) : ∀ i, A (s'.clients i) := by
  induction h with
  | refl => exact hA
  | @step s₁ s₂ i _ hs hc ih =>
      intro j
      by_cases hj : j = i
      · rw [hj]
        exact hc
      · rw [hs.other hj]
        exact ih j

/-- The past of a client stays its past. -/
theorem Step.trace_grows (h : Step E s i s') (j : ι) :
    ∃ events, (s'.clients j).loc.trace = events ++ (s.clients j).loc.trace := by
  by_cases hj : j = i
  · subst hj
    obtain ⟨-, e, he⟩ := h.acts
    exact ⟨[e], he⟩
  · exact ⟨[], by rw [h.other hj]; rfl⟩

theorem Runs.trace_grows (h : Runs E C s s') (j : ι) :
    ∃ events, (s'.clients j).loc.trace = events ++ (s.clients j).loc.trace := by
  induction h with
  | refl => exact ⟨[], rfl⟩
  | step _ hs _ ih =>
      obtain ⟨events, he⟩ := ih
      obtain ⟨events', he'⟩ := hs.trace_grows j
      exact ⟨events' ++ events, by rw [he', he, List.append_assoc]⟩

/-- A client that has finished stays as it is. -/
theorem Runs.of_finished (h : Runs E C s s') {j : ι} (hj : (s.clients j).prog.finished = true) :
    s'.clients j = s.clients j := by
  induction h with
  | refl => rfl
  | @step s₁ s₂ i _ hs _ ih =>
      have hne : j ≠ i := by
        rintro rfl
        obtain ⟨hrun, -⟩ := hs.acts
        rw [ih, hj] at hrun
        cases hrun
      rw [hs.other hne, ih]

/-- A client without a past has not started. -/
theorem Runs.of_trace_nil (h : Runs E C s s') {j : ι} (hj : (s'.clients j).loc.trace = []) :
    s'.clients j = s.clients j := by
  induction h with
  | refl => rfl
  | @step s₁ s₂ i _ hs _ ih =>
      have hne : j ≠ i := by
        intro he
        subst he
        obtain ⟨-, e, he⟩ := hs.acts
        rw [he] at hj
        cases hj
      rw [hs.other hne] at hj ⊢
      exact ih hj

/-- As long as only clients that were finished from the start can have had a
turn, nothing has changed. -/
theorem Runs.of_unstarted (h : Runs E C s s')
    (hs : ∀ j, (s.clients j).prog.finished = false → (s'.clients j).loc.trace = []) : s' = s := by
  cases h with
  | refl => rfl
  | @step s₁ _ i hruns hstep _ =>
      obtain ⟨hrun, e, he⟩ := hstep.acts
      cases hfin : (s.clients i).prog.finished with
      | false =>
          rw [hs i hfin] at he
          cases he
      | true =>
          rw [hruns.of_finished hfin, hfin] at hrun
          cases hrun

end Past

/-! ## What every system keeps -/

namespace Discipline

variable {E : Engine S σ ω ℓ ε η} (D : Discipline E)

/-- What one action of a client leaves behind. -/
theorem next_ok (ch : Choice η) {db db' : σ} {c c' : Client S ω ℓ ε α} {took : List ℓ}
    (h : E.next ch db c = some (c', db', took)) (hv : D.valid db) (hs : D.StackOk c.loc.stack db) :
    D.valid db' ∧ D.StackOk c'.loc.stack db' ∧ D.le db db' ∧
      (∀ ℓ, ℓ ∉ heldBy c.loc.stack → ℓ ∉ took → D.same ℓ db db') ∧
      (∀ ℓ ∈ heldBy c'.loc.stack, ℓ ∈ heldBy c.loc.stack ∨ ℓ ∈ took) := by
  obtain ⟨prog, stack, trace⟩ := c
  cases prog with
  | ret r => simp [Engine.next] at h
  | stmt s k =>
      simp only [Engine.next, Option.some.injEq, Prod.mk.injEq] at h
      obtain ⟨rfl, rfl, rfl⟩ := h
      obtain ⟨h₁, h₂, h₃, h₄, h₅⟩ := D.run_ok (s := s) ch hv hs
      exact ⟨h₁, h₂, h₃, fun ℓ _ => h₄ ℓ, h₅⟩
  | begin k =>
      simp only [Engine.next, Option.some.injEq, Prod.mk.injEq] at h
      obtain ⟨rfl, rfl, rfl⟩ := h
      exact ⟨hv, hs.push, D.le_refl _, fun ℓ _ _ => D.same_refl ℓ _, by simp⟩
  | rollback k =>
      simp only [Engine.next, Option.some.injEq, Prod.mk.injEq] at h
      obtain ⟨rfl, rfl, rfl⟩ := h
      cases stack with
      | nil => exact ⟨hv, hs, D.le_refl _, fun ℓ _ _ => D.same_refl ℓ _, by simp⟩
      | cons t ts =>
          exact ⟨hv, hs.tail, D.le_refl _, fun ℓ _ _ => D.same_refl ℓ _,
            fun ℓ hℓ => .inl (List.mem_append_right _ hℓ)⟩
  | commit k =>
      simp only [Engine.next, Option.some.injEq, Prod.mk.injEq] at h
      obtain ⟨rfl, rfl, rfl⟩ := h
      cases stack with
      | nil => cases ch <;>
          exact ⟨hv, hs, D.le_refl _, fun ℓ _ _ => D.same_refl ℓ _, by simp [Engine.commit]⟩
      | cons t ts =>
          cases ch with
          | fail m =>
              exact ⟨hv, hs.tail, D.le_refl _, fun ℓ _ _ => D.same_refl ℓ _,
                fun ℓ hℓ => .inl (List.mem_append_right _ hℓ)⟩
          | go env =>
              refine ⟨hs.valid_view hv, hs.commit, D.le_applyAll _ _, fun ℓ hℓ _ => ?_,
                fun ℓ hℓ => .inl (List.mem_append_right _ hℓ)⟩
              exact hs.same_view fun hin => hℓ (List.mem_append_left _ hin)

/-- The store is valid, every client's stack is in order, and no two clients
hold the same lock. -/
structure SysOk (s : Sys S σ ω ℓ ε α ι) : Prop where
  valid : D.valid s.db
  stack : ∀ i, D.StackOk (s.clients i).loc.stack s.db
  apart : ∀ i j, i ≠ j → ∀ ℓ ∈ heldBy (s.clients i).loc.stack, ℓ ∉ heldBy (s.clients j).loc.stack

theorem SysOk.start {db : σ} (hv : D.valid db) (progs : ι → Prog S ε α) :
    D.SysOk (Sys.start db progs) where
  valid := hv
  stack _ := .nil
  apart _ _ _ := by simp [Sys.start]

/-- A step of client `i` keeps all that the other clients have locked. -/
theorem SysOk.same_of_next {D : Discipline E} {s : Sys S σ ω ℓ ε α ι} (hs : D.SysOk s) {i j : ι}
    (hij : j ≠ i) {ch : Choice η} {c : Client S ω ℓ ε α} {db : σ} {took : List ℓ}
    (h : E.next ch s.db (s.clients i) = some (c, db, took))
    (hfree : ∀ j, j ≠ i → ∀ ℓ ∈ took, ℓ ∉ heldBy (s.clients j).loc.stack) :
    ∀ ℓ ∈ heldBy (s.clients j).loc.stack, D.same ℓ s.db db := by
  intro ℓ hℓ
  obtain ⟨-, -, -, hsame, -⟩ := D.next_ok _ h hs.valid (hs.stack i)
  exact hsame ℓ (fun hin => hs.apart j i hij ℓ hℓ hin) fun hin => hfree j hij ℓ hin hℓ

theorem SysOk.same_of_step [DecidableEq ι] {D : Discipline E} {s s' : Sys S σ ω ℓ ε α ι}
    (hs : D.SysOk s) {i j : ι} (hij : j ≠ i) (h : Step E s i s') :
    ∀ ℓ ∈ heldBy (s.clients j).loc.stack, D.same ℓ s.db s'.db := by
  obtain ⟨ch, c, db, took, hn, hfree, rfl⟩ := h
  exact hs.same_of_next hij hn hfree

theorem SysOk.step [DecidableEq ι] {D : Discipline E} {s s' : Sys S σ ω ℓ ε α ι} {i : ι}
    (hs : D.SysOk s) (h : Step E s i s') : D.SysOk s' := by
  obtain ⟨ch, c, db, took, hn, hfree, rfl⟩ := h
  obtain ⟨hv, hstack, hle, -, hheld⟩ := D.next_ok _ hn hs.valid (hs.stack i)
  -- a lock of the moved client is an old one of its own, or one nobody held
  have hfresh : ∀ j, j ≠ i → ∀ ℓ ∈ heldBy c.loc.stack, ℓ ∉ heldBy (s.clients j).loc.stack := by
    intro j hj ℓ hℓ
    rcases hheld ℓ hℓ with h | h
    · exact hs.apart i j hj.symm ℓ h
    · exact hfree j hj ℓ h
  refine ⟨hv, fun j => ?_, fun j k hjk => ?_⟩
  · by_cases hj : j = i
    · subst hj; simpa using hstack
    · simpa [hj] using (hs.stack j).mono (hs.same_of_next hj hn hfree) hle
  · by_cases hj : j = i
    · subst hj
      simpa [hjk.symm] using hfresh k hjk.symm
    · by_cases hk : k = i
      · subst hk
        intro ℓ hℓ hin
        exact hfresh j hj ℓ (by simpa using hin) (by simpa [hj] using hℓ)
      · simpa [hj, hk] using hs.apart j k hjk

/-- What is committed is never undone. -/
theorem SysOk.runs [DecidableEq ι] {D : Discipline E} {s s' : Sys S σ ω ℓ ε α ι}
    {C : Sys S σ ω ℓ ε α ι → ι → Sys S σ ω ℓ ε α ι → Prop} (hs : D.SysOk s) (h : Runs E C s s') :
    D.SysOk s' ∧ D.le s.db s'.db := by
  induction h with
  | refl => exact ⟨hs, D.le_refl _⟩
  | step _ hstep _ ih =>
      obtain ⟨ch, c, db, took, hn, hfree, rfl⟩ := hstep
      obtain ⟨-, -, hle, -, -⟩ := D.next_ok _ hn ih.1.valid (ih.1.stack _)
      exact ⟨ih.1.step ⟨ch, c, db, took, hn, hfree, rfl⟩, D.le_trans ih.2 hle⟩

end Discipline

end Transact
