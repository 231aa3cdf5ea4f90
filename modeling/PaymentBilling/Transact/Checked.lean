import PaymentBilling.Transact.Replay
import PaymentBilling.Transact.Scope

/-!
# Transact.Checked

Check-then-act: clients that compare a status and set another one later.

Each client has a goal, the status it wants to set.  It reads the current
status (`reads`), goes on only when the check passes (`passes`), and sets its
goal in a later action.  Nothing keeps the status from changing in between.
As long as no two unfinished clients have passed the check with different
goals, though, what a client has checked still holds when it acts
(`Check.protocol`), and the status only ever changes as the check allows.
-/

set_option linter.unusedSectionVars false

namespace Transact

variable {S : Type → Type} {σ ω ℓ ε η α ι τ : Type} [DecidableEq ℓ] {E : Engine S σ ω ℓ ε η}

/-! ## Checks -/

/-- A status and the check that is made of it: which event reads it as what,
and from which status a goal may be set. -/
structure Check (S : Type → Type) (ε σ τ : Type) where
  status : σ → Option τ
  reads : Event S ε → τ → Prop
  passes : τ → τ → Prop

namespace Check

variable (K : Check S ε σ τ)

/-- The client has passed the check for `goal`. -/
def Passed (goal : τ) (c : Local S ω ℓ ε) : Prop :=
  ∃ e ∈ c.trace, ∃ current, K.reads e current ∧ K.passes current goal

/-- The check for `goal` passes, or the goal is reached. -/
def Allows (goal : τ) (db : σ) : Prop :=
  ∀ current, K.status db = some current → K.passes current goal ∨ current = goal

/-- The status may change so at once. -/
def Follows (db db' : σ) : Prop :=
  ∀ current next, K.status db = some current → K.status db' = some next →
    next = current ∨ K.passes current next

/-- After the step of client `i`, every unfinished client that has passed the
check has the goal of `i`, if `i` has passed it too. -/
def OneGoal (goal : ι → τ) (_ : Sys S σ ω ℓ ε α ι) (i : ι) (s' : Sys S σ ω ℓ ε α ι) : Prop :=
  (s'.clients i).prog.finished = false → ∀ j, j ≠ i → (s'.clients j).prog.finished = false →
    K.Passed (goal i) (s'.clients i).loc → K.Passed (goal j) (s'.clients j).loc → goal i = goal j

variable {K} {goal : τ}

theorem Passed.mono {c c' : Local S ω ℓ ε} (h : K.Passed goal c)
    (hc : ∃ events, c'.trace = events ++ c.trace) : K.Passed goal c' := by
  obtain ⟨e, he, hread⟩ := h
  obtain ⟨events, hc⟩ := hc
  exact ⟨e, by rw [hc]; exact List.mem_append_right _ he, hread⟩

theorem not_passed_nil {c : Local S ω ℓ ε} (hc : c.trace = []) : ¬K.Passed goal c := by
  rintro ⟨e, he, -⟩
  rw [hc] at he
  cases he

/-- Clients that act one after the other pursue one goal at a time. -/
theorem oneGoal_of_alone {n : Nat} {goal : Fin n → τ} (s : Sys S σ ω ℓ ε α (Fin n)) (i : Fin n)
    (s' : Sys S σ ω ℓ ε α (Fin n)) (h : alone i s' = true) : K.OneGoal goal s i s' := by
  intro _ j hj hrun _ hpassed
  obtain ⟨-, hfinished | htrace⟩ := of_alone h hj
  · rw [hfinished] at hrun
    cases hrun
  · exact (not_passed_nil htrace hpassed).elim

theorem follows_of_same {db db' : σ} (h : K.status db' = K.status db) : K.Follows db db' := by
  intro current next hcur hnext
  rw [h, hcur] at hnext
  exact .inl (Option.some.inj hnext).symm

theorem follows_of_set {db db' : σ} (hallow : K.Allows goal db) (h : K.status db' = some goal) :
    K.Follows db db' := by
  intro current next hcur hnext
  rw [h] at hnext
  obtain rfl := Option.some.inj hnext
  rcases hallow current hcur with hpass | rfl
  · exact .inr hpass
  · exact .inl rfl

theorem allows_of_same {db db' : σ} (h : K.status db' = K.status db) (hallow : K.Allows goal db) :
    K.Allows goal db' := by
  rw [Allows, h]
  exact hallow

theorem allows_of_set {db : σ} (h : K.status db = some goal) : K.Allows goal db := by
  intro current hcur
  rw [h] at hcur
  exact .inr (Option.some.inj hcur).symm

/-! ## The protocol -/

variable (K) (D : Discipline E) (I : σ → Prop)

/-- A client with this goal sets no other status, and only after it has passed
the check; from then on the others leave the check true. -/
def protocol (goal : τ) : Protocol D I where
  env c db db' := K.Passed goal c → K.Allows goal db → K.Allows goal db'
  guar c db db' := K.status db' = K.status db ∨
    (K.Passed goal c ∧ K.Allows goal db ∧ K.status db' = some goal)
  env_refl _ _ _ h := h
  env_trans h h' hp ha := h' hp (h hp ha)
  guar_refl _ _ := .inl rfl

/-- Clients of which no two have passed the check with different goals. -/
def contract (goal : ι → τ) : Contract D I ι where
  proto i := K.protocol D I (goal i)
  apart i c j c' := K.Passed (goal i) c → K.Passed (goal j) c' → goal i = goal j
  apart_symm h hp hp' := (h hp' hp).symm
  compat := by
    rintro i j c c' db db' - hapart - - - - (hsame | ⟨hpassed, -, hset⟩) hpassed' hallow
    · exact allows_of_same hsame hallow
    · rw [hapart hpassed hpassed'] at hset
      exact allows_of_set hset

theorem clean_of_oneGoal {goal : ι → τ} {s s' : Sys S σ ω ℓ ε α ι} {i : ι}
    (h : K.OneGoal goal s i s') : (K.contract D I goal).Clean s i s' :=
  fun hi j hj hj' => h hi j hj hj'

variable {K D I}

theorem follows_of_guar {c : Local S ω ℓ ε} {db db' : σ} (h : (K.protocol D I goal).guar c db db') :
    K.Follows db db' := by
  rcases h with hsame | ⟨-, hallow, hset⟩
  · exact follows_of_same hsame
  · exact follows_of_set hallow hset

/-! ## Rules -/

/-- An action that leaves the status alone. -/
theorem keeps_of_same {c : Local S ω ℓ ε} {db db' : σ} (hi : I db')
    (h : K.status db' = K.status db) : (K.protocol D I goal).Keeps c db db' := ⟨hi, .inl h⟩

/-- An action that sets the goal. -/
theorem keeps_of_set {c : Local S ω ℓ ε} {db db' : σ} (hp : K.Passed goal c)
    (ha : K.Allows goal db) (hi : I db') (h : K.status db' = some goal) :
    (K.protocol D I goal).Keeps c db db' := ⟨hi, .inr ⟨hp, ha, h⟩⟩

variable (K D I)

/-- The protocol of a client that has passed the check. -/
abbrev passedProtocol (goal : τ) : Protocol D (fun db => I db ∧ K.Allows goal db) :=
  (K.protocol D I goal).knowing (K.Allows goal)

variable {K D I}

/-- What a client does after it has passed the check. -/
theorem wp_of_passed {p : Prog S ε α} {Q : Post S σ ω ℓ ε α} {c : Local S ω ℓ ε} {db : σ}
    (hp : K.Passed goal c) (ha : K.Allows goal db)
    (h : (K.passedProtocol D I goal).wp p (fun r c' db' => K.Allows goal db' → Q r c' db') c db) :
    (K.protocol D I goal).wp p Q c db :=
  (K.protocol D I goal).wp_of_knowing (fun _ _ _ hc hs ha => hs.env (hp.mono hc) ha) ⟨[], rfl⟩ ha h

theorem passedKeeps_of_same {c : Local S ω ℓ ε} {db db' : σ} (ha : K.Allows goal db) (hi : I db')
    (h : K.status db' = K.status db) : (K.passedProtocol D I goal).Keeps c db db' :=
  ⟨⟨hi, allows_of_same h ha⟩, .inl h⟩

theorem passedKeeps_of_set {c : Local S ω ℓ ε} {db db' : σ} (hp : K.Passed goal c)
    (ha : K.Allows goal db) (hi : I db') (h : K.status db' = some goal) :
    (K.passedProtocol D I goal).Keeps c db db' := ⟨⟨hi, allows_of_set h⟩, .inr ⟨hp, ha, h⟩⟩

/-- Clients that follow the protocol keep the invariant, and change the status
only as the check allows, in every run in which one goal is pursued at a time. -/
theorem safe_of_runs [DecidableEq ι] {goal : ι → τ} {db : σ} {progs : ι → Prog S ε α}
    {s : Sys S σ ω ℓ ε α ι} (hv : D.valid db) (hi : I db)
    (hwp : ∀ i, (K.protocol D I (goal i)).wp (progs i) (fun _ _ _ => True) {} db)
    (h : Runs E (K.OneGoal goal) (Sys.start db progs) s) :
    (K.contract D I goal).Safe (fun _ _ _ _ => True) s := by
  have hsafe : (K.contract D I goal).Safe (fun _ _ _ _ => True) (Sys.start db progs) :=
    .start hv hi (fun i j _ hp => (not_passed_nil rfl hp).elim) hwp
  exact (hsafe.runs (T := fun _ _ => True) (fun _ _ _ _ _ _ _ _ h => h) (fun _ => trivial)
    (fun _ _ => trivial) (fun _ _ _ _ => trivial)
    (h.mono fun _ _ _ => K.clean_of_oneGoal D I)).1

theorem follows_of_step [DecidableEq ι] {goal : ι → τ} {s s' : Sys S σ ω ℓ ε α ι} {i : ι}
    (hs : (K.contract D I goal).Safe (fun _ _ _ _ => True) s) (h : Step E s i s') :
    K.Follows s.db s'.db := follows_of_guar (hs.allowed h).1.2

/-- A status that no check passes from is final. -/
theorem final_of_runs [DecidableEq ι] {goal : ι → τ} {s s' : Sys S σ ω ℓ ε α ι} {final : τ}
    (hs : (K.contract D I goal).Safe (fun _ _ _ _ => True) s) (hfinal : ∀ next, ¬K.passes final next)
    (hkept : ∀ {db db' : σ}, D.le db db' → K.status db = some final → ∃ st, K.status db' = some st)
    (h : Runs E (K.OneGoal goal) s s') (hstatus : K.status s.db = some final) :
    K.status s'.db = some final := by
  have hsafe : (K.contract D I goal).Safe (fun _ _ _ _ => True) s' ∧ K.status s'.db = some final := by
    induction h with
    | refl => exact ⟨hs, hstatus⟩
    | step _ hstep hone ih =>
        obtain ⟨hsafe, -, hle⟩ :=
          ih.1.step (fun _ _ _ _ _ _ _ _ h => h) hstep (K.clean_of_oneGoal D I hone)
        obtain ⟨next, hnext⟩ := hkept hle ih.2
        have hfollow := follows_of_step ih.1 hstep _ _ ih.2 hnext
        rcases hfollow with rfl | hpass
        · exact ⟨hsafe, hnext⟩
        · exact (hfinal _ hpass).elim
  exact hsafe.2

end Check

end Transact
