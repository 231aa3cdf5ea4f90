import PaymentBilling.Transact.System

/-!
# Transact.Replay

Schedules that are played out: which client acts next, and what the
environment chooses.  A schedule that can be played is a run of the system, and
its steps are as clean as the test that is made after each of them.
-/

set_option linter.unusedSectionVars false

namespace Transact

variable {S : Type → Type} {σ ω ℓ ε η α : Type} [DecidableEq ℓ] {n : Nat}

/-- One client can be numbered. -/
instance oneClient : NeZero 1 := ⟨by decide⟩

/-- Two clients can be numbered. -/
instance twoClients : NeZero 2 := ⟨by decide⟩

/-- Three clients can be numbered. -/
instance threeClients : NeZero 3 := ⟨by decide⟩

/-- Play a schedule; `none` when a client has ended or has to wait for a lock,
or when a step does not pass the test. -/
def replay (E : Engine S σ ω ℓ ε η) (test : Fin n → Sys S σ ω ℓ ε α (Fin n) → Bool) :
    List (Fin n × Choice η) → Sys S σ ω ℓ ε α (Fin n) → Option (Sys S σ ω ℓ ε α (Fin n))
  | [], s => some s
  | (i, ch) :: rest, s =>
    match E.next ch s.db (s.clients i) with
    | none => none
    | some (c, db, took) =>
      if ((List.finRange n).all fun j =>
          j = i || took.all (· ∉ heldBy (s.clients j).loc.stack)) &&
          test i ⟨db, Function.update s.clients i c⟩
      then replay E test rest ⟨db, Function.update s.clients i c⟩
      else none

/-- No test. -/
def anyTime (_ : Fin n) (_ : Sys S σ ω ℓ ε α (Fin n)) : Bool := true

/-- Nobody but the client is in the middle of anything. -/
def alone (i : Fin n) (s : Sys S σ ω ℓ ε α (Fin n)) : Bool :=
  (List.finRange n).all fun j => j = i ||
    (s.clients j).loc.stack.isEmpty &&
      ((s.clients j).prog.finished || (s.clients j).loc.trace.isEmpty)

theorem of_alone {i : Fin n} {s : Sys S σ ω ℓ ε α (Fin n)} (h : alone i s = true) {j : Fin n}
    (hj : j ≠ i) : (s.clients j).loc.stack = [] ∧
      ((s.clients j).prog.finished = true ∨ (s.clients j).loc.trace = []) := by
  simpa [hj] using List.all_eq_true.mp h j (List.mem_finRange j)

variable {E : Engine S σ ω ℓ ε η} {s s' : Sys S σ ω ℓ ε α (Fin n)}
  {test : Fin n → Sys S σ ω ℓ ε α (Fin n) → Bool}
  {C : Sys S σ ω ℓ ε α (Fin n) → Fin n → Sys S σ ω ℓ ε α (Fin n) → Prop}

/-- What is played is a run. -/
theorem runs_of_replay (hC : ∀ s i s', test i s' = true → C s i s')
    {schedule : List (Fin n × Choice η)} (h : replay E test schedule s = some s') :
    Runs E C s s' := by
  induction schedule generalizing s with
  | nil =>
      cases h
      exact .refl
  | cons x rest ih =>
      obtain ⟨i, ch⟩ := x
      unfold replay at h
      cases hn : E.next ch s.db (s.clients i) with
      | none => simp [hn] at h
      | some o =>
          obtain ⟨c, db, took⟩ := o
          simp only [hn] at h
          split at h
          · next hfree =>
            rw [Bool.and_eq_true] at hfree
            obtain ⟨hfree, htest⟩ := hfree
            have hfree : ∀ j, j ≠ i → ∀ l ∈ took, l ∉ heldBy (s.clients j).loc.stack := by
              intro j hj
              simpa [hj] using List.all_eq_true.mp hfree j (List.mem_finRange j)
            exact (Runs.step .refl ⟨ch, c, db, took, hn, hfree, rfl⟩ (hC _ _ _ htest)).trans (ih h)
          · cases h

/-- What holds at the end of a played schedule holds at the end of a run. -/
theorem exists_runs_of_replay (hC : ∀ s i s', test i s' = true → C s i s')
    {schedule : List (Fin n × Choice η)} {goal : Sys S σ ω ℓ ε α (Fin n) → Bool}
    (h : (replay E test schedule s).any goal = true) : ∃ s', Runs E C s s' ∧ goal s' = true := by
  obtain ⟨s', hs', ht⟩ := (Option.any_eq_true ..).mp h
  exact ⟨s', runs_of_replay hC hs', ht⟩

/-- The same, of the database. -/
theorem exists_run_of_replay (hC : ∀ s i s', test i s' = true → C s i s')
    {schedule : List (Fin n × Choice η)} {goal : σ → Bool}
    (h : (replay E test schedule s).any (fun s => goal s.db) = true) :
    ∃ s', Runs E C s s' ∧ goal s'.db = true :=
  exists_runs_of_replay hC h

/-- Every schedule that can be played is a run. -/
theorem exists_run {schedule : List (Fin n × Choice η)} {goal : σ → Bool}
    (h : (replay E anyTime schedule s).any (fun s => goal s.db) = true) :
    ∃ s', Runs E AnyStep s s' ∧ goal s'.db = true :=
  exists_run_of_replay (fun _ _ _ _ => trivial) h

/-! ## The last step of a schedule -/

/-- Play a schedule and then one step, and keep the states around that step. -/
def replayStep (E : Engine S σ ω ℓ ε η) (schedule : List (Fin n × Choice η)) (i : Fin n)
    (ch : Choice η) (s : Sys S σ ω ℓ ε α (Fin n)) :
    Option (Sys S σ ω ℓ ε α (Fin n) × Sys S σ ω ℓ ε α (Fin n)) :=
  (replay E anyTime schedule s).bind fun s₁ =>
    (replay E anyTime [(i, ch)] s₁).map fun s₂ => (s₁, s₂)

/-- One step that is played is a step of its client. -/
theorem step_of_replay {i : Fin n} {ch : Choice η}
    (h : replay E anyTime [(i, ch)] s = some s') : Step E s i s' := by
  unfold replay at h
  cases hn : E.next ch s.db (s.clients i) with
  | none => simp [hn] at h
  | some o =>
      obtain ⟨c, db, took⟩ := o
      simp only [hn] at h
      split at h
      · next hfree =>
        rw [Bool.and_eq_true] at hfree
        obtain ⟨hfree, -⟩ := hfree
        obtain rfl : _ = s' := Option.some.inj h
        refine ⟨ch, c, db, took, hn, fun j hj => ?_, rfl⟩
        simpa [hj] using List.all_eq_true.mp hfree j (List.mem_finRange j)
      · cases h

/-- What holds around the last step of a played schedule holds around a step
after a run. -/
theorem exists_step_of_replay {schedule : List (Fin n × Choice η)} {i : Fin n} {ch : Choice η}
    {goal : Sys S σ ω ℓ ε α (Fin n) × Sys S σ ω ℓ ε α (Fin n) → Bool}
    (h : (replayStep E schedule i ch s).any goal = true) :
    ∃ s₁ s₂, Runs E AnyStep s s₁ ∧ Step E s₁ i s₂ ∧ goal (s₁, s₂) = true := by
  obtain ⟨⟨s₁, s₂⟩, hs, hgoal⟩ := (Option.any_eq_true ..).mp h
  obtain ⟨s', hplay, hmap⟩ := Option.bind_eq_some_iff.mp hs
  obtain ⟨s'', hstep, heq⟩ := Option.map_eq_some_iff.mp hmap
  cases heq
  exact ⟨_, _, runs_of_replay (fun _ _ _ _ => trivial) hplay, step_of_replay hstep, hgoal⟩

end Transact
