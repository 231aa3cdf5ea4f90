import Mathlib

/-!
# Replies

Machines that answer a repeated key with their first answer, in general form.

A machine takes one call after the other.  Some calls carry a key; the answer
to the first call with a key is logged, and later calls with that key get it
from the log and change nothing in it.  A machine that also numbers what it
issues never issues one number twice.
-/

namespace Replies

variable {σ γ κ ρ : Type} [DecidableEq κ]

/-- A call of a run: the state that it found, and its answer. -/
structure Entry (σ γ ρ : Type) where
  before : σ
  call : γ
  answer : ρ

/-- The calls of a run, in their order. -/
def trace (step : γ → σ → ρ × σ) : List γ → σ → List (Entry σ γ ρ)
  | [], _ => []
  | c :: cs, s => ⟨s, c, (step c s).1⟩ :: trace step cs (step c s).2

/-- Calls with a key are answered once, and then from the log. -/
structure Logged (step : γ → σ → ρ × σ) (key : γ → Option κ) (log : σ → κ → Option ρ) : Prop where
  hit : ∀ {c s k r}, key c = some k → log s k = some r → (step c s).1 = r ∧ log (step c s).2 = log s
  miss : ∀ {c s k}, key c = some k → log s k = none →
    log (step c s).2 = Function.update (log s) k (some (step c s).1)
  other : ∀ {c s}, key c = none → log (step c s).2 = log s

variable {step : γ → σ → ρ × σ} {key : γ → Option κ} {log : σ → κ → Option ρ} {cs : List γ} {s : σ}
  {k : κ} {r : ρ} {x y : Entry σ γ ρ}

/-- An entry is a step. -/
theorem answer_of_mem (hx : x ∈ trace step cs s) : x.answer = (step x.call x.before).1 := by
  induction cs generalizing s with
  | nil => cases hx
  | cons c cs ih =>
      cases List.mem_cons.mp hx with
      | inl he => rw [he]
      | inr ht => exact ih ht

theorem call_mem (hx : x ∈ trace step cs s) : x.call ∈ cs := by
  induction cs generalizing s with
  | nil => cases hx
  | cons c cs ih =>
      cases List.mem_cons.mp hx with
      | inl he => rw [he]; exact .head _
      | inr ht => exact .tail _ (ih ht)

namespace Logged

/-- What is logged stays. -/
theorem kept (h : Logged step key log) (hr : log s k = some r) (c : γ) :
    log (step c s).2 k = some r := by
  cases hc : key c with
  | none => rw [h.other hc, hr]
  | some k' =>
      cases hk' : log s k' with
      | some r' => rw [(h.hit hc hk').2, hr]
      | none =>
          have hne : k ≠ k' := by
            intro he
            rw [he, hk'] at hr
            cases hr
          rw [h.miss hc hk', Function.update_of_ne hne, hr]

/-- The answer to a key that is logged. -/
theorem answer_eq (h : Logged step key log) (hr : log s k = some r) (hx : x ∈ trace step cs s)
    (hk : key x.call = some k) : x.answer = r := by
  induction cs generalizing s with
  | nil => cases hx
  | cons c cs ih =>
      cases List.mem_cons.mp hx with
      | inl he =>
          subst he
          exact (h.hit hk hr).1
      | inr ht => exact ih (h.kept hr c) ht

/-- After a call its key is logged. -/
theorem logged_step (h : Logged step key log) {c : γ} (hk : key c = some k) :
    log (step c s).2 k = some (step c s).1 := by
  cases hr : log s k with
  | some r =>
      obtain ⟨hanswer, hsame⟩ := h.hit hk hr
      rw [hsame, hr, hanswer]
  | none => rw [h.miss hk hr, Function.update_self]

/-- Two calls with one key get one answer. -/
theorem answers_agree (h : Logged step key log) (hx : x ∈ trace step cs s) (hy : y ∈ trace step cs s)
    (hkx : key x.call = some k) (hky : key y.call = some k) : x.answer = y.answer := by
  induction cs generalizing s with
  | nil => cases hx
  | cons c cs ih =>
      cases List.mem_cons.mp hx with
      | inl hx =>
          subst hx
          cases List.mem_cons.mp hy with
          | inl hy => rw [hy]
          | inr hy => exact (h.answer_eq (h.logged_step hkx) hy hky).symm
      | inr hx =>
          cases List.mem_cons.mp hy with
          | inl hy =>
              subst hy
              exact h.answer_eq (h.logged_step hky) hx hkx
          | inr hy => exact ih hx hy

/-- A key that is not logged at the start has a first call, whose answer the
others get. -/
theorem exists_first (h : Logged step key log) (hnone : log s k = none) (hx : x ∈ trace step cs s)
    (hk : key x.call = some k) : ∃ first ∈ trace step cs s, key first.call = some k ∧
      log first.before k = none ∧ first.answer = x.answer := by
  induction cs generalizing s with
  | nil => cases hx
  | cons c cs ih =>
      by_cases hc : key c = some k
      · exact ⟨_, .head _, hc, hnone, h.answers_agree (.head _) hx hc hk⟩
      · cases List.mem_cons.mp hx with
        | inl hx =>
            subst hx
            exact (hc hk).elim
        | inr hx =>
            have hnone' : log (step c s).2 k = none := by
              cases hkey : key c with
              | none => rw [h.other hkey, hnone]
              | some k' =>
                  have hne : k ≠ k' := fun he => hc (he ▸ hkey)
                  cases hr : log s k' with
                  | some r => rw [(h.hit hkey hr).2, hnone]
                  | none => rw [h.miss hkey hr, Function.update_of_ne hne, hnone]
            obtain ⟨first, hfirst, hrest⟩ := ih hnone' hx
            exact ⟨first, .tail _ hfirst, hrest⟩

end Logged

/-! ## Numbers -/

section Numbers

variable {count : σ → Nat}

/-- The count never falls. -/
theorem count_le_of_mem (hmono : ∀ c s, count s ≤ count (step c s).2) (hx : x ∈ trace step cs s) :
    count s ≤ count x.before := by
  induction cs generalizing s with
  | nil => cases hx
  | cons c cs ih =>
      cases List.mem_cons.mp hx with
      | inl he =>
          subst he
          exact Nat.le_refl _
      | inr ht => exact Nat.le_trans (hmono c s) (ih ht)

/-- Two calls that count up found different counts. -/
theorem eq_of_count_eq (hmono : ∀ c s, count s ≤ count (step c s).2) (hx : x ∈ trace step cs s)
    (hy : y ∈ trace step cs s) (hupx : count x.before < count (step x.call x.before).2)
    (hupy : count y.before < count (step y.call y.before).2) (he : count x.before = count y.before) :
    x = y := by
  induction cs generalizing s with
  | nil => cases hx
  | cons c cs ih =>
      cases List.mem_cons.mp hx with
      | inl hx =>
          cases List.mem_cons.mp hy with
          | inl hy => rw [hx, hy]
          | inr hy =>
              have hle := count_le_of_mem hmono hy
              subst hx
              dsimp only at hupx he
              omega
      | inr hx =>
          cases List.mem_cons.mp hy with
          | inl hy =>
              have hle := count_le_of_mem hmono hx
              subst hy
              dsimp only at hupy he
              omega
          | inr hy => exact ih hx hy

end Numbers

end Replies
