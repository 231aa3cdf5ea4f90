import PaymentBilling.Safety.CreditBalance
import PaymentBilling.Safety.RefundStatus
import PaymentBilling.Spec.Commits

/-!
# Safety.CreditTrail

Every row of the credit log has its reason, and every operation moves credits
for its own source only.

A row is what some operation of the run was to move: its key, the user and the
amount.  Whether a key is logged twice is another matter.
-/

namespace PaymentBilling

open Relational Transact

/-! ## Steps of the credits -/

/-- What a commit of the operation does to the credits. -/
inductive CreditStep (op : Operation) (ws : List RowWrite) (db : Data) : Prop
  | same (tables : ∀ t ∈ creditTables, postgres.applyAll ws db t = db t)
  | changed (src : CreditSource) (user : String) (n : Int) (source : op.creditSource? = some src)
      (moves : op.Moves user n db) (change : CreditChange user n (some src.key) ws db)

section Steps

variable {op : Operation} {db db' : Data} {ws : List RowWrite} {user : String} {n : Int}

/-- An operation moves credits for its own source only. -/
theorem Commit.credit (h : Commit op db ws) : CreditStep op ws db := by
  have hapart : ∀ t ∈ creditTables, t ∉ plainTables ∧ t ≠ .refundRequests ∧ t ≠ .disputes ∧
      t ∉ ledgerTables ∧ t ∉ .processedWebhooks :: .disputes :: ledgerTables := by decide
  have hother : ∀ t' : Table, t' ∉ creditTables → (∀ w ∈ ws, w.table = t') → CreditStep op ws db :=
    fun t' ht' hws => .same fun t ht => applyAll_other fun w hw heq => ht' ((hws w hw).symm.trans heq ▸ ht)
  cases h with
  | plain tables => exact .same fun t ht => applyAll_plain tables (hapart t ht).1
  | credits src user n source moves change => exact .changed src user n source moves change
  | request userId data r _ _ => exact hother .refundRequests (by decide) (by simp [Write.table])
  | review id review p _ _ => exact hother .refundRequests (by decide) (by simp [Write.table])
  | charge seen g _ _ _ _ => exact hother .gatewayRefunds (by decide) (by simp [Write.table])
  | paid seen g txn _ _ _ _ transferred _ =>
      refine .same fun t ht => ?_
      rw [postgres.applyAll_append, applyAll_single, apply_update_other (hapart t ht).2.1]
      exact transferred.other (hapart t ht).2.2.2.1
  | failed seen message _ _ => exact hother .refundRequests (by decide) (by simp [Write.table])
  | processed seen _ _ _ => exact hother .refundRequests (by decide) (by simp [Write.table])
  | chargeback config req data r _ _ _ delivery _ =>
      exact .same fun t ht => AuthorizeNetWebhookController.delivery_other delivery (hapart t ht).2.2.2.2
  | submitted e _ => exact hother .disputeEvidence (by decide) (by simp [Write.table])
  | evidence id evidence _ _ => exact hother .disputes (by decide) (by simp [Write.table])
  | outcome seen o fee now txn _ _ transferred _ =>
      refine .same fun t ht => ?_
      rw [postgres.applyAll_append, applyAll_single, apply_update_other (hapart t ht).2.2.1]
      exact transferred.other (hapart t ht).2.2.2.1

/-- What an operation is to move stays so. -/
theorem Operation.Moves.later (h : op.Moves user n db) (hle : schema.le db db')
    (hlater : Later db db') : op.Moves user n db' := by
  cases op with
  | refund id call =>
      obtain ⟨r, hr, huser, hstatus, hn⟩ := h
      obtain ⟨r', hr', hadv⟩ := hlater id r hr
      have hsame := sameRequest_of_le hle hr hr'
      refine ⟨r', hr', hsame.userId.trans huser, hadv.reviewed hstatus, ?_⟩
      rw [hn, RefundRequest.credited, RefundRequest.credited, hsame.type, hsame.amount]
  | dispute id call =>
      obtain ⟨d, hd, huser, hn⟩ := h
      obtain ⟨d', hd', hsame⟩ := dispute_of_le hle hd
      exact ⟨d', hd', hsame.userId.trans huser, hn.trans hsame.amount.symm⟩
  | _ => exact h

end Steps

/-! ## Reasons -/

/-- One of the operations was to move this amount for this user under this key. -/
structure CreditReason {ι : Type} (ops : ι → Operation) (row : CreditTransaction) (db : Data) : Prop where
  reason : ∃ i src user, (ops i).creditSource? = some src ∧ row.idempotencyKey = some src.key ∧
    ownerOf db row = some user ∧ (ops i).Moves user row.amount db

section Reasons

variable {ι : Type} {ops : ι → Operation} {row : CreditTransaction} {db db' : Data} {ws : List RowWrite}

theorem CreditReason.later (h : CreditReason ops row db) (hv : schema.Valid db) (hle : schema.le db db')
    (hlater : Later db db') (hrow : row ∈ db .creditTransactions) : CreditReason ops row db' where
  reason := by
    obtain ⟨i, src, user, hsrc, hkey, howner, hmoves⟩ := h.reason
    exact ⟨i, src, user, hsrc, hkey, (ownerOf_of_le hv hle hrow).trans howner, hmoves.later hle hlater⟩

/-- Commits keep the reasons, and the new row has its own. -/
theorem Commit.creditReasons {i : ι} {old : List CreditTransaction} (h : Commit (ops i) db ws)
    (hv : schema.Valid db) (hfits : locking.fitsAll ws db)
    (hold : ∀ row ∈ db .creditTransactions, row ∈ old ∨ CreditReason ops row db) :
    ∀ row ∈ postgres.applyAll ws db .creditTransactions,
      row ∈ old ∨ CreditReason ops row (postgres.applyAll ws db) := by
  have hle := locking.le_applyAll ws db
  have hkept : ∀ row ∈ db .creditTransactions,
      row ∈ old ∨ CreditReason ops row (postgres.applyAll ws db) := fun row hrow =>
    (hold row hrow).imp_right fun hreason => hreason.later hv hle h.later hrow
  cases h.credit with
  | same tables =>
      rw [tables _ (by decide)]
      exact hkept
  | changed src user n source moves change =>
      obtain ⟨row, hlog, howner, hamount, hkey⟩ := change.logged hfits
      rw [hlog]
      intro row' hrow'
      rcases List.mem_append.mp hrow' with hrow' | hrow'
      · exact hkept row' hrow'
      · obtain rfl := List.mem_singleton.mp hrow'
        subst hamount
        exact .inr ⟨i, src, user, source, hkey, howner, moves.later hle h.later⟩

end Reasons

/-! ## Runs -/

section Runs

variable {ι : Type} [DecidableEq ι] {ops : ι → Operation} {initial : String → Int}

/-- Commits keep balances and log in step. -/
theorem Commit.balancesKept {op : Operation} {db : Data} {ws : List RowWrite} (h : Commit op db ws)
    (hv : schema.Valid db) (hfits : locking.fitsAll ws db) (hkept : BalancesKept initial db) :
    BalancesKept initial (postgres.applyAll ws db) := by
  cases h.credit with
  | same tables =>
      have hcredits : postgres.applyAll ws db .credits = db .credits := tables _ (by decide)
      have hlog : postgres.applyAll ws db .creditTransactions = db .creditTransactions :=
        tables _ (by decide)
      refine ⟨?_, fun user => ?_⟩
      · rw [hcredits]
        exact hkept.nonneg
      · rw [← hkept.logged user]
        have hbalance : balanceOf user (postgres.applyAll ws db) = balanceOf user db := by
          rw [balanceOf, Schema.findBy, hcredits]
          rfl
        have hlogged : loggedTotal user (postgres.applyAll ws db) = loggedTotal user db := by
          simp only [loggedTotal, ownerOf, Schema.find, hcredits, hlog]
          rfl
        rw [initialBalance, hbalance, hlogged, initialBalance]
  | changed src user n _ _ change => exact hkept.commit hv hfits change

end Runs

end PaymentBilling
