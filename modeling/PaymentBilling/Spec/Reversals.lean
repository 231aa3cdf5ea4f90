import PaymentBilling.Spec.CreditBooks
import PaymentBilling.Spec.DisputeBooks

/-!
# Spec.Reversals

What the chargebacks of one charge leave in the database: one dispute, one
reversal that it points to, and at most one deduction.

The unique name of the dispute is what keeps deliveries apart.  Whoever has
inserted or updated the dispute holds a lock until its transaction ends
(`DisputeLocked`), and takes the credits back before that.
-/

namespace PaymentBilling

open Relational Transact AuthorizeNetWebhookController

/-- The key of the deduction for a charge. -/
def chargebackCreditKey (transactionId : String) : String := "chargeback_" ++ transactionId

/-- The dispute points to the reversal of the charge, which books its amount. -/
def HasReversal (transactionId : String) (d : Dispute) (db : Data) : Prop :=
  ∃ txn ∈ db .ledgerTransactions, d.ledgerReversalTxnId = some txn.id ∧
    txn.idempotencyKey = some (reversalKey transactionId) ∧
    List.Forall₂ (Fills db) (reversalSlots d) (entriesOf txn.id db)

/-- The charge is reversed as often as it is disputed, and its credits are
taken back at most once. -/
structure ReversedOnce (transactionId : String) (db : Data) : Prop where
  credits : LoggedOnce (chargebackCreditKey transactionId) db
  reversed : ∀ d ∈ db .disputes, d.gatewayDisputeId = gatewayDisputeKey transactionId →
    HasReversal transactionId d db
  unreversed : (∀ d ∈ db .disputes, d.gatewayDisputeId ≠ gatewayDisputeKey transactionId) →
    Unbooked (reversalKey transactionId) db

section Reversals

variable {transactionId : String} {db db' : Data} {d : Dispute} {data : AuthorizeNetData}
  {ws : List RowWrite}

theorem HasReversal.mono (h : HasReversal transactionId d db) (hle : locking.le db db')
    (htxns : ∀ t ∈ db .ledgerTransactions, t ∈ db' .ledgerTransactions)
    (hentries : ∀ t ∈ db .ledgerTransactions, entriesOf t.id db' = entriesOf t.id db) :
    HasReversal transactionId d db' := by
  obtain ⟨txn, htxn, hid, hk, hfills⟩ := h
  refine ⟨txn, htxns txn htxn, hid, hk, ?_⟩
  rw [hentries txn htxn]
  exact fills_mono hle hfills

/-- Changes of other tables. -/
theorem ReversedOnce.other (h : ReversedOnce transactionId db) (hle : locking.le db db')
    (hcredits : LoggedOnce (chargebackCreditKey transactionId) db')
    (hsame : ∀ t, t ∈ [Table.disputes, .ledgerTransactions, .ledgerEntries] → db' t = db t) :
    ReversedOnce transactionId db' where
  credits := hcredits
  reversed := by
    intro d hd hgate
    rw [hsame .disputes (by decide)] at hd
    refine (h.reversed d hd hgate).mono hle (fun t ht => ?_) fun t _ => ?_
    · rw [hsame .ledgerTransactions (by decide)]
      exact ht
    · rw [entriesOf, hsame .ledgerEntries (by decide), entriesOf]
  unreversed := by
    intro hnone
    rw [hsame .disputes (by decide)] at hnone
    rw [Unbooked, hsame .ledgerTransactions (by decide)]
    exact h.unreversed hnone

/-- The deduction of a chargeback that is not in the log yet. -/
theorem ReversedOnce.deduct {user : String} {n : Int} {key : Option String}
    (h : ReversedOnce transactionId db) (hfits : locking.fitsAll ws db)
    (hkey : ∀ k, key = some k → CreditsService.Unlogged k db)
    (hchange : CreditChange user n key ws db) :
    ReversedOnce transactionId (postgres.applyAll ws db) := by
  refine h.other (locking.le_applyAll _ _) (hchange.loggedOnce hfits hkey h.credits) fun t ht => ?_
  refine hchange.other ?_ ?_ <;> rintro rfl <;> revert ht <;> decide

theorem loggedOnce_of_other {key : String} (h : LoggedOnce key db)
    (hw : ∀ w ∈ ws, w.table ≠ .creditTransactions) : LoggedOnce key (postgres.applyAll ws db) := by
  rw [LoggedOnce, applyAll_other hw]
  exact h

/-- A dispute that is known gets the reversal that it has. -/
theorem ReversedOnce.again {txn : LedgerTransaction} (h : ReversedOnce transactionId db)
    (hv : schema.Valid db) (hfits : locking.fitsAll ws db)
    (htext : data.transactionId.text = transactionId) (hd : d ∈ db .disputes)
    (hgate : d.gatewayDisputeId = gatewayDisputeKey transactionId)
    (hx : Transferred (chargebackTransfer data) txn ws db) :
    ReversedOnce transactionId (postgres.applyAll (ws ++ [.update .disputes d.id
      (DisputePatch.ledgerReversalTxnId txn.id)]) db) := by
  have hkey : (chargebackTransfer data).key = some (reversalKey transactionId) := by
    rw [← htext]
    rfl
  rcases hx.transactions hv hfits with ⟨htxns, hentries, htxn, k, hk, htxnkey⟩ | ⟨-, -, hfresh, -⟩
  · have hk : reversalKey transactionId = k := Option.some.inj (hkey.symm.trans hk)
    rw [postgres.applyAll_append, applyAll_single]
    have hle : locking.le db (schema.apply (.update .disputes d.id
        (DisputePatch.ledgerReversalTxnId txn.id)) (postgres.applyAll ws db)) :=
      locking.le_trans (locking.le_applyAll _ _) (Schema.le_apply _ _)
    have hdisputes : postgres.applyAll ws db .disputes = db .disputes := hx.other (by decide)
    refine ⟨?_, fun d₂ hd₂ hgate₂ => ?_, fun hnone => ?_⟩
    · rw [LoggedOnce, apply_update_other (by decide), hx.other (by decide)]
      exact h.credits
    · rw [Schema.apply_update_self, hdisputes] at hd₂
      obtain ⟨d₁, hd₁, rfl⟩ := List.mem_map.mp hd₂
      have hsame : SameDispute d₁ (schema.revise (t := .disputes) d.id
          (DisputePatch.ledgerReversalTxnId txn.id) d₁) := .of_fixed (by simp)
      rw [hsame.gatewayDisputeId] at hgate₂
      obtain ⟨txn', htxn', hid', hkey', hfills'⟩ := (h.reversed d₁ hd₁ hgate₂).mono hle
        (fun t ht => by rw [apply_update_other (by decide), htxns]; exact ht)
        fun t _ => by
          rw [entriesOf, apply_update_other (by decide)]
          exact hentries t.id
      -- there is one transaction with the key
      have hsame' : txn' = txn := by
        rw [apply_update_other (by decide), htxns] at htxn'
        refine hv.eq_of_key (k := .idempotencyKey (reversalKey transactionId)) htxn' htxn ?_ ?_
        · simp [schema, hkey']
        · simp [schema, htxnkey, hk]
      refine ⟨txn', htxn', ?_, hkey', ?_⟩
      · by_cases hid : d₁.id = d.id
        · rw [← hid, show schema.revise (t := .disputes) d₁.id
            (DisputePatch.ledgerReversalTxnId txn.id) d₁ = _ from Schema.revise_self, hsame']
          rfl
        · rw [show schema.revise (t := .disputes) d.id
            (DisputePatch.ledgerReversalTxnId txn.id) d₁ = d₁ from Schema.revise_of_ne hid]
          exact hid'
      · rw [hsame.reversalSlots_eq]
        exact hfills'
    · rw [Schema.apply_update_self, hdisputes] at hnone
      refine (hnone _ (List.mem_map_of_mem hd) ?_).elim
      have hsame : SameDispute d (schema.revise (t := .disputes) d.id
          (DisputePatch.ledgerReversalTxnId txn.id) d) := .of_fixed (by simp)
      rw [hsame.gatewayDisputeId]
      exact hgate
  · obtain ⟨txn', htxn', -, hkey', -⟩ := h.reversed d hd hgate
    exact (hfresh _ hkey txn' htxn' hkey').elim

/-- A dispute that is new gets a reversal of its own. -/
theorem ReversedOnce.create {txn : LedgerTransaction} (h : ReversedOnce transactionId db)
    (hv : schema.Valid db) (hfits : locking.fitsAll (.insert .disputes d :: ws) db)
    (htext : data.transactionId.text = transactionId) (hnew : Opened data d)
    (hgate : d.gatewayDisputeId = gatewayDisputeKey transactionId)
    (hx : Transferred (chargebackTransfer data) txn ws (schema.apply (.insert .disputes d) db)) :
    ReversedOnce transactionId (postgres.applyAll (.insert .disputes d :: ws ++ [.update .disputes d.id
      (DisputePatch.ledgerReversalTxnId txn.id)]) db) := by
  have haccepts : schema.accepts (.insert .disputes d) db := hfits.1
  obtain ⟨-, hfreshId, hfreshKey, -⟩ := Schema.accepts_insert.mp haccepts
  have hv₀ : schema.Valid (schema.apply (.insert .disputes d) db) := Schema.Valid.apply haccepts hv
  have hother : ∀ {t : Table}, t ≠ .disputes → schema.apply (.insert .disputes d) db t = db t :=
    fun ht => apply_insert_other ht _ _
  -- no dispute has the name, so the charge has no reversal
  have hnone : ∀ d₀ ∈ db .disputes, d₀.gatewayDisputeId ≠ gatewayDisputeKey transactionId := by
    intro d₀ hd₀ he
    refine Schema.ne_of_findBy_none (hfreshKey (.gatewayDisputeId d.gatewayDisputeId)
      (by simp [schema])) d₀ hd₀ ?_
    simp [schema, hgate, he]
  have hkey : (chargebackTransfer data).key = some (reversalKey transactionId) := by
    rw [← htext]
    rfl
  rw [List.cons_append, Engine.applyAll_cons, postgres.applyAll_append, applyAll_single]
  show ReversedOnce transactionId (schema.apply (.update .disputes d.id
    (DisputePatch.ledgerReversalTxnId txn.id))
      (postgres.applyAll ws (schema.apply (.insert .disputes d) db)))
  have hdisputes : postgres.applyAll ws (schema.apply (.insert .disputes d) db) .disputes =
      db .disputes ++ [d] := by
    rw [hx.other (by decide), Schema.apply_insert_self]
  rcases hx.posted hv₀ hfits.2 with hunposted | ⟨-, hposted⟩
  · obtain ⟨k, hk, t, ht, hkt⟩ := hunposted.known
    obtain rfl : k = reversalKey transactionId := Option.some.inj (hk.symm.trans hkey)
    rw [hother (by decide)] at ht
    exact (h.unreversed hnone t ht hkt).elim
  · have hposted := hposted _ (chargebackTransfer_slots hnew.userId hnew.amount)
    refine ⟨?_, fun d₂ hd₂ hgate₂ => ?_, fun hnone₂ => ?_⟩
    · rw [LoggedOnce, apply_update_other (by decide), hx.other (by decide), hother (by decide)]
      exact h.credits
    · rw [Schema.apply_update_self, hdisputes] at hd₂
      obtain ⟨d₁, hd₁, rfl⟩ := List.mem_map.mp hd₂
      rcases List.mem_append.mp hd₁ with hd₁ | hd₁
      · have hne : schema.id (t := .disputes) d₁ ≠ d.id := Schema.ne_of_find_none hfreshId d₁ hd₁
        rw [Schema.revise_of_ne hne] at hgate₂
        exact (hnone d₁ hd₁ hgate₂).elim
      · obtain rfl := List.mem_singleton.mp hd₁
        have hself : schema.revise (t := .disputes) d₁.id
            (DisputePatch.ledgerReversalTxnId txn.id) d₁ =
              { d₁ with ledgerReversalTxnId := some txn.id } := Schema.revise_self
        rw [hself]
        refine ⟨txn, ?_, rfl, ?_, ?_⟩
        · rw [apply_update_other (by decide), hposted.transactions]
          exact List.mem_append_right _ (.head _)
        · rw [hposted.key_eq, hkey]
        · rw [entriesOf, apply_update_other (by decide)]
          exact fills_mono (Schema.le_apply _ _) hposted.filled
    · rw [Schema.apply_update_self, hdisputes] at hnone₂
      refine (hnone₂ _ (List.mem_map_of_mem (List.mem_append_right _ (.head _))) ?_).elim
      have hsame : SameDispute d (schema.revise (t := .disputes) d.id
          (DisputePatch.ledgerReversalTxnId txn.id) d) := .of_fixed (by simp)
      rw [hsame.gatewayDisputeId]
      exact hgate

/-- The commit of a delivery. -/
theorem ReversedOnce.deliver {r : Option Dispute} (h : ReversedOnce transactionId db)
    (hv : schema.Valid db) (hfits : locking.fitsAll ws db)
    (htext : data.transactionId.text = transactionId) (hx : (deliveryEffect data).rel r ws db) :
    ReversedOnce transactionId (postgres.applyAll ws db) := by
  obtain ⟨_, ws₀, ws', rfl, hrecord, d, ws₁, rest, rfl, ⟨hgate, hopened⟩, hrest⟩ := hx
  rw [htext] at hgate
  have hrecord : ∀ w ∈ ws₀, w.table = .processedWebhooks := hrecord
  have hother : ∀ {t : Table}, t ≠ .processedWebhooks → postgres.applyAll ws₀ db t = db t :=
    fun ht => applyAll_other fun w hw he => ht (he ▸ hrecord w hw)
  have h₀ : ReversedOnce transactionId (postgres.applyAll ws₀ db) := by
    refine h.other (locking.le_applyAll _ _) (loggedOnce_of_other h.credits fun w hw => ?_)
      fun t ht => hother ?_
    · rw [hrecord w hw]
      decide
    · rintro rfl
      revert ht
      decide
  rw [locking.fitsAll_append] at hfits
  have hv₀ : schema.Valid (postgres.applyAll ws₀ db) := locking.valid_applyAll hfits.1 hv
  rw [postgres.applyAll_append]
  beta_reduce at hrest
  split at hrest
  · next hreversed =>
    obtain ⟨-, rfl⟩ := hrest
    rcases hopened with ⟨rfl, -⟩ | ⟨rfl, hnew⟩
    · exact h₀
    · rw [hnew.unreversed] at hreversed
      cases hreversed
  · obtain ⟨response, ws₂, _, rfl, htransfer, -, rfl⟩ := hrest
    have hx := transferred_of_rel htransfer
    rw [← List.append_assoc, locking.fitsAll_append] at hfits
    rcases hopened with ⟨rfl, d', hfind, hsame⟩ | ⟨rfl, hnew⟩
    · have hid : d'.id = d.id := hsame.id
      rw [← hid]
      exact h₀.again hv₀ hfits.2.1 htext (Schema.mem_of_find hfind)
        (hsame.gatewayDisputeId.trans hgate) hx
    · exact h₀.create hv₀ hfits.2.1 htext hnew hgate hx

end Reversals

end PaymentBilling
