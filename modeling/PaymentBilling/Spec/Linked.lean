import PaymentBilling.Spec.Chargebacks
import PaymentBilling.Spec.Ownership
import PaymentBilling.Spec.Refunds

/-!
# Spec.Linked

Disputes that point to the reversal of their charge.

A chargeback is about the dispute of its charge, whoever that belongs to.  When
there is one, the charge is reversed and the dispute points to the reversal; so
the chargeback of another user finds nothing left to write.
-/

namespace PaymentBilling

open Relational Transact AuthorizeNetWebhookController

/-- The dispute points to the reversal of its charge. -/
def Reversed (db : Data) (d : Dispute) : Prop :=
  ∃ transactionId, d.gatewayDisputeId = gatewayDisputeKey transactionId ∧
    ∃ txn ∈ db .ledgerTransactions, txn.idempotencyKey = some (reversalKey transactionId) ∧
      d.ledgerReversalTxnId = some txn.id

/-- Every dispute does. -/
def Linked (db : Data) : Prop := ∀ d ∈ db .disputes, Reversed db d

section Linked

variable {db db' : Data} {d d' : Dispute} {ws : List RowWrite} {user : String}

/-- A patch of a dispute that keeps what it points to. -/
def KeepsReversal (p : DisputePatch) : Prop :=
  ∀ d, (p.apply d).ledgerReversalTxnId = d.ledgerReversalTxnId

/-- Ledger transactions stay as they are. -/
theorem mem_ledgerTransactions_of_le {txn : LedgerTransaction} (hv : schema.Valid db)
    (hle : schema.le db db') (h : txn ∈ db .ledgerTransactions) : txn ∈ db' .ledgerTransactions := by
  obtain ⟨txn', htxn', hfix⟩ := hle _ _ _ (hv.find_of_mem h)
  have hsame : txn' = txn := hfix
  exact hsame ▸ Schema.mem_of_find htxn'

theorem Reversed.mono (h : Reversed db d) (hv : schema.Valid db) (hle : schema.le db db')
    (hgateway : d'.gatewayDisputeId = d.gatewayDisputeId)
    (hlink : d'.ledgerReversalTxnId = d.ledgerReversalTxnId) : Reversed db' d' := by
  obtain ⟨transactionId, hkey, txn, hmem, htxn, hlinked⟩ := h
  exact ⟨transactionId, hgateway.trans hkey, txn, mem_ledgerTransactions_of_le hv hle hmem, htxn,
    hlink.trans hlinked⟩

/-- Without disputes there is nothing to link. -/
theorem linked_of_none (h : db .disputes = []) : Linked db := by
  intro d hd
  rw [h] at hd
  cases hd

theorem Linked.of_same (h : Linked db) (hv : schema.Valid db) (hle : schema.le db db')
    (hsame : db' .disputes = db .disputes) : Linked db' := by
  intro d hd
  rw [hsame] at hd
  exact (h d hd).mono hv hle rfl rfl

theorem Linked.of_patch {id : String} {p : DisputePatch} (h : Linked db) (hv : schema.Valid db)
    (hle : schema.le db db') (hp : KeepsReversal p)
    (hd : db' .disputes = (db .disputes).map (schema.revise (t := .disputes) id p)) : Linked db' := by
  intro d hmem
  rw [hd] at hmem
  obtain ⟨old, hold, rfl⟩ := List.mem_map.mp hmem
  have hsame : SameDispute old (schema.revise (t := .disputes) id p old) := .of_fixed (by simp)
  refine (h old hold).mono hv hle hsame.gatewayDisputeId ?_
  by_cases hid : schema.id old = id
  · rw [← hid, Schema.revise_self]
    exact hp old
  · rw [Schema.revise_of_ne hid]

theorem keepsReversal_resolve (status : DisputeStatus) (now : Int) :
    KeepsReversal (.resolve status now) := fun _ => rfl

theorem keepsReversal_evidenceSubmitted : KeepsReversal .evidenceSubmitted := fun _ => rfl

/-- Where no owned row and no account is written, nobody is touched. -/
theorem untouched_of_same (hv : schema.Valid db) (hle : schema.le db db')
    (howned : ∀ t ∈ ownedTables, db' t = db t) (hledger : db' .ledgerAccounts = db .ledgerAccounts) :
    Untouched user db db' where
  rows t := rowsOf_of_same hv hle (howned t)
  asset := accountBalance_of_same hledger

end Linked

/-! ## Steps for a user -/

/-- A step that is made for the users in `U`. -/
structure Serves (U : String → Prop) (db db' : Data) : Prop where
  linked : Linked db'
  untouched : ∀ user, ¬U user → Untouched user db db'

section Serves

variable {U : String → Prop} {db db' : Data} {ws : List RowWrite}

theorem serves_personal (h : Personal U ws db) (hv : schema.Valid db) (hfits : locking.fitsAll ws db)
    (hlinked : Linked db) : Serves U db (postgres.applyAll ws db) where
  linked := hlinked.of_same hv (locking.le_applyAll ws db) (h.other (.head _))
  untouched _ hu := h.untouched hv hfits hu

/-- The row is still there. -/
def Stays (t : Table) (row : Row t) (db : Data) : Prop :=
  ∃ r, schema.find t (schema.id row) db = some r ∧ schema.fixed r = schema.fixed row

theorem Stays.mono {t : Table} {row : Row t} (h : Stays t row db) (hle : schema.le db db') :
    Stays t row db' := by
  obtain ⟨r, hr, hfix⟩ := h
  obtain ⟨r', hr', hfix'⟩ := hle _ _ _ hr
  exact ⟨r', hr', hfix'.trans hfix⟩

theorem disputePatch_concerns {d : Dispute} {p : DisputePatch} (hU : U d.userId)
    (hd : Stays .disputes d db) : Concerns U db (.update .disputes d.id p) := by
  intro _
  obtain ⟨d', hfind, hfix⟩ := hd
  exact ⟨d', hfind, d'.userId, rfl, (SameDispute.of_fixed hfix).userId ▸ hU⟩

/-- The update of a request is about its owner. -/
theorem refundPatch_personal {r : RefundRequest} {p : RefundPatch} (h : Stays .refundRequests r db)
    (hU : U r.userId) : Personal U [.update .refundRequests r.id p] db := by
  obtain ⟨r', hfind, hfix⟩ := h.mono (locking.le_applyAll [.update .refundRequests r.id p] db)
  refine List.forall_mem_singleton.mpr ⟨fun _ => ⟨r', hfind, r'.userId, rfl, ?_⟩,
    (by decide : Table.refundRequests ∉ .disputes :: ledgerTables)⟩
  exact (SameRequest.of_fixed hfix).userId ▸ hU

/-- The update of a dispute of a user. -/
theorem untouched_disputePatch {d : Dispute} {p : DisputePatch} {user : String}
    (hv : schema.Valid db) (hfits : locking.fitsAll [.update .disputes d.id p] db)
    (hd : Stays .disputes d db) (hu : user ≠ d.userId) :
    Untouched user db (schema.apply (.update .disputes d.id p) db) := by
  have hconcerns : Concerns (· = d.userId) db (.update .disputes d.id p) :=
    disputePatch_concerns rfl hd
  refine untouched_of_concerns (U := (· = d.userId)) hv hfits ?_
    (List.forall_mem_singleton.mpr (by simp [Write.table])) hu
  exact List.forall_mem_singleton.mpr (hconcerns.mono (locking.le_applyAll _ db))

/-- A new dispute of a user. -/
theorem untouched_insertDispute {d : Dispute} {user : String} (hv : schema.Valid db)
    (hinsert : schema.accepts (.insert .disputes d) db) (hu : user ≠ d.userId) :
    Untouched user db (schema.apply (.insert .disputes d) db) := by
  have hfits : locking.fitsAll [.insert .disputes d] db := ⟨hinsert, trivial⟩
  have hconcerns : Concerns (· = d.userId) (postgres.applyAll [.insert .disputes d] db)
      (.insert .disputes d) := fun _ => ⟨d.userId, rfl, rfl⟩
  exact untouched_of_concerns (U := (· = d.userId)) hv hfits (List.forall_mem_singleton.mpr hconcerns)
    (List.forall_mem_singleton.mpr (by simp [Write.table])) hu

/-- A transfer between the account of a user and a system account. -/
theorem Transferred.serves {x : Transfer} {txn : LedgerTransaction} (h : Transferred x txn ws db)
    (hv : schema.Valid db) (hfits : locking.fitsAll ws db)
    (hentries : ∀ a b, ∀ e ∈ x.entries a b, e.accountId = a ∨ e.accountId = b)
    (hfirst : ∀ user, x.firstUser = .str user → x.firstType = .ASSET → U user)
    (hsecond : ∀ user, x.secondUser = .str user → x.secondType = .ASSET → U user)
    (hlinked : Linked db) : Serves U db (postgres.applyAll ws db) where
  linked := hlinked.of_same hv (locking.le_applyAll ws db) (h.other (by decide))
  untouched user hu := h.untouched hv hfits hentries
    (fun hmine => hu (hfirst user hmine.1 hmine.2)) fun hmine => hu (hsecond user hmine.1 hmine.2)

theorem Serves.refl (h : Linked db) : Serves U db db := ⟨h, fun user _ => .refl user db⟩

theorem Serves.trans {db₁ : Data} (h : Serves U db db₁) (h' : Serves U db₁ db') : Serves U db db' where
  linked := h'.linked
  untouched user hu := (h.untouched user hu).trans (h'.untouched user hu)

/-- The update of a dispute that keeps what it points to. -/
theorem disputePatch_serves {d : Dispute} {p : DisputePatch} (hv : schema.Valid db)
    (hfits : locking.fitsAll [.update .disputes d.id p] db) (hp : KeepsReversal p)
    (hd : Stays .disputes d db) (hU : U d.userId) (hlinked : Linked db) :
    Serves U db (schema.apply (.update .disputes d.id p) db) where
  linked := hlinked.of_patch hv (schema.le_apply _ db) hp Schema.apply_update_self
  untouched _ hu := untouched_disputePatch hv hfits hd fun he => hu (he ▸ hU)

/-- A transfer, and then the outcome of the dispute that it is about. -/
theorem outcome_serves {x : Transfer} {txn : LedgerTransaction} {d : Dispute} {p : DisputePatch}
    (hentries : ∀ a b, ∀ e ∈ x.entries a b, e.accountId = a ∨ e.accountId = b) (hv : schema.Valid db)
    (hfits : locking.fitsAll (ws ++ [.update .disputes d.id p]) db) (hp : KeepsReversal p)
    (h : Transferred x txn ws db)
    (hfirst : ∀ user, x.firstUser = .str user → x.firstType = .ASSET → U user)
    (hsecond : ∀ user, x.secondUser = .str user → x.secondType = .ASSET → U user)
    (hd : Stays .disputes d db) (hU : U d.userId) (hlinked : Linked db) :
    Serves U db (postgres.applyAll (ws ++ [.update .disputes d.id p]) db) := by
  rw [locking.fitsAll_append] at hfits
  rw [postgres.applyAll_append]
  have hserved := h.serves hv hfits.1 hentries hfirst hsecond hlinked
  exact hserved.trans (disputePatch_serves (locking.valid_applyAll hfits.1 hv) hfits.2 hp
    (hd.mono (locking.le_applyAll ws db)) hU hserved.linked)

/-- The transaction of a transfer is there after it, under its key. -/
theorem Transferred.recorded {x : Transfer} {txn : LedgerTransaction} {k : String}
    (h : Transferred x txn ws db) (hv : schema.Valid db) (hfits : locking.fitsAll ws db)
    (hk : x.key = some k) :
    txn ∈ postgres.applyAll ws db .ledgerTransactions ∧ txn.idempotencyKey = some k := by
  rcases h.transactions hv hfits with ⟨hsame, -, hmem, k', hk', htxn⟩ | ⟨hnew, htxn, -⟩
  · rw [hsame]
    exact ⟨hmem, htxn.trans (hk'.symm.trans hk)⟩
  · rw [hnew]
    exact ⟨List.mem_append_right _ (.head _), htxn.trans hk⟩

end Serves

/-! ## Chargebacks -/

section Chargebacks

variable {U : String → Prop} {data : AuthorizeNetData} {r : Option Dispute} {ws : List RowWrite}
  {db : Data}

theorem chargebackTransfer_entries (data : AuthorizeNetData) (a b : String) :
    ∀ e ∈ (chargebackTransfer data).entries a b, e.accountId = a ∨ e.accountId = b := by
  intro e he
  simp only [chargebackTransfer, chargebackEntries, List.mem_cons, List.not_mem_nil, or_false] at he
  rcases he with rfl | rfl
  · exact .inr rfl
  · exact .inl rfl

/-- A dispute that is there already is left as it is, whoever it belongs to. -/
theorem relink_serves {d d' : Dispute} {txn : LedgerTransaction} (hv : schema.Valid db)
    (hfits : locking.fitsAll
      (ws ++ [.update .disputes d.id (DisputePatch.ledgerReversalTxnId txn.id)]) db)
    (hlinked : Linked db) (hgate : d.gatewayDisputeId = gatewayDisputeKey data.transactionId.text)
    (hfind : schema.find .disputes d.id db = some d') (hsame : SameDispute d d')
    (h : Transferred (chargebackTransfer data) txn ws db)
    (hU : ∀ user, data.userId = .str user → U user) :
    Serves U db (postgres.applyAll
      (ws ++ [.update .disputes d.id (DisputePatch.ledgerReversalTxnId txn.id)]) db) := by
  rw [locking.fitsAll_append] at hfits
  have hserved : Serves U db (postgres.applyAll ws db) :=
    h.serves hv hfits.1 (chargebackTransfer_entries data) (fun user huser _ => hU user huser)
      (fun _ _ => nofun) hlinked
  have hv₁ : schema.Valid (postgres.applyAll ws db) := locking.valid_applyAll hfits.1 hv
  have hdisputes : postgres.applyAll ws db .disputes = db .disputes := h.other (by decide)
  -- the transfer found the transaction that the dispute points to
  have hpoints : d'.ledgerReversalTxnId = some txn.id := by
    obtain ⟨transactionId, hkey, txn', hmem, htxn', hlink⟩ := hlinked d' (Schema.mem_of_find hfind)
    have hid : transactionId = data.transactionId.text :=
      gatewayDisputeKey_inj (hkey.symm.trans (hsame.gatewayDisputeId.trans hgate))
    obtain ⟨hrecorded, htxn⟩ := h.recorded hv hfits.1 rfl
    have hsame' : txn' = txn := hv₁.eq_of_key (t := .ledgerTransactions)
      (k := .idempotencyKey (reversalKey data.transactionId.text))
      (mem_ledgerTransactions_of_le hv (locking.le_applyAll ws db) hmem) hrecorded
      (by simp [schema, htxn', hid]) (by simp [schema, htxn])
    rw [hlink, hsame']
  have hnothing : (db .disputes).map (schema.revise (t := .disputes) d.id
      (DisputePatch.ledgerReversalTxnId txn.id)) = db .disputes := by
    refine (List.map_congr_left fun row hrow => ?_).trans (List.map_id _)
    by_cases hid : schema.id row = d.id
    · have hrow' : row = d' := by
        have hfound := hv.find_of_mem hrow
        rw [hid, hfind] at hfound
        exact (Option.some.inj hfound).symm
      subst hrow'
      rw [← hid, Schema.revise_self]
      show DisputePatch.apply (.ledgerReversalTxnId txn.id) row = row
      simp only [DisputePatch.apply, ← hpoints]
    · exact Schema.revise_of_ne hid
  have hend : postgres.applyAll [.update .disputes d.id (DisputePatch.ledgerReversalTxnId txn.id)]
      (postgres.applyAll ws db) .disputes = postgres.applyAll ws db .disputes := by
    rw [applyAll_single, Schema.apply_update_self, hdisputes, hnothing]
  rw [postgres.applyAll_append]
  refine hserved.trans ⟨hserved.linked.of_same hv₁ (locking.le_applyAll _ _) hend, fun user _ => ?_⟩
  refine untouched_of_same hv₁ (locking.le_applyAll _ _) (fun t _ => ?_) ?_
  · by_cases ht : t = .disputes
    · subst ht
      exact hend
    · exact apply_update_other ht _ _ _
  · exact applyAll_other (List.forall_mem_singleton.mpr (by simp [Write.table]))

/-- A new dispute is reversed and points to its reversal. -/
theorem open_serves {d : Dispute} {txn : LedgerTransaction} {db₁ db₂ : Data} (hv : schema.Valid db)
    (hinsert : schema.accepts (.insert .disputes d) db) (hdb₁ : db₁ = schema.apply (.insert .disputes d) db)
    (hws : locking.fitsAll ws db₁) (hdb₂ : db₂ = postgres.applyAll ws db₁)
    (hupdate : locking.fitsAll [.update .disputes d.id (DisputePatch.ledgerReversalTxnId txn.id)] db₂)
    (hlinked : Linked db) (hgate : d.gatewayDisputeId = gatewayDisputeKey data.transactionId.text)
    (hopened : Opened data d) (h : Transferred (chargebackTransfer data) txn ws db₁)
    (hU : ∀ user, data.userId = .str user → U user) :
    Serves U db (schema.apply (.update .disputes d.id (DisputePatch.ledgerReversalTxnId txn.id)) db₂) := by
  have hfree : schema.find .disputes d.id db = none := (Schema.accepts_insert.mp hinsert).2.1
  have hv₁ : schema.Valid db₁ := hdb₁ ▸ hv.apply hinsert
  have hv₂ : schema.Valid db₂ := hdb₂ ▸ locking.valid_applyAll hws hv₁
  have hle₁ : schema.le db db₁ := hdb₁ ▸ schema.le_apply _ _
  have hle₂ : schema.le db₁ db₂ := hdb₂ ▸ locking.le_applyAll ws db₁
  have hle₃ := schema.le_apply (.update .disputes d.id (DisputePatch.ledgerReversalTxnId txn.id)) db₂
  have hdisputes : db₂ .disputes = db .disputes ++ [d] := by
    rw [hdb₂, h.other (by decide), hdb₁, Schema.apply_insert_self]
  constructor
  · intro row hrow
    rw [Schema.apply_update_self, hdisputes, List.map_append, List.mem_append] at hrow
    rcases hrow with hrow | hrow
    · obtain ⟨old, hold, rfl⟩ := List.mem_map.mp hrow
      rw [Schema.revise_of_ne (Schema.ne_of_find_none hfree old hold)]
      exact (hlinked old hold).mono hv (schema.le_trans hle₁ (schema.le_trans hle₂ hle₃)) rfl rfl
    · rw [List.map_singleton, List.mem_singleton] at hrow
      obtain ⟨hrecorded, htxn⟩ := h.recorded hv₁ hws rfl
      have hrow' : row = DisputePatch.apply (.ledgerReversalTxnId txn.id) d :=
        hrow.trans Schema.revise_self
      refine ⟨data.transactionId.text, by rw [hrow']; exact hgate, txn, ?_, htxn, by rw [hrow']; rfl⟩
      rw [apply_update_other (by decide : Table.ledgerTransactions ≠ Table.disputes), hdb₂]
      exact hrecorded
  · intro user hu
    have hother : user ≠ d.userId := fun he => hu (he ▸ hU d.userId hopened.userId)
    have hinserted : Untouched user db db₁ := hdb₁ ▸ untouched_insertDispute hv hinsert hother
    have htransferred : Untouched user db₁ db₂ := by
      rw [hdb₂]
      exact h.untouched hv₁ hws (chargebackTransfer_entries data)
        (fun hmine => hu (hU user hmine.1)) nofun
    have hfound : schema.find .disputes d.id db₂ = some d := by
      refine hv₂.find_of_mem ?_
      rw [hdisputes]
      exact List.mem_append_right _ (.head _)
    exact hinserted.trans (htransferred.trans
      (untouched_disputePatch hv₂ hupdate ⟨d, hfound, rfl⟩ hother))

/-- What the delivery of a chargeback commits is its user's. -/
theorem delivery_serves (hx : (deliveryEffect data).rel r ws db) (hv : schema.Valid db)
    (hfits : locking.fitsAll ws db) (hlinked : Linked db)
    (hU : ∀ user, data.userId = .str user → U user) : Serves U db (postgres.applyAll ws db) := by
  obtain ⟨_, ws₀, ws', rfl, hrecord, d, ws₁, rest, rfl, ⟨hgate, hopened⟩, hrest⟩ := hx
  have hrecord : ∀ w ∈ ws₀, w.table = .processedWebhooks := hrecord
  rw [locking.fitsAll_append] at hfits
  have hrecorded : Serves U db (postgres.applyAll ws₀ db) := by
    refine serves_personal (personal_of_table fun w hw => ?_) hv hfits.1 hlinked
    rw [hrecord w hw]
    decide
  have hv₀ : schema.Valid (postgres.applyAll ws₀ db) := locking.valid_applyAll hfits.1 hv
  rw [postgres.applyAll_append]
  refine hrecorded.trans ?_
  rcases hopened with ⟨rfl, d', hfind, hsame⟩ | ⟨rfl, hnew⟩
  · beta_reduce at hrest
    split at hrest
    · obtain ⟨-, rfl⟩ := hrest
      exact .refl hrecorded.linked
    · obtain ⟨response, ws₂, _, rfl, htransfer, -, rfl⟩ := hrest
      exact relink_serves hv₀ hfits.2 hrecorded.linked hgate hfind hsame (transferred_of_rel htransfer) hU
  · beta_reduce at hrest
    split at hrest
    · next hreversed =>
      rw [hnew.unreversed] at hreversed
      cases hreversed
    · obtain ⟨response, ws₂, _, rfl, htransfer, -, rfl⟩ := hrest
      obtain ⟨hinsert, hrest⟩ := locking.fitsAll_append.mp hfits.2
      obtain ⟨htransfer_fits, hupdate⟩ := locking.fitsAll_append.mp hrest
      rw [postgres.applyAll_append, postgres.applyAll_append]
      exact open_serves hv₀ hinsert.1 rfl htransfer_fits rfl hupdate hrecorded.linked hgate hnew
        (transferred_of_rel htransfer) hU

end Chargebacks

end PaymentBilling
