import PaymentBilling.Spec.Disputes
import PaymentBilling.Spec.Handlers

/-!
# Spec.Chargebacks

The delivery of a chargeback, under any protocol.

One transaction records the event, opens the dispute unless it is known, posts
the reversal of the charge and points the dispute to it.  The credits are taken
back in a transaction of their own, before the outer one ends.
-/

namespace PaymentBilling

open Relational Transact

/-- The key of the reversal of a charge. -/
def reversalKey (transactionId : String) : String :=
  "chargeback_" ++ transactionId ++ "_reversal_ledger"

/-- The gateway's name for the dispute about a charge. -/
def gatewayDisputeKey (transactionId : String) : String := "an_dispute_" ++ transactionId

theorem reversalKey_inj {transactionId transactionId' : String}
    (h : reversalKey transactionId = reversalKey transactionId') :
    transactionId = transactionId' := by
  have hchars := congrArg String.toList h
  simp [reversalKey] at hchars
  exact String.toList_inj.mp hchars

/-- The name of a chargeback. -/
theorem EventType.eq_of_chargeback {type : Js} (h : EventType.ofJs type = .chargebackReceived) :
    type = .str "chargeback.received" := by
  unfold EventType.ofJs at h
  split at h
  · next s =>
    by_cases hs : s = "chargeback.received"
    · rw [hs]
    · rw [if_neg hs] at h
      repeat' split at h
      all_goals cases h
  · cases h

/-- The families of keys are apart. -/
theorem reversalKey_ne_outcomeKey {transactionId id : String} {outcome : DisputeOutcome} :
    reversalKey transactionId ≠ outcomeKey id outcome := by
  intro h
  have hchars := congrArg String.toList h
  cases outcome <;> simp [reversalKey, outcomeKey] at hchars

theorem gatewayDisputeKey_inj {transactionId transactionId' : String}
    (h : gatewayDisputeKey transactionId = gatewayDisputeKey transactionId') :
    transactionId = transactionId' := by
  have hchars := congrArg String.toList h
  simp [gatewayDisputeKey] at hchars
  exact String.toList_inj.mp hchars

theorem reversalKey_ne (transactionId : String) : reversalKey transactionId ≠ "" :=
  append_ne (append_ne (by decide))

namespace AuthorizeNetWebhookController

/-- The ledger transaction of a chargeback. -/
def chargebackTransfer (data : AuthorizeNetData) : Transfer where
  firstUser := data.userId
  firstType := .ASSET
  secondUser := .str LedgerService.SYSTEM_USER_ID
  secondType := .REVENUE
  key := some (reversalKey data.transactionId.text)
  entries a b := chargebackEntries a b data.amount

/-- A dispute that the event opens. -/
structure Opened (data : AuthorizeNetData) (d : Dispute) : Prop where
  userId : data.userId = .str d.userId
  originalTransactionId : data.transactionId = .str d.originalTransactionId
  amount : data.amount = .int d.amount
  status : d.status = .OPEN
  unreversed : d.ledgerReversalTxnId = none

/-- A dispute is found, or opened. -/
def disputeEffect (data : AuthorizeNetData) : Effect locking Dispute where
  rel d ws db := d.gatewayDisputeId = gatewayDisputeKey data.transactionId.text ∧
    ((ws = [] ∧ ∃ d', schema.find .disputes d.id db = some d' ∧ SameDispute d d') ∨
      (ws = [.insert .disputes d] ∧ Opened data d))
  stable := by
    rintro d ws db db' - - hle ⟨hgateway, ⟨rfl, d', hd', hsame⟩ | h⟩
    · obtain ⟨d'', hd'', hsame'⟩ := dispute_of_le hle hd'
      exact ⟨hgateway, .inl ⟨rfl, d'', hd'', hsame'.id.trans hsame.id, hsame'.userId.trans hsame.userId,
        hsame'.gatewayDisputeId.trans hsame.gatewayDisputeId,
        hsame'.originalTransactionId.trans hsame.originalTransactionId,
        hsame'.amount.trans hsame.amount⟩⟩
    · exact ⟨hgateway, .inr h⟩

/-- What follows for a dispute that points to no reversal. -/
def reversalEffect (data : AuthorizeNetData) (d : Dispute) : Effect locking Unit :=
  (transferEffect (chargebackTransfer data)).bind fun response =>
    Effect.bind (α := Unit)
      (.exactly locking Unit [.update .disputes d.id
        (DisputePatch.ledgerReversalTxnId response.transaction.id)])
      fun _ => .writes locking fun w => w.table ∈ creditTables

/-- The effect of a chargeback on its transaction. -/
def chargebackEffect (data : AuthorizeNetData) : Effect locking Unit :=
  (disputeEffect data).bind fun d =>
    if (d.ledgerReversalTxnId.filter (· ≠ "")).isSome then .pure locking ()
    else reversalEffect data d

section Rules

variable {I : Data → Prop} (P : Protocol locking I) {past : List (Event Stmt Err)}

theorem does_createDispute (data : AuthorizeNetData) :
    P.Does past (DisputesService.createDispute
        { userId := data.userId, gateway := .AUTHORIZE_NET
          gatewayDisputeId := "an_dispute_" ++ data.transactionId.text
          originalTransactionId := data.transactionId, amount := data.amount
          reason := data.reason.or (.str "Chargeback received") })
      (disputeEffect data) := by
  let found : Effect locking (Option Dispute) :=
    { rel := fun found ws db => ws = [] ∧ ∀ d, found = some d →
        d.gatewayDisputeId = gatewayDisputeKey data.transactionId.text ∧
          ∃ d', schema.find .disputes d.id db = some d' ∧ SameDispute d d'
      stable := by
        rintro r ws db db' - - hle ⟨hws, hr⟩
        refine ⟨hws, fun d hd => ⟨(hr d hd).1, ?_⟩⟩
        obtain ⟨d', hd', hsame⟩ := (hr d hd).2
        obtain ⟨d'', hd'', hsame'⟩ := dispute_of_le hle hd'
        exact ⟨d'', hd'', hsame'.id.trans hsame.id, hsame'.userId.trans hsame.userId,
          hsame'.gatewayDisputeId.trans hsame.gatewayDisputeId,
          hsame'.originalTransactionId.trans hsame.originalTransactionId,
          hsame'.amount.trans hsame.amount⟩ }
  have hfound : P.Does past
      (query (.disputeFindByGateway ("an_dispute_" ++ data.transactionId.text))) found := by
    refine Protocol.does_exec fun env db r ws hv hx => ?_
    obtain ⟨rfl, rfl⟩ := exec_disputeFindByGateway hx
    refine ⟨rfl, fun d hd => ⟨?_, d, hv.find_of_mem (Schema.mem_of_findBy hd), rfl, rfl, rfl, rfl, rfl⟩⟩
    have hk := Schema.key_of_findBy hd
    simp only [schema, List.mem_singleton, UniqueKey.gatewayDisputeId.injEq] at hk
    exact hk.symm
  let opened : Effect locking Dispute :=
    { rel := fun d ws _ => ws = [.insert .disputes d] ∧ Opened data d ∧
        d.gatewayDisputeId = gatewayDisputeKey data.transactionId.text
      stable := fun _ _ _ h => h }
  refine Protocol.does_weaken (X := found.bind fun r => r.elim opened (.pure locking))
    (Protocol.does_bind hfound fun r => ?_) ?_
  · cases r with
    | some d => exact Protocol.does_pure d
    | none =>
        refine Protocol.does_exec fun env db d ws hv hx => ?_
        obtain ⟨user, txn, n, reason, huser, htxn, hn, -, rfl, hd⟩ := exec_disputeCreate hx
        refine ⟨rfl, ?_, by rw [hd]; rfl⟩
        rw [hd]
        exact ⟨huser, htxn, Js.int32?_eq_some hn, rfl, rfl⟩
  · rintro d ws db ⟨r, ws₁, ws₂, rfl, ⟨rfl, hr⟩, h⟩
    cases r with
    | some d' =>
        obtain ⟨rfl, rfl⟩ := h
        exact ⟨(hr _ rfl).1, .inl ⟨rfl, (hr _ rfl).2⟩⟩
    | none => exact ⟨h.2.2, .inr ⟨h.1, h.2.1⟩⟩

/-- The reversal of a charge posts a transfer and points the dispute to it. -/
theorem does_reverseCharge (data : AuthorizeNetData) (dispute : Dispute) :
    P.Does past (reverseCharge data dispute)
      ((transferEffect (chargebackTransfer data)).bind fun response =>
        Effect.exactly locking Unit [.update .disputes dispute.id
          (DisputePatch.ledgerReversalTxnId response.transaction.id)]) := by
  have hupdate : ∀ response : TransactionResponse,
      P.Does past (do
          let _ ← query (.disputeUpdate dispute.id (.ledgerReversalTxnId response.transaction.id))
          return ())
        (Effect.exactly locking Unit [.update .disputes dispute.id
          (DisputePatch.ledgerReversalTxnId response.transaction.id)]) := by
    intro response
    refine Protocol.does_map (X := Effect.exactly locking Dispute [.update .disputes dispute.id
      (DisputePatch.ledgerReversalTxnId response.transaction.id)])
      (Protocol.does_exec fun env db r ws _ hx => ?_) fun _ _ _ h => h
    obtain ⟨old, -, -, rfl⟩ := exec_disputeUpdate hx
    rfl
  exact does_transfer (x := chargebackTransfer data)
    (LedgerService.does_getOrCreateAssetAccount P _)
    (LedgerService.does_getOrCreateSystemAccount P _)
    (Option.filter_some_pos (decide_eq_true (reversalKey_ne _))) hupdate

/-- The reversal of a charge, and the deduction after it. -/
theorem does_reverse {data : AuthorizeNetData} {dispute : Dispute}
    (hcredits : ∀ c db ws, (∃ events, c.trace = events ++ past) →
      (∀ w ∈ ws, w.table ∈ creditTables) → locking.valid db → I db → locking.fitsAll ws db →
      P.Keeps c db (postgres.applyAll ws db)) :
    P.Does past (do reverseCharge data dispute; deductDisputed data dispute)
      (reversalEffect data dispute) := by
  refine Protocol.does_weaken (Protocol.does_bind (does_reverseCharge P data dispute) fun _ =>
    Protocol.does_only table_mem_of_writesIn hcredits (deductDisputed_only data dispute)) ?_
  rintro _ ws db ⟨_, _, ws₃, rfl, ⟨response, ws₁, ws₂, rfl, hx, hupdated⟩, hw⟩
  refine ⟨response, ws₁, ws₂ ++ ws₃, by rw [List.append_assoc], hx, (), ws₂, ws₃, rfl, hupdated, hw⟩

theorem does_chargebackReceived {data : AuthorizeNetData}
    (hcredits : ∀ c db ws, (∃ events, c.trace = events ++ past) →
      (∀ w ∈ ws, w.table ∈ creditTables) → locking.valid db → I db → locking.fitsAll ws db →
      P.Keeps c db (postgres.applyAll ws db)) :
    P.Does past (chargebackReceived data) (chargebackEffect data) := by
  refine Protocol.does_bind (does_createDispute P data) fun d => ?_
  split
  · exact Protocol.does_pure ()
  · exact does_reverse P hcredits

/-- The body of the transaction of a delivery: the record, then the effects. -/
theorem does_recordAndApply {event : AuthorizeNetEvent} {data : AuthorizeNetData}
    (htype : event.type = .str "chargeback.received") (hdata : event.data = some data)
    (hcredits : ∀ c db ws, (∃ events, c.trace = events ++ past) →
      (∀ w ∈ ws, w.table ∈ creditTables) → locking.valid db → I db → locking.fitsAll ws db →
      P.Keeps c db (postgres.applyAll ws db)) :
    P.Does past (do
        let _ ← query (.processedWebhookCreate event.eventId "authorize_net" event.type)
        applyEvent event.type event.data)
      ((Effect.writes (α := Unit) locking fun w => w.table = .processedWebhooks).bind fun _ =>
        chargebackEffect data) := by
  have happly : applyEvent event.type event.data = chargebackReceived data := by
    rw [htype, hdata]
    rfl
  rw [happly]
  refine Protocol.does_weaken (Protocol.does_bind
    (X := Effect.writes locking fun w => w.table = .processedWebhooks)
    (Protocol.does_exec fun env db r ws _ hx w hw => ?_)
    fun _ => does_chargebackReceived P hcredits) ?_
  · exact (Option.some.inj (table_of_exec hx w hw)).symm
  · rintro a ws db ⟨_, ws₁, ws₂, rfl, h₁, h₂⟩
    exact ⟨(), ws₁, ws₂, rfl, h₁, h₂⟩

/-- A delivery of a chargeback ends in the commit of its effect, or commits
nothing but credits. -/
theorem wp_handleChargeback {config : AuthorizeNetConfig} {req : AuthorizeNetRequest}
    {data : AuthorizeNetData} {trace : List (Event Stmt Err)} {db : Data}
    (htype : req.body.type = .str "chargeback.received") (hdata : req.body.data = some data)
    (hcredits : ∀ c db ws, (∃ events, c.trace = events ++ trace) →
      (∀ w ∈ ws, w.table ∈ creditTables) → locking.valid db → I db → locking.fitsAll ws db →
      P.Keeps c db (postgres.applyAll ws db))
    (hcommit : ∀ ws₁ ws₂ c db, (∃ events, c.trace = events ++ trace) → P.Sees c db db →
      locking.fitsAll (ws₁ ++ ws₂) db → (∀ w ∈ ws₁, w.table = .processedWebhooks) →
      (chargebackEffect data).rel () ws₂ (postgres.applyAll ws₁ db) →
      P.Keeps c db (postgres.applyAll (ws₁ ++ ws₂) db)) :
    P.wp (handleWebhook config req) (fun _ _ _ => True) ⟨[], trace⟩ db := by
  unfold handleWebhook
  split
  · trivial
  split
  · trivial
  rw [P.wp_bind]
  refine P.wp_exec_auto (fun _ _ _ => trivial) fun env found ws db₁ hs₁ hx => ?_
  obtain ⟨-, -, rfl, -⟩ := exec_processedWebhookFindUnique hx
  refine ⟨P.keeps_refl hs₁.inv, ?_⟩
  cases found with
  | some _ => trivial
  | none =>
      simp only [Protocol.bindPost_ok]
      rw [P.wp_tryCatch, P.wp_bind]
      refine Protocol.wp_transaction_of_does (does_recordAndApply P htype hdata ?_) ?_ ?_
      · intro c db ws hpast
        obtain ⟨events, he⟩ := hpast
        exact hcredits c db ws ⟨_, he.trans (List.append_cons ..)⟩
      · intro e c' db' _
        simp only [Protocol.bindPost_error]
        split <;> trivial
      · intro a t c' db' _ hpast _ hs hfits hx
        obtain ⟨events, he⟩ := hpast
        obtain ⟨_, ws₁, ws₂, hws, h₁, h₂⟩ := hx
        rw [hws] at hfits
        refine ⟨?_, trivial⟩
        rw [Engine.view, hws]
        exact hcommit ws₁ ws₂ c' db' ⟨_, he.trans (List.append_cons ..)⟩ hs hfits h₁ h₂

/-! ## The two parts of a chargeback -/

/-- The dispute and the reversal, in the transaction of the delivery: the
dispute whose credits are still to be taken back. -/
def openReversal (data : AuthorizeNetData) : Action (Option Dispute) := do
  let dispute ← DisputesService.createDispute
    { userId := data.userId, gateway := .AUTHORIZE_NET
      gatewayDisputeId := "an_dispute_" ++ data.transactionId.text
      originalTransactionId := data.transactionId, amount := data.amount
      reason := data.reason.or (.str "Chargeback received") }
  if (dispute.ledgerReversalTxnId.filter (· ≠ "")).isSome then return none
  else
    reverseCharge data dispute
    return some dispute

/-- The credits, in a transaction of their own. -/
def takeBack (data : AuthorizeNetData) : Option Dispute → Action Unit
  | some dispute => deductDisputed data dispute
  | none => return ()

/-- A chargeback writes in the transaction of the delivery first. -/
theorem chargebackReceived_eq (data : AuthorizeNetData) :
    chargebackReceived data = openReversal data >>= takeBack data := by
  rw [chargebackReceived, openReversal, Prog.bind_assoc]
  congr 1
  funext dispute
  split
  · rfl
  · rw [Prog.bind_assoc]
    rfl

theorem recordAndApply_eq {event : AuthorizeNetEvent} {data : AuthorizeNetData}
    (htype : event.type = .str "chargeback.received") (hdata : event.data = some data) :
    recordAndApply event = transaction ((query (.processedWebhookCreate event.eventId
      "authorize_net" event.type) >>= fun _ => openReversal data) >>= takeBack data) := by
  have happly : applyEvent event.type event.data = chargebackReceived data := by
    rw [htype, hdata]
    rfl
  rw [recordAndApply, happly, chargebackReceived_eq, Prog.bind_assoc]

theorem takeBack_only (data : AuthorizeNetData) (d : Option Dispute) :
    Only (WritesIn creditTables) (takeBack data d) 0 := by
  cases d with
  | none => exact only_pure ()
  | some d => exact deductDisputed_only data d

/-- The effect of the first part. -/
def openEffect (data : AuthorizeNetData) : Effect locking (Option Dispute) :=
  (disputeEffect data).bind fun d =>
    if (d.ledgerReversalTxnId.filter (· ≠ "")).isSome then .pure locking none
    else (transferEffect (chargebackTransfer data)).bind fun response =>
      { rel := fun r ws _ => r = some d ∧ ws = [.update .disputes d.id
          (DisputePatch.ledgerReversalTxnId response.transaction.id)]
        stable := fun _ _ _ h => h }

/-- The record of the event, and the first part. -/
def deliveryEffect (data : AuthorizeNetData) : Effect locking (Option Dispute) :=
  (Effect.writes (α := Unit) locking fun w => w.table = .processedWebhooks).bind fun _ =>
    openEffect data

/-- A delivery writes the record, the dispute and the ledger. -/
theorem delivery_other {data : AuthorizeNetData} {r : Option Dispute} {ws : List RowWrite} {db : Data}
    {t : Table} (hx : (deliveryEffect data).rel r ws db)
    (ht : t ∉ .processedWebhooks :: .disputes :: ledgerTables) : postgres.applyAll ws db t = db t := by
  simp only [List.mem_cons, not_or] at ht
  obtain ⟨_, ws₀, ws', rfl, hrecord, d, ws₁, rest, rfl, ⟨-, hopened⟩, hrest⟩ := hx
  have hrecord : ∀ w ∈ ws₀, w.table = .processedWebhooks := hrecord
  have hopen : ∀ w ∈ ws₁, w.table = .disputes := by
    rcases hopened with ⟨rfl, -⟩ | ⟨rfl, -⟩
    · exact List.forall_mem_nil _
    · exact List.forall_mem_singleton.mpr rfl
  have hother : ∀ db, postgres.applyAll ws₁ (postgres.applyAll ws₀ db) t = db t := fun db => by
    rw [applyAll_other fun w hw he => ht.2.1 (he.symm.trans (hopen w hw)),
      applyAll_other fun w hw he => ht.1 (he.symm.trans (hrecord w hw))]
  rw [postgres.applyAll_append, postgres.applyAll_append]
  beta_reduce at hrest
  split at hrest
  · obtain ⟨-, rfl⟩ := hrest
    exact hother db
  · obtain ⟨response, ws₂, _, rfl, htransfer, -, rfl⟩ := hrest
    rw [postgres.applyAll_append, applyAll_single, apply_update_other ht.2.1,
      (transferred_of_rel htransfer).other (by simpa using ht.2.2)]
    exact hother db

/-- A delivery that leaves the credits alone has written its record only. -/
theorem delivery_unopened {data : AuthorizeNetData} {ws : List RowWrite} {db : Data} {t : Table}
    (hx : (deliveryEffect data).rel none ws db) (ht : t ≠ .processedWebhooks) :
    postgres.applyAll ws db t = db t := by
  obtain ⟨_, ws₀, ws', rfl, hrecord, d, ws₁, rest, rfl, ⟨-, hopened⟩, hrest⟩ := hx
  have hrecord : ∀ w ∈ ws₀, w.table = .processedWebhooks := hrecord
  beta_reduce at hrest
  split at hrest
  · next hreversed =>
    obtain ⟨-, rfl⟩ := hrest
    rcases hopened with ⟨rfl, -⟩ | ⟨rfl, hnew⟩
    · refine applyAll_other fun w hw he => ht ?_
      rw [List.append_nil, List.append_nil] at hw
      rw [← he, hrecord w hw]
    · rw [hnew.unreversed] at hreversed
      cases hreversed
  · obtain ⟨response, ws₂, _, rfl, -, h, -⟩ := hrest
    cases h

/-- A delivery about a charge that nobody has disputed opens its dispute. -/
theorem delivery_opened {data : AuthorizeNetData} {r : Option Dispute} {ws : List RowWrite} {db : Data}
    (hundisputed : ∀ d ∈ db .disputes, d.gatewayDisputeId ≠ gatewayDisputeKey data.transactionId.text)
    (hfits : locking.fitsAll ws db) (hx : (deliveryEffect data).rel r ws db) :
    ∃ d₀, r = some d₀ ∧ Opened data d₀ ∧ (∀ d ∈ db .disputes, d.id ≠ d₀.id) ∧
      ∀ d ∈ postgres.applyAll ws db .disputes,
        d.gatewayDisputeId = gatewayDisputeKey data.transactionId.text → SameDispute d₀ d := by
  obtain ⟨_, ws₀, ws', rfl, hrecord, d₀, ws₁, rest, rfl, ⟨hgate, hopened⟩, hrest⟩ := hx
  have hrecord : ∀ w ∈ ws₀, w.table = .processedWebhooks := hrecord
  have hdisputes : postgres.applyAll ws₀ db .disputes = db .disputes :=
    applyAll_other fun w hw he => nomatch (he ▸ hrecord w hw : Table.disputes = .processedWebhooks)
  rcases hopened with ⟨rfl, d', hfind, hsame⟩ | ⟨rfl, hnew⟩
  · have hmem : d' ∈ db .disputes := hdisputes ▸ Schema.mem_of_find hfind
    exact (hundisputed d' hmem (hsame.gatewayDisputeId.trans hgate)).elim
  rw [locking.fitsAll_append] at hfits
  have hnone : ∀ d ∈ db .disputes, d.id ≠ d₀.id := by
    have hfree := (Schema.accepts_insert.mp hfits.2.1).2.1
    intro d hd
    exact Schema.ne_of_find_none hfree d (hdisputes ▸ hd)
  beta_reduce at hrest
  split at hrest
  · next hreversed =>
    rw [hnew.unreversed] at hreversed
    cases hreversed
  obtain ⟨response, ws₂, _, rfl, htransfer, rfl, rfl⟩ := hrest
  refine ⟨d₀, rfl, hnew, hnone, fun d hd hd_gate => ?_⟩
  rw [postgres.applyAll_append, postgres.applyAll_append, postgres.applyAll_append, applyAll_single,
    Schema.apply_update_self, (transferred_of_rel htransfer).other (by decide)] at hd
  obtain ⟨d₁, hd₁, rfl⟩ := List.mem_map.mp hd
  have hsame : SameDispute d₁ (schema.revise (t := .disputes) d₀.id
      (DisputePatch.ledgerReversalTxnId response.transaction.id) d₁) := .of_fixed (by simp)
  rw [applyAll_single, Schema.apply_insert_self, hdisputes, List.mem_append, List.mem_singleton] at hd₁
  rcases hd₁ with hd₁ | rfl
  · exact (hundisputed d₁ hd₁ (hsame.gatewayDisputeId.symm.trans hd_gate)).elim
  · exact hsame

theorem does_openReversal (data : AuthorizeNetData) :
    P.Does past (openReversal data) (openEffect data) := by
  refine Protocol.does_bind (does_createDispute P data) fun d => ?_
  split
  · exact Protocol.does_pure none
  · refine Protocol.does_map (does_reverseCharge P data d) ?_
    rintro _ ws db ⟨response, ws₁, ws₂, rfl, hx, rfl⟩
    exact ⟨response, ws₁, _, rfl, hx, rfl, rfl⟩

theorem does_delivery (event : AuthorizeNetEvent) (data : AuthorizeNetData) :
    P.Does past (query (.processedWebhookCreate event.eventId "authorize_net" event.type) >>= fun _ =>
      openReversal data) (deliveryEffect data) := by
  refine Protocol.does_weaken (Protocol.does_bind
    (X := Effect.writes locking fun w => w.table = .processedWebhooks)
    (Protocol.does_exec fun env db r ws _ hx w hw => ?_)
    fun _ => does_openReversal P data) ?_
  · exact (Option.some.inj (table_of_exec hx w hw)).symm
  · rintro a ws db ⟨_, ws₁, ws₂, rfl, h₁, h₂⟩
    exact ⟨(), ws₁, ws₂, rfl, h₁, h₂⟩

/-- A delivery of a chargeback in its two parts.  `K` is known of the database
until the credits are taken back, and `R` from then on. -/
theorem wp_deliverChargeback {config : AuthorizeNetConfig} {req : AuthorizeNetRequest}
    {data : AuthorizeNetData} {trace : List (Event Stmt Err)} {db : Data}
    {Q : Post Stmt Data RowWrite RowLock Err WebhookResponse} {K : Data → Prop}
    {R : Option Dispute → LocalState → Data → Prop}
    (htype : req.body.type = .str "chargeback.received") (hdata : req.body.data = some data)
    (hK : ∀ c' db₁ db₂, (∃ events, c'.trace = events ++ trace) → P.Sees c' db₁ db₂ → K db₁ → K db₂)
    (hk : K db)
    (hR : ∀ r c₁ c' db₁ db₂, (∃ events, c'.trace = events ++ c₁.trace) → P.Sees c' db₁ db₂ →
      R r c₁ db₁ → R r c₁ db₂)
    (hskip : ∀ c' db', Q (.ok { skipped := true }) c' db')
    (hthrow : ∀ e c' db', Q (.error e) c' db')
    (hrest : ∀ r t c₁ db₁, c₁.stack = [t] → (∃ events, c₁.trace = events ++ trace) →
      locking.valid db₁ → locking.StackOk c₁.stack db₁ → (deliveryEffect data).rel r t.writes db₁ →
      K db₁ → P.wp (takeBack data r) (fun r' c' db' =>
        (∀ b, r' = .ok b → c'.stack = c₁.stack) ∧ R r c' db') c₁ db₁)
    (hcommit : ∀ r t c₁ c' db', c'.stack = [t] → (∃ events, c'.trace = events ++ c₁.trace) →
      P.Sees c' db' db' → locking.fitsAll t.writes db' → (deliveryEffect data).rel r t.writes db' →
      R r c₁ db' → P.Keeps c' db' (postgres.view t db') ∧
        Q (.ok {}) ⟨[], .commit (.ok ()) :: c'.trace⟩ (postgres.view t db')) :
    P.wp (handleWebhook config req) Q ⟨[], trace⟩ db := by
  have hpast : ∀ {trace' : List (Event Stmt Err)} {e : Event Stmt Err},
      (∃ events, trace' = events ++ e :: trace) → ∃ events, trace' = events ++ trace := by
    rintro trace' e ⟨events, he⟩
    exact ⟨events ++ [e], by rw [he, List.append_assoc]; rfl⟩
  refine wp_handleWebhook P hthrow (fun _ _ c' db' _ _ _ => hskip c' db') fun _ db₁ hs₁ _ _ => ?_
  have hk₁ := hK _ _ _ ⟨[], rfl⟩ hs₁ hk
  rw [recordAndApply_eq htype hdata, ← Prog.bind_pure (query _ >>= _ >>= takeBack data), Prog.bind_assoc]
  refine Protocol.wp_transaction_of_middle (X := deliveryEffect data)
    (Y := fun _ b => Effect.pure locking b) (K := K) (R := fun r _ => R r)
    (Protocol.doesWith_of_knowing (does_delivery (P.knowing K) req.body data) fun c' _ _ hc' => hK c' _ _ (hpast hc'))
    (fun r => anyStmt_of_only (takeBack_only data r))
    (fun r b c₁ _ => Protocol.doesWith_of_knowing (Protocol.does_pure b) fun c' _ _ hc' => hR r c₁ c' _ _ hc')
    (fun c' _ _ hc' => hK c' _ _ (hpast hc')) hk₁
    (fun r t c₁ db₂ hstack hevents hv hok hx hknown =>
      hrest r t c₁ db₂ hstack (hpast hevents) hv hok hx hknown)
    (fun r _ c₁ c' _ _ _ hc' => hR r c₁ c' _ _ hc')
    (fun e c' db' _ _ _ => hskip c' db') ?_
  intro r b g t c₁ c' db' ws₁ ws₂ hstack _ hevents _ hs hfits hws hx hy hr
  obtain ⟨-, rfl⟩ := hy
  rw [List.append_nil] at hws
  exact hcommit r t c₁ c' db' hstack hevents hs hfits (hws ▸ hx) hr

end Rules

end AuthorizeNetWebhookController

end PaymentBilling
