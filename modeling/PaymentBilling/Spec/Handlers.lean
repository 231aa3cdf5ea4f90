import PaymentBilling.Spec.Writes
import PaymentBilling.Transact.Nested

/-!
# Spec.Handlers

The handlers of the gateways' events, under any protocol.

A handler looks for the record of its event and answers `skipped` when there is
one.  Otherwise it runs the transaction of the event, and answers `skipped`
once more when that ends in a violated unique constraint, whichever it was.
-/

namespace PaymentBilling

open Relational Transact

/-! ## Statements -/

/-- What holds of the lookup of the record, of its insertion and of the side
effects, holds of every statement of a delivery. -/
theorem AuthorizeNetWebhookController.handleWebhook_only {N : (β : Type) → Stmt β → Prop}
    (config : AuthorizeNetConfig) (req : AuthorizeNetRequest)
    (hfind : N _ (.processedWebhookFindUnique req.body.eventId))
    (hcreate : N _ (.processedWebhookCreate req.body.eventId "authorize_net" req.body.type))
    (happly : Only N (applyEvent req.body.type req.body.data) 0) :
    Only N (handleWebhook config req) 0 := by
  unfold handleWebhook
  split
  · exact only_throw _
  split
  · exact only_throw _
  refine only_bind (only_exec hfind) fun found => ?_
  cases found with
  | some _ => exact only_pure _
  | none =>
      refine only_tryCatch (only_bind (only_transaction (only_bind (only_exec hcreate) fun _ =>
        happly)) fun _ => only_pure _) fun err => ?_
      split
      · exact only_pure _
      · exact only_throw _

/-- The same for a confirmation. -/
theorem SolanaConfirmationController.handleConfirmation_only {N : (β : Type) → Stmt β → Prop}
    (setting : Option String) (event : SolanaEvent)
    (hfind : ∀ data, event.data = some data → N _ (.processedWebhookFindUnique data.txHash))
    (hcreate : ∀ data, event.data = some data →
      N _ (.processedWebhookCreate data.txHash "solana" (.str "confirmation")))
    (happly : ∀ data, event.data = some data → Only N (applyConfirmation data) 0) :
    Only N (handleConfirmation setting event) 0 := by
  unfold handleConfirmation
  cases hdata : event.data with
  | none => exact only_throw _
  | some data =>
      simp only
      split
      · exact only_throw _
      split
      · unfold waiting
        split
        · exact only_pure _
        · exact only_pure _
        · exact only_throw _
      refine only_bind (only_exec (hfind data hdata)) fun found => ?_
      cases found with
      | some _ => exact only_pure _
      | none =>
          refine only_tryCatch (only_bind (only_transaction (only_bind
            (only_exec (hcreate data hdata)) fun _ => happly data hdata)) fun _ => only_pure _)
            fun err => ?_
          split
          · exact only_pure _
          · exact only_throw _

/-! ## Rules -/

section Rules

variable {I : Data → Prop} (P : Protocol locking I) {trace : List (Event Stmt Err)} {db : Data}

/-- The record of an event is inserted. -/
def eventRecordEffect (id : Js) (source : String) : Effect locking ProcessedWebhook where
  rel row ws _ := ws = [.insert .processedWebhooks row] ∧ id = .str row.id ∧ row.source = source
  stable _ _ _ h := h

theorem does_eventRecord {past : List (Event Stmt Err)} (id : Js) (source : String) (type : Js) :
    P.Does past (query (.processedWebhookCreate id source type)) (eventRecordEffect id source) := by
  refine Protocol.does_exec fun env db row ws _ hx => ?_
  obtain ⟨i, type', rfl, -, rfl, rfl⟩ := exec_processedWebhookCreate hx
  exact ⟨rfl, rfl, rfl⟩

namespace AuthorizeNetWebhookController

/-- The lookup of an event that has no record. -/
def unrecorded (id : Js) : Event Stmt Err := .stmt (.processedWebhookFindUnique id) (.ok none)

/-- A delivery is refused, skipped, or comes down to its transaction, which is
left as it ends. -/
theorem wp_handleWebhook_cases {config : AuthorizeNetConfig} {req : AuthorizeNetRequest}
    {Q : Post Stmt Data RowWrite RowLock Err WebhookResponse}
    (hrefuse : ∀ e, Q (.error e) ⟨[], trace⟩ db)
    (hthrow : ∀ e c' db', P.Sees ⟨[], trace⟩ db db' → Q (.error e) c' db')
    (hfound : ∀ id row c' db', P.Sees ⟨[], trace⟩ db db' → req.body.eventId = .str id →
      schema.find .processedWebhooks id db' = some row → Q (.ok { skipped := true }) c' db')
    (happly : ∀ id db₁, P.Sees ⟨[], trace⟩ db db₁ →
      verifyHmac config.hmacSha256 req.rawBody req.signature config.secret = true →
      req.body.eventId.truthy = true → req.body.type.truthy = true → req.body.eventId = .str id →
      schema.find .processedWebhooks id db₁ = none →
      P.wp (recordAndApply req.body) (fun r c' db' => match r with
        | .ok _ => Q (.ok {}) c' db'
        | .error e => if e.code = some "P2002" then Q (.ok { skipped := true }) c' db'
          else Q (.error e) c' db') ⟨[], unrecorded req.body.eventId :: trace⟩ db₁) :
    P.wp (handleWebhook config req) Q ⟨[], trace⟩ db := by
  unfold handleWebhook
  split
  · exact hrefuse _
  split
  · exact hrefuse _
  next hsigned hpayload =>
  simp only [Bool.not_eq_true', Bool.not_eq_false, Bool.or_eq_true, not_or] at hsigned hpayload
  rw [P.wp_bind]
  refine P.wp_exec_auto (fun _ _ hs => hthrow _ _ _ hs) fun env found ws db₁ hs₁ hx => ?_
  obtain ⟨id, hid, rfl, hrow⟩ := exec_processedWebhookFindUnique hx
  refine ⟨P.keeps_refl hs₁.inv, ?_⟩
  cases found with
  | some row => exact hfound id row _ _ hs₁ hid hrow.symm
  | none =>
      simp only [Protocol.bindPost_ok]
      rw [P.wp_tryCatch, P.wp_bind]
      refine P.wp_mono (fun r c' db' hr => ?_)
        (happly id db₁ hs₁ hsigned hpayload.1 hpayload.2 hid hrow.symm)
      cases r with
      | ok _ => exact hr
      | error e =>
          simp only [Protocol.bindPost_error]
          split
          · next hcode => exact (if_pos hcode).mp hr
          · next hcode => exact (if_neg hcode).mp hr

/-- A delivery is refused, skipped, or comes down to its transaction. -/
theorem wp_handleWebhook {config : AuthorizeNetConfig} {req : AuthorizeNetRequest}
    {Q : Post Stmt Data RowWrite RowLock Err WebhookResponse}
    (hthrow : ∀ e c' db', Q (.error e) c' db')
    (hfound : ∀ id row c' db', P.Sees ⟨[], trace⟩ db db' → req.body.eventId = .str id →
      schema.find .processedWebhooks id db' = some row → Q (.ok { skipped := true }) c' db')
    (happly : ∀ id db₁, P.Sees ⟨[], trace⟩ db db₁ → req.body.eventId = .str id →
      schema.find .processedWebhooks id db₁ = none →
      P.wp (recordAndApply req.body) (fun r c' db' => match r with
        | .ok _ => Q (.ok {}) c' db'
        | .error e => e.code = some "P2002" → Q (.ok { skipped := true }) c' db')
        ⟨[], unrecorded req.body.eventId :: trace⟩ db₁) :
    P.wp (handleWebhook config req) Q ⟨[], trace⟩ db := by
  refine wp_handleWebhook_cases P (fun _ => hthrow _ _ _) (fun _ _ _ _ => hthrow _ _ _) hfound
    fun id db₁ hs₁ _ _ _ hid hnew => P.wp_mono (fun r c' db' hr => ?_) (happly id db₁ hs₁ hid hnew)
  cases r with
  | ok _ => exact hr
  | error e =>
      by_cases hcode : e.code = some "P2002"
      · simpa only [if_pos hcode] using hr hcode
      · simpa only [if_neg hcode] using hthrow e c' db'

end AuthorizeNetWebhookController

namespace SolanaConfirmationController

/-- A confirmation is refused, waits, is skipped, or comes down to its
transaction, which is left as it ends. -/
theorem wp_handleConfirmation_cases {setting : Option String} {event : SolanaEvent}
    {Q : Post Stmt Data RowWrite RowLock Err ConfirmationResponse}
    (hrefuse : ∀ e, Q (.error e) ⟨[], trace⟩ db)
    (hthrow : ∀ e c' db', P.Sees ⟨[], trace⟩ db db' → Q (.error e) c' db')
    (hwait : ∀ x, Q (.ok { settled := false, confirmations := some x }) ⟨[], trace⟩ db)
    (hfound : ∀ data id row c' db', P.Sees ⟨[], trace⟩ db db' → event.data = some data →
      data.txHash = .str id → schema.find .processedWebhooks id db' = some row →
      Q (.ok { settled := true, skipped := true }) c' db')
    (happly : ∀ data id db₁, event.data = some data → P.Sees ⟨[], trace⟩ db db₁ →
      event.eventId.truthy = true → data.txHash.truthy = true →
      data.confirmations.lt (requiredConfirmations setting) = false → data.txHash = .str id →
      schema.find .processedWebhooks id db₁ = none →
      P.wp (recordAndApply data) (fun r c' db' => match r with
        | .ok _ => Q (.ok { settled := true }) c' db'
        | .error e => if e.code = some "P2002" then Q (.ok { settled := true, skipped := true }) c' db'
          else Q (.error e) c' db')
        ⟨[], AuthorizeNetWebhookController.unrecorded data.txHash :: trace⟩ db₁) :
    P.wp (handleConfirmation setting event) Q ⟨[], trace⟩ db := by
  unfold handleConfirmation
  cases hdata : event.data with
  | none => exact hrefuse _
  | some data =>
      simp only
      split
      · exact hrefuse _
      split
      · unfold waiting
        split
        · exact hwait _
        · exact hwait _
        · exact hrefuse _
      next hpayload hdeep =>
      simp only [Bool.not_eq_true', Bool.or_eq_true, not_or, Bool.not_eq_false] at hpayload
      rw [Bool.not_eq_true] at hdeep
      unfold settle
      rw [P.wp_bind]
      refine P.wp_exec_auto (fun _ _ hs => hthrow _ _ _ hs) fun env found ws db₁ hs₁ hx => ?_
      obtain ⟨id, hid, rfl, hrow⟩ := exec_processedWebhookFindUnique hx
      refine ⟨P.keeps_refl hs₁.inv, ?_⟩
      cases found with
      | some row => exact hfound data id row _ _ hs₁ hdata hid hrow.symm
      | none =>
          simp only [Protocol.bindPost_ok]
          rw [P.wp_tryCatch, P.wp_bind]
          refine P.wp_mono (fun r c' db' hr => ?_)
            (happly data id db₁ hdata hs₁ hpayload.1 hpayload.2 hdeep hid hrow.symm)
          cases r with
          | ok _ => exact hr
          | error e =>
              simp only [Protocol.bindPost_error]
              split
              · next hcode => exact (if_pos hcode).mp hr
              · next hcode => exact (if_neg hcode).mp hr

/-- A confirmation is refused, waits, is skipped, or comes down to its
transaction. -/
theorem wp_handleConfirmation {setting : Option String} {event : SolanaEvent}
    {Q : Post Stmt Data RowWrite RowLock Err ConfirmationResponse}
    (hthrow : ∀ e c' db', Q (.error e) c' db')
    (hwait : ∀ x, Q (.ok { settled := false, confirmations := some x }) ⟨[], trace⟩ db)
    (hfound : ∀ data id row c' db', P.Sees ⟨[], trace⟩ db db' → event.data = some data →
      data.txHash = .str id → schema.find .processedWebhooks id db' = some row →
      Q (.ok { settled := true, skipped := true }) c' db')
    (happly : ∀ data id db₁, event.data = some data → P.Sees ⟨[], trace⟩ db db₁ →
      data.txHash = .str id → schema.find .processedWebhooks id db₁ = none →
      P.wp (recordAndApply data) (fun r c' db' => match r with
        | .ok _ => Q (.ok { settled := true }) c' db'
        | .error e => e.code = some "P2002" → Q (.ok { settled := true, skipped := true }) c' db')
        ⟨[], AuthorizeNetWebhookController.unrecorded data.txHash :: trace⟩ db₁) :
    P.wp (handleConfirmation setting event) Q ⟨[], trace⟩ db := by
  refine wp_handleConfirmation_cases P (fun _ => hthrow _ _ _) (fun _ _ _ _ => hthrow _ _ _) hwait
    hfound fun data id db₁ hdata hs₁ _ _ _ hid hnew =>
      P.wp_mono (fun r c' db' hr => ?_) (happly data id db₁ hdata hs₁ hid hnew)
  cases r with
  | ok _ => exact hr
  | error e =>
      by_cases hcode : e.code = some "P2002"
      · simpa only [if_pos hcode] using hr hcode
      · simpa only [if_neg hcode] using hthrow e c' db'

end SolanaConfirmationController

/-! ## Handlers that return -/

variable {P}

/-- A statement that only reads. -/
theorem returns_reading {α : Type} {s : Stmt α} (h : s.writes = none) : P.Returns [] (query s) := by
  refine Protocol.returns_exec fun trace env a ws db hv hi hx => ?_
  obtain rfl : ws = [] := List.eq_nil_iff_forall_not_mem.mpr fun w hw => by
    have htable := table_of_exec hx w hw
    rw [h] at htable
    cases htable
  exact P.keeps_refl hi

/-- A handler returns when the transaction of its event does. -/
theorem AuthorizeNetWebhookController.returns_handleWebhook {config : AuthorizeNetConfig}
    {req : AuthorizeNetRequest} (h : P.Returns [] (recordAndApply req.body)) :
    P.Returns [] (handleWebhook config req) := by
  unfold handleWebhook
  split
  · exact Protocol.returns_throw _
  split
  · exact Protocol.returns_throw _
  refine Protocol.returns_bind (returns_reading rfl) fun found => ?_
  cases found with
  | some _ => exact Protocol.returns_pure _
  | none =>
      refine Protocol.returns_tryCatch (Protocol.returns_bind h fun _ => Protocol.returns_pure _)
        fun err => ?_
      split
      · exact Protocol.returns_pure _
      · exact Protocol.returns_throw _

theorem SolanaConfirmationController.returns_handleConfirmation {setting : Option String}
    {event : SolanaEvent}
    (h : ∀ data, event.data = some data → P.Returns [] (recordAndApply data)) :
    P.Returns [] (handleConfirmation setting event) := by
  unfold handleConfirmation
  cases hdata : event.data with
  | none => exact Protocol.returns_throw _
  | some data =>
      simp only
      split
      · exact Protocol.returns_throw _
      split
      · unfold waiting
        split
        · exact Protocol.returns_pure _
        · exact Protocol.returns_pure _
        · exact Protocol.returns_throw _
      refine Protocol.returns_bind (returns_reading rfl) fun found => ?_
      cases found with
      | some _ => exact Protocol.returns_pure _
      | none =>
          refine Protocol.returns_tryCatch (Protocol.returns_bind (h data hdata) fun _ =>
            Protocol.returns_pure _) fun err => ?_
          split
          · exact Protocol.returns_pure _
          · exact Protocol.returns_throw _

end Rules

end PaymentBilling
