import PaymentBilling.Safety.CreditRefund
import PaymentBilling.Spec.Keyed

/-!
# Safety.OperationKeys

Idempotency keys of different operations.

All operations on credits share one space of keys, and all operations on the
ledger another.  A key is a template filled with an identifier; no two
templates ever give the same key, whatever the identifiers, and a template that
two operations use (the refund of credits and the credits of a refunded
payment) is told apart by the type of the request, which never changes.  So the
row that an operation finds under its key is always the work of an operation of
the same kind on the same object.
-/

namespace PaymentBilling

open Relational Transact

/-! ## The templates -/

/-- What credits are moved for, with the identifier as the key prints it. -/
inductive CreditSource
  | charge (transactionId : String)
  | refundedCharge (transactionId : String)
  | chargeback (transactionId : String)
  | solanaCharge (txHash : String)
  | refund (id : String)
  | disputeWon (id : String)
  deriving DecidableEq

/-- What a ledger transaction is posted for. -/
inductive LedgerSource
  | refund (id : String)
  | chargeback (transactionId : String)
  | outcome (id : String) (outcome : DisputeOutcome)
  deriving DecidableEq

/-- The key of the credit row. -/
def CreditSource.key : CreditSource → String
  | charge transactionId => "authorize_net_charge_" ++ transactionId
  | refundedCharge transactionId => "authorize_net_refund_" ++ transactionId
  | chargeback transactionId => "chargeback_" ++ transactionId
  | solanaCharge txHash => "solana_charge_" ++ txHash
  | refund id => refundKey id
  | disputeWon id => "dispute_won_" ++ id

/-- The key of the ledger transaction. -/
def LedgerSource.key : LedgerSource → String
  | refund id => refundLedgerKey id
  | chargeback transactionId => reversalKey transactionId
  | outcome id o => outcomeKey id o

/-- Texts that differ within their common length differ however they go on. -/
theorem append_ne_append {p q : String} (s t : String)
    (h : (p.toList.zip q.toList).any (fun c => c.1 != c.2) = true) : p ++ s ≠ q ++ t := by
  have hchars : ∀ (l m : List Char) (u v : List Char),
      (l.zip m).any (fun c => c.1 != c.2) = true → l ++ u ≠ m ++ v := by
    intro l
    induction l with
    | nil => simp
    | cons c l ih =>
        intro m u v hdiff heq
        cases m with
        | nil => simp at hdiff
        | cons d m =>
            obtain ⟨rfl, hrest⟩ := List.cons.inj heq
            simp at hdiff
            exact ih m u v (by simpa using hdiff) hrest
  intro heq
  refine hchars p.toList q.toList s.toList t.toList h ?_
  rw [← String.toList_append, ← String.toList_append, heq]

/-- Credit keys are equal only if they come from the same kind and the same
identifier. -/
theorem CreditSource.key_injective : Function.Injective CreditSource.key := by
  intro a b h
  cases a <;> cases b <;> unfold CreditSource.key at h
  all_goals
    first
    | exact (append_ne_append _ _ (by decide) h).elim
    | rw [(String.append_right_inj _).mp h]

theorem refundLedgerKey_inj {id id' : String} (h : refundLedgerKey id = refundLedgerKey id') :
    id = id' :=
  (String.append_right_inj _).mp ((String.append_left_inj _).mp h)

theorem refundLedgerKey_ne_reversalKey (id transactionId : String) :
    refundLedgerKey id ≠ reversalKey transactionId := by
  unfold refundLedgerKey reversalKey
  rw [String.append_assoc, String.append_assoc]
  exact append_ne_append _ _ (by decide)

theorem refundLedgerKey_ne_outcomeKey (id id' : String) (outcome : DisputeOutcome) :
    refundLedgerKey id ≠ outcomeKey id' outcome := by
  unfold refundLedgerKey
  cases outcome <;> simp only [outcomeKey] <;> rw [String.append_assoc, String.append_assoc] <;>
    exact append_ne_append _ _ (by decide)

/-- The same for the keys of the ledger. -/
theorem LedgerSource.key_injective : Function.Injective LedgerSource.key := by
  intro a b h
  cases a with
  | refund id =>
      cases b with
      | refund id' => rw [refundLedgerKey_inj h]
      | chargeback transactionId => exact (refundLedgerKey_ne_reversalKey _ _ h).elim
      | outcome id' o => exact (refundLedgerKey_ne_outcomeKey _ _ _ h).elim
  | chargeback transactionId =>
      cases b with
      | refund id => exact (refundLedgerKey_ne_reversalKey _ _ h.symm).elim
      | chargeback transactionId' => rw [reversalKey_inj h]
      | outcome id o => exact (reversalKey_ne_outcomeKey h).elim
  | outcome id o =>
      cases b with
      | refund id' => exact (refundLedgerKey_ne_outcomeKey _ _ _ h.symm).elim
      | chargeback transactionId => exact (reversalKey_ne_outcomeKey h.symm).elim
      | outcome id' o' =>
          obtain ⟨rfl, rfl⟩ := outcomeKey_inj h
          rfl

/-! ## The operations -/

/-- The type of the credit row that is logged for a source: a refund logs what
the type of its request says. -/
def CreditSource.type? (db : Data) : CreditSource → Option CreditTransactionType
  | charge _ => some .PURCHASE
  | refundedCharge _ => some .USAGE
  | chargeback _ => some .USAGE
  | solanaCharge _ => some .PURCHASE
  | refund id => (schema.find .refundRequests id db).map (·.type.creditType)
  | disputeWon _ => some .REFUND

namespace Operation

/-- What an operation moves credits for. -/
def creditSource? : Operation → Option CreditSource
  | card _ req =>
    match EventType.ofJs req.body.type, req.body.data with
    | .chargeApproved, some data => some (.charge data.transactionId.text)
    | .chargeRefunded, some data => some (.refundedCharge data.transactionId.text)
    | .chargebackReceived, some data => some (.chargeback data.transactionId.text)
    | _, _ => none
  | chain _ event => event.data.map fun data => .solanaCharge data.txHash.text
  | refund id .process => some (.refund id)
  | dispute id (.outcome .WON) => some (.disputeWon id)
  | _ => none

/-- What an operation posts to the ledger for. -/
def ledgerSource? : Operation → Option LedgerSource
  | card _ req =>
    match EventType.ofJs req.body.type, req.body.data with
    | .chargebackReceived, some data => some (.chargeback data.transactionId.text)
    | _, _ => none
  | refund id .process => some (.refund id)
  | dispute id (.outcome o) => some (.outcome id o)
  | _ => none

/-- The key and the type of the credit row that an operation may log. -/
def creditKey? (db : Data) (op : Operation) : Option (String × CreditTransactionType) :=
  op.creditSource?.bind fun src => (src.type? db).map (src.key, ·)

/-- The key of the ledger transaction that an operation may post. -/
def ledgerKey? (op : Operation) : Option String := op.ledgerSource?.map (·.key)

theorem creditKey?_of_source {db : Data} {op : Operation} (src : CreditSource)
    {type : CreditTransactionType} (hsrc : op.creditSource? = some src)
    (htype : src.type? db = some type) : op.creditKey? db = some (src.key, type) := by
  rw [creditKey?, hsrc, Option.bind_some, htype, Option.map_some]

theorem ledgerKey?_of_source {op : Operation} (src : LedgerSource)
    (hsrc : op.ledgerSource? = some src) : op.ledgerKey? = some src.key := by
  rw [ledgerKey?, hsrc, Option.map_some]

end Operation

/-- What an operation has read outside of all transactions: a request or a
dispute by its own identifier, and the request with the type that it still has
in `db`. -/
def Recalled (db : Data) : (β : Type) → Stmt β → β → Prop
  | _, .refundFindUnique id, found =>
    ∀ r, found = some r → r.id = id ∧ (CreditSource.refund id).type? db = some r.type.creditType
  | _, .disputeFindUnique id, found => ∀ d, found = some d → d.id = id
  | _, _, _ => True

theorem recalled_of_exec {db final : Data} (hle : schema.le db final) {β : Type} {st : Stmt β}
    {env : Env} {b : β} {ws : List RowWrite} (h : postgres.exec st env db = .ok (b, ws)) :
    Recalled final β st b := by
  cases st with
  | refundFindUnique id =>
      intro r hr
      obtain ⟨-, hfound⟩ := exec_refundFindUnique h
      rw [hr] at hfound
      obtain ⟨r', hr', hsame⟩ := request_of_le hle hfound.symm
      refine ⟨Schema.id_of_find hfound.symm, ?_⟩
      show (schema.find .refundRequests id final).map (·.type.creditType) = _
      rw [hr', Option.map_some, hsame.type]
  | disputeFindUnique id =>
      intro d hd
      obtain ⟨-, hfound⟩ := exec_disputeFindUnique h
      rw [hd] at hfound
      exact Schema.id_of_find hfound.symm
  | _ => trivial

/-- The side effects of an event name the keys of its kind only. -/
theorem AuthorizeNetWebhookController.applyEvent_keyed (final : Data) (config : AuthorizeNetConfig)
    (req : AuthorizeNetRequest) :
    Only (Keyed ((Operation.card config req).creditKey? final) (Operation.card config req).ledgerKey?)
      (applyEvent req.body.type req.body.data) 0 := by
  unfold applyEvent
  split
  · exact only_pure _
  split
  · exact only_throw _
  next type _ data hdata =>
    have hcredit : ∀ src {type}, (Operation.card config req).creditSource? = some src →
        src.type? final = some type →
        (Operation.card config req).creditKey? final = some (src.key, type) := fun src =>
      Operation.creditKey?_of_source src
    split
    · exact subscriptionActivated_keyed _
    · exact subscriptionActivated_keyed _
    · exact keyed_return (SubscriptionsService.cancelImmediately_keyed _)
    · next htype =>
      refine chargeApproved_keyed data (hcredit (.charge data.transactionId.text) ?_ rfl)
      simp only [Operation.creditSource?, htype, hdata]
    · next htype =>
      refine chargeRefunded_keyed data (hcredit (.refundedCharge data.transactionId.text) ?_ rfl)
      simp only [Operation.creditSource?, htype, hdata]
    · exact keyed_return (SubscriptionsService.cancelImmediately_keyed _)
    · next htype =>
      refine chargebackReceived_keyed data (hcredit (.chargeback data.transactionId.text) ?_ rfl)
        (Operation.ledgerKey?_of_source (.chargeback data.transactionId.text) ?_)
      · simp only [Operation.creditSource?, htype, hdata]
      · simp only [Operation.ledgerSource?, htype, hdata]
    · exact only_pure _

/-- The statements of an operation name its own keys only. -/
theorem Operation.run_keyed (final : Data) (op : Operation) :
    OnlyGiven (Recalled final) (Keyed (op.creditKey? final) op.ledgerKey?) op.run 0 := by
  cases op with
  | card config req =>
      exact Only.given (keyed_return (AuthorizeNetWebhookController.handleWebhook_only config req
        trivial trivial (AuthorizeNetWebhookController.applyEvent_keyed final config req)))
  | chain setting event =>
      refine Only.given (keyed_return (SolanaConfirmationController.handleConfirmation_only setting
        event (fun _ _ => trivial) (fun _ _ => trivial) fun data hdata =>
          SolanaConfirmationController.applyConfirmation_keyed data ?_))
      refine creditKey?_of_source (.solanaCharge data.txHash.text) ?_ rfl
      rw [creditSource?, hdata, Option.map_some]
  | createRefund userId data =>
      exact Only.given (keyed_return (RefundsService.createRefundRequest_keyed userId data))
  | refund id call =>
      refine given_bind ?_ fun _ => (only_pure _).given
      cases call with
      | approve adminId notes =>
          exact Only.given (only_bind (RefundsService.findPending_keyed id _) fun _ =>
            keyed_query trivial)
      | deny adminId notes => exact Only.given (RefundsService.denyRefund_keyed id adminId notes)
      | process =>
          refine given_exec_bind trivial fun found hfound => ?_
          cases found with
          | none => exact (only_throw _).given
          | some refund =>
              obtain ⟨rfl, htype⟩ := hfound refund rfl
              simp only
              split
              · exact (only_throw _).given
              refine Only.given (only_bind (only_tryCatch ?_ fun _ =>
                only_bind (keyed_query trivial) fun _ => only_throw _) fun _ => keyed_query trivial)
              exact RefundsService.dispatch_keyed refund
                (creditKey?_of_source (.refund refund.id) rfl htype)
                fun _ => ledgerKey?_of_source (.refund refund.id) rfl
  | dispute id call =>
      cases call with
      | evidence submittedBy evidenceType content metadata =>
          exact Only.given (keyed_return (DisputesService.attachEvidence_keyed _))
      | outcome o =>
          refine given_bind (given_exec_bind trivial fun found hfound => ?_) fun _ =>
            (only_pure _).given
          cases found with
          | none => exact (only_throw _).given
          | some dispute =>
              obtain rfl := hfound dispute rfl
              simp only
              split
              · exact (only_throw _).given
              cases o with
              | WON =>
                  exact Only.given (DisputesService.handleWon_keyed dispute
                    (creditKey?_of_source (.disputeWon dispute.id) rfl rfl)
                    (ledgerKey?_of_source (.outcome dispute.id .WON) rfl))
              | LOST =>
                  exact Only.given (DisputesService.handleLost_keyed dispute
                    (ledgerKey?_of_source (.outcome dispute.id .LOST) rfl))
  | cancelAtPeriodEnd userId =>
      exact Only.given (keyed_return (SubscriptionsService.cancelAtPeriodEnd_keyed userId))
  | cancelImmediately userId =>
      exact Only.given (keyed_return (SubscriptionsService.cancelImmediately_keyed userId))
  | reactivate userId => exact Only.given (keyed_return (SubscriptionsService.reactivate_keyed userId))

/-! ## Rows and their authors -/

/-- Without patches, a row is an old one or has been inserted. -/
theorem mem_applyAll_of_noPatch {t : Table} (hnone : Patch t → False) {row : Row t}
    {ws : List RowWrite} {db : Data} (h : row ∈ postgres.applyAll ws db t) :
    row ∈ db t ∨ (.insert t row : RowWrite) ∈ ws := by
  induction ws generalizing db with
  | nil => exact .inl h
  | cons w ws ih =>
      cases ih h with
      | inl hrow =>
          cases Schema.mem_apply_of_noPatch hnone hrow with
          | inl hold => exact .inl hold
          | inr hw =>
              rw [hw]
              exact .inr (.head _)
      | inr hin => exact .inr (.tail _ hin)

section Authors

variable {ι : Type} {s : Sys Stmt Data RowWrite RowLock Err Unit ι} {db₀ db : Data}

/-- Where there was none, a row has been inserted by a statement of a client. -/
theorem wrote_of_made {t : Table} (hnone : Patch t → False) (hempty : db₀ t = [])
    (h : postgres.Made s db₀ db) {row : Row t} (hrow : row ∈ db t) :
    ∃ j, postgres.Wrote (s.clients j).loc.trace (.insert t row) := by
  obtain ⟨ws, rfl, hws⟩ := h
  cases mem_applyAll_of_noPatch hnone hrow with
  | inl hold =>
      rw [hempty] at hold
      cases hold
  | inr hin => exact hws _ hin

/-- A credit row is inserted by the statement that answers with it. -/
theorem credit_of_wrote {trace : List (Event Stmt Err)} {row : CreditTransaction}
    (h : postgres.Wrote trace (.insert .creditTransactions row)) :
    ∃ data, Event.stmt (.creditTransactionCreate data) (.ok row) ∈ trace ∧
      row.type = data.type ∧ row.idempotencyKey = data.idempotencyKey := by
  obtain ⟨β, st, b, env, db, ws, hevent, hexec, hw⟩ := h
  have htable := table_of_exec hexec _ hw
  cases st with
  | creditTransactionCreate data =>
      obtain ⟨n, -, rfl, hrow⟩ := exec_creditTransactionCreate hexec
      obtain rfl : row = b := by simpa using hw
      exact ⟨data, hevent, by rw [hrow], by rw [hrow]⟩
  | _ => cases htable

/-- So is a ledger transaction. -/
theorem ledger_of_wrote {trace : List (Event Stmt Err)} {txn : LedgerTransaction}
    (h : postgres.Wrote trace (.insert .ledgerTransactions txn)) :
    ∃ data, Event.stmt (.ledgerTransactionCreate data) (.ok txn) ∈ trace ∧
      txn.idempotencyKey = data.idempotencyKey := by
  obtain ⟨β, st, b, env, db, ws, hevent, hexec, hw⟩ := h
  have htable := table_of_exec hexec _ hw
  cases st with
  | ledgerTransactionCreate data =>
      obtain ⟨user, -, rfl, hrow⟩ := exec_ledgerTransactionCreate hexec
      obtain rfl : txn = b := by simpa using hw
      exact ⟨data, hevent, by rw [hrow]⟩
  | _ => cases htable

end Authors

/-! ## Runs -/

section Runs

variable {ι : Type} (ops : ι → Operation) (s : Sys Stmt Data RowWrite RowLock Err Unit ι)

/-- An operation for the source has logged the row, and the row has the type
that such an operation logs. -/
def LoggedFor (src : CreditSource) (row : CreditTransaction) : Prop :=
  ∃ j data, Event.stmt (.creditTransactionCreate data) (.ok row) ∈ (s.clients j).loc.trace ∧
    (ops j).creditSource? = some src ∧ src.type? s.db = some row.type

/-- An operation for the source has posted the transaction. -/
def PostedFor (src : LedgerSource) (txn : LedgerTransaction) : Prop :=
  ∃ j data, Event.stmt (.ledgerTransactionCreate data) (.ok txn) ∈ (s.clients j).loc.trace ∧
    (ops j).ledgerSource? = some src

/-- No operation is suppressed by the row of a different one: what is committed
under the key of a source was written for that source, and so was what an
operation has found under the key that it looked up. -/
structure KeysApart : Prop where
  logged : ∀ (src : CreditSource), ∀ row ∈ s.db .creditTransactions,
    row.idempotencyKey = some src.key → LoggedFor ops s src row
  creditFound : ∀ i key row,
    Event.stmt (.creditTransactionFindFirst key) (.ok (some row)) ∈ (s.clients i).loc.trace →
      ∃ src, (ops i).creditSource? = some src ∧ key = src.key ∧ LoggedFor ops s src row
  posted : ∀ (src : LedgerSource), ∀ txn ∈ s.db .ledgerTransactions,
    txn.idempotencyKey = some src.key → PostedFor ops s src txn
  ledgerFound : ∀ i key response,
    Event.stmt (.ledgerTransactionFindFirst key) (.ok (some response)) ∈ (s.clients i).loc.trace →
      ∃ src, (ops i).ledgerSource? = some src ∧ key = src.key ∧
        PostedFor ops s src response.transaction

end Runs

theorem creditSource_of_key {db : Data} {op : Operation} {key : String}
    {type : CreditTransactionType} (h : op.creditKey? db = some (key, type)) :
    ∃ src, op.creditSource? = some src ∧ key = src.key ∧ src.type? db = some type := by
  obtain ⟨src, hsrc, h⟩ := Option.bind_eq_some_iff.mp h
  obtain ⟨type', htype, h⟩ := Option.map_eq_some_iff.mp h
  obtain ⟨rfl, rfl⟩ := Prod.mk.inj h
  exact ⟨src, hsrc, rfl, htype⟩

theorem ledgerSource_of_key {op : Operation} {key : String} (h : op.ledgerKey? = some key) :
    ∃ src, op.ledgerSource? = some src ∧ key = src.key := by
  obtain ⟨src, hsrc, h⟩ := Option.map_eq_some_iff.mp h
  exact ⟨src, hsrc, h.symm⟩

section Operations

variable {ι : Type} [DecidableEq ι] {db : Database} {ops : ι → Operation}
  {s : Sys Stmt Data RowWrite RowLock Err Unit ι}

/-- The statements that an operation has run name its own keys only. -/
theorem keyed_of_runs (h : Runs postgres AnyStep (operations db ops) s) {i : ι} {β : Type}
    {st : Stmt β} {r : Except Err β} (hevent : Event.stmt st r ∈ (s.clients i).loc.trace) :
    Keyed ((ops i).creditKey? s.db) (ops i).ledgerKey? β st := by
  have hconfined := Runs.confined (D := locking) db.valid h (Schema.le_refl _)
    (fun _ _ _ _ _ _ hle hexec => recalled_of_exec hle hexec)
    (fun i => Operation.run_keyed s.db (ops i)) i
  exact hconfined.2 β st r hevent

/-- A credit row with a key was logged for the source of the key. -/
theorem loggedFor_of_made (h : Runs postgres AnyStep (operations db ops) s)
    (hempty : db.rows .creditTransactions = []) {db' : Data} (hmade : postgres.Made s db.rows db')
    {row : CreditTransaction} (hrow : row ∈ db' .creditTransactions) {src : CreditSource}
    (hkey : row.idempotencyKey = some src.key) : LoggedFor ops s src row := by
  obtain ⟨j, hwrote⟩ := wrote_of_made (t := .creditTransactions) (nomatch ·) hempty hmade hrow
  obtain ⟨data, hevent, htype, hsame⟩ := credit_of_wrote hwrote
  obtain ⟨key, hcredit, hdata⟩ := keyed_of_runs h hevent
  obtain ⟨src', hsrc', hkey', htype'⟩ := creditSource_of_key hcredit
  have hkeys : src.key = src'.key := by
    rw [← hkey', ← Option.some.injEq, ← hkey, hsame, hdata]
  obtain rfl := CreditSource.key_injective hkeys
  exact ⟨j, data, hevent, hsrc', by rw [htype', htype]⟩

/-- The same for a ledger transaction. -/
theorem postedFor_of_made (h : Runs postgres AnyStep (operations db ops) s)
    (hempty : db.rows .ledgerTransactions = []) {db' : Data} (hmade : postgres.Made s db.rows db')
    {txn : LedgerTransaction} (htxn : txn ∈ db' .ledgerTransactions) {src : LedgerSource}
    (hkey : txn.idempotencyKey = some src.key) : PostedFor ops s src txn := by
  obtain ⟨j, hwrote⟩ := wrote_of_made (t := .ledgerTransactions) (nomatch ·) hempty hmade htxn
  obtain ⟨data, hevent, hsame⟩ := ledger_of_wrote hwrote
  obtain ⟨key, hledger, hdata⟩ := keyed_of_runs h hevent
  obtain ⟨src', hsrc', hkey'⟩ := ledgerSource_of_key hledger
  have hkeys : src.key = src'.key := by
    rw [← hkey', ← Option.some.injEq, ← hkey, hsame, hdata]
  obtain rfl := LedgerSource.key_injective hkeys
  exact ⟨j, data, hevent, hsrc'⟩

end Operations

/-! ## Different operations -/

/-- Keys that are equal come from the same kind and the same identifier; and in
every state that any operations can reach, together and in any order, from a
database without credit rows and ledger transactions, no request has changed
its type and no operation is suppressed by the row of a different one. -/
theorem operationKeys_apart :
    Function.Injective CreditSource.key ∧ Function.Injective LedgerSource.key ∧
      ∀ {ι : Type} [DecidableEq ι] (db : Database) (ops : ι → Operation),
        db.rows .creditTransactions = [] → db.rows .ledgerTransactions = [] →
        ∀ s, Runs postgres AnyStep (operations db ops) s →
          (∀ s', Runs postgres AnyStep s s' → ∀ id r, schema.find .refundRequests id s.db = some r →
            ∃ r', schema.find .refundRequests id s'.db = some r' ∧ r'.type = r.type) ∧
          KeysApart ops s := by
  refine ⟨CreditSource.key_injective, LedgerSource.key_injective, ?_⟩
  intro ι _ db ops hcredits hledger s h
  have hok : locking.SysOk s := ((Discipline.SysOk.start locking db.valid _).runs h).1
  have hauthored := Runs.authored h
  refine ⟨fun s' h' id r hr => ?_, ?_⟩
  · obtain ⟨r', hr', hsame⟩ := request_of_le (hok.runs h').2 hr
    exact ⟨r', hr', hsame.type⟩
  · refine ⟨fun src row hrow hkey => loggedFor_of_made h hcredits hauthored.committed hrow hkey, ?_,
      fun src txn htxn hkey => postedFor_of_made h hledger hauthored.committed htxn hkey, ?_⟩
    · intro i key row hevent
      obtain ⟨type, hkeyed⟩ := keyed_of_runs h hevent
      obtain ⟨src, hsrc, rfl, -⟩ := creditSource_of_key hkeyed
      obtain ⟨env, db', ws, hmade, hexec⟩ := hauthored.read i _ _ _ hevent
      obtain ⟨-, hfound⟩ := exec_creditTransactionFindFirst hexec
      have hkey : row.idempotencyKey = some src.key := by
        simpa using List.find?_some hfound.symm
      exact ⟨src, hsrc, rfl,
        loggedFor_of_made h hcredits hmade (List.mem_of_find?_eq_some hfound.symm) hkey⟩
    · intro i key response hevent
      obtain ⟨src, hsrc, rfl⟩ := ledgerSource_of_key (keyed_of_runs h hevent)
      obtain ⟨env, db', ws, hmade, hexec⟩ := hauthored.read i _ _ _ hevent
      obtain ⟨-, hfound⟩ := exec_ledgerTransactionFindFirst hexec
      obtain ⟨txn, htxn, rfl⟩ := Option.map_eq_some_iff.mp hfound.symm
      have hkey : txn.idempotencyKey = some src.key := by
        simpa [schema] using Schema.key_of_findBy htxn
      exact ⟨src, hsrc, rfl,
        postedFor_of_made h hledger hmade (Schema.mem_of_findBy htxn) hkey⟩

/-- One call processes a request while the other has already read it. -/
def processAfterRead : List (Fin 2 × Choice Env) :=
  (1, .go (.ordinary "b")) ::
    (["a", "a", "a", "c1", "t1", "a", "a"].map fun id => (0, .go (.ordinary id))) ++
    (["b", "b"].map fun id => (1, .go (.ordinary id)))

/-- The credit row that a statement has found. -/
def foundRow : Event Stmt Err → Option CreditTransaction
  | .stmt (.creditTransactionFindFirst _) (.ok found) => found
  | _ => none

/-- The second call finds the row of the first: another operation on the same
request. -/
theorem processAfterRead_found :
    ∃ s, Runs postgres AnyStep (operations approvedCredits fun _ : Fin 2 => .refund "r1" .process) s ∧
      (((s.clients 1).loc.trace.findSome? foundRow).map (·.id) = some "t1") ∧
      KeysApart (fun _ : Fin 2 => .refund "r1" .process) s := by
  have hplay : (replay postgres anyTime processAfterRead
      (operations approvedCredits fun _ => .refund "r1" .process)).any
      (fun s => ((s.clients 1).loc.trace.findSome? foundRow).map (·.id) = some "t1") = true := by
    decide +kernel
  obtain ⟨s, hs, hfound⟩ := exists_runs_of_replay (fun _ _ _ _ => trivial) hplay
  exact ⟨s, hs, of_decide_eq_true hfound,
    (operationKeys_apart.2.2 approvedCredits _ rfl rfl s hs).2⟩

end PaymentBilling
