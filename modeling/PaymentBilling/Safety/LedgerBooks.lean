import PaymentBilling.Spec.LedgerBooks
import PaymentBilling.Transact.Replay

/-!
# Safety.LedgerBooks

Any number of calls that write the ledger at once: its books.

Every transaction of these calls commits a log of new accounts and postings,
and no other statement of theirs writes the ledger.  So the books are kept at
every commit, whatever the others do.
-/

namespace PaymentBilling

open Relational Transact

/-! ## The calls -/

/-- The arguments of a call of `recordTransaction`. -/
structure RecordRequest where
  userId : Js
  description : String
  entries : List LedgerEntryInput
  status : LedgerTransactionStatus := .COMPLETED
  metadata : Metadata := []
  idempotencyKey : Option String := none

/-- Record the transaction, inside the caller's transaction or in a new one. -/
def RecordRequest.record (request : RecordRequest) (externalTx : Bool) :
    Action TransactionResponse :=
  LedgerService.recordTransaction request.userId request.description request.entries
    request.status request.metadata externalTx request.idempotencyKey

/-- Record several transactions inside the caller's transaction. -/
def recordAll : List RecordRequest → Action Unit
  | [] => return ()
  | request :: requests => do
    let _ ← request.record true
    recordAll requests

/-- A call that may write the ledger. -/
inductive LedgerCall
  | record (request : RecordRequest)
  | recordAll (requests : List RecordRequest)
  | processRefund (id : String)
  | handleWebhook (config : AuthorizeNetConfig) (req : AuthorizeNetRequest)
  | setOutcome (disputeId : String) (outcome : DisputeOutcome)

/-- The program of a call, without its answer. -/
def LedgerCall.run : LedgerCall → Action Unit
  | record request => do
    let _ ← request.record false
    return ()
  | recordAll requests => transaction (PaymentBilling.recordAll requests)
  | processRefund id => do
    let _ ← RefundsService.processRefund id
    return ()
  | handleWebhook config req => do
    let _ ← AuthorizeNetWebhookController.handleWebhook config req
    return ()
  | setOutcome disputeId outcome => do
    let _ ← DisputesService.setOutcome disputeId outcome
    return ()

/-- The calls `calls`, about to run on the database `db`. -/
def ledgerSystem {ι : Type} (db : Database) (calls : ι → LedgerCall) :
    Sys Stmt Data RowWrite RowLock Err Unit ι :=
  Sys.start db.rows fun i => (calls i).run

/-! ## Programs that keep the books -/

/-- Clients that share the books. -/
abbrev bookProtocol : Protocol locking BooksKept := .sharing locking BooksKept

/-- A program that keeps the books at each of its steps. -/
def KeepsBooks {α : Type} (p : Action α) : Prop :=
  ∀ c db, bookProtocol.wp p (fun _ _ _ => True) c db

/-- What a body adds to its transaction: a ledger log. -/
def bookEffect (α : Type) : Effect locking α where
  rel _ ws db := LedgerLog ws db
  stable hf hf' hle h := h.mono hf hf' hle

/-- A body that adds a ledger log to its transaction. -/
def LogsBooks {α : Type} (p : Action α) : Prop :=
  ∀ past, bookProtocol.Does past p (bookEffect α)

section Rules

variable {α β : Type} {past : List (Event Stmt Err)}

theorem keepsBooks_bind {p : Action α} {f : α → Action β} (hp : KeepsBooks p)
    (hf : ∀ a, KeepsBooks (f a)) : KeepsBooks (p >>= f) := by
  intro c db
  rw [Protocol.wp_bind]
  refine Protocol.wp_mono _ (fun r c' db' _ => ?_) (hp c db)
  cases r with
  | ok a => exact hf a c' db'
  | error e => trivial

theorem keepsBooks_tryCatch {p : Action α} {h : Err → Action α} (hp : KeepsBooks p)
    (hh : ∀ e, KeepsBooks (h e)) : KeepsBooks (tryCatch p h) := by
  intro c db
  rw [Protocol.wp_tryCatch]
  refine Protocol.wp_mono _ (fun r c' db' _ => ?_) (hp c db)
  cases r with
  | ok a => trivial
  | error e => exact hh e c' db'

theorem keepsBooks_pure (a : α) : KeepsBooks (pure a) := fun _ _ => trivial

theorem keepsBooks_throw (e : Err) : KeepsBooks (throw e : Action α) := fun _ _ => trivial

/-- Writes elsewhere may be committed at any time. -/
theorem keeps_offLedger (c : LocalState) (db : Data) (ws : List RowWrite)
    (_ : ∃ events, c.trace = events ++ past) (hw : ∀ w ∈ ws, w.table ∉ ledgerTables) (hv : locking.valid db) (hi : BooksKept db)
    (hf : locking.fitsAll ws db) : bookProtocol.Keeps c db (postgres.applyAll ws db) :=
  ⟨hi.log hv hf (.of_offLedger hw), trivial⟩

theorem keepsBooks_offLedger {p : Action α} (hp : Only OffLedger p 0) : KeepsBooks p := by
  intro c db
  exact Protocol.wp_mono _ (fun _ _ _ _ => trivial)
    (Protocol.wp_only _ offLedger_of_exec keeps_offLedger hp)

theorem keepsBooks_transaction {p : Action α} (hp : LogsBooks p) : KeepsBooks (transaction p) := by
  intro c db
  refine Protocol.wp_transaction_of_does (hp c.trace) (fun _ _ _ _ => trivial) ?_
  intro a t c' db' _ _ _ hs hf hlog
  exact ⟨⟨hs.inv.log hs.valid hf hlog, trivial⟩, trivial⟩

/-! ## Bodies -/

theorem books_bind {p : Action α} {f : α → Action β} (hp : LogsBooks p)
    (hf : ∀ a, LogsBooks (f a)) : LogsBooks (p >>= f) := by
  intro past
  refine Protocol.does_weaken (Protocol.does_bind (hp past) fun a => hf a past) ?_
  rintro b ws db ⟨a, ws₁, ws₂, rfl, h₁, h₂⟩
  exact LedgerLog.append h₁ h₂

theorem books_pure (a : α) : LogsBooks (pure a) := by
  intro past
  refine Protocol.does_weaken (Protocol.does_pure a) ?_
  rintro _ ws db ⟨-, rfl⟩
  exact LedgerLog.nil db

theorem books_throw (e : Err) : LogsBooks (throw e : Action α) := fun _ => Protocol.does_throw e

theorem books_offLedger {p : Action α} (hp : Only OffLedger p 0) : LogsBooks p := fun _ =>
  Protocol.does_weaken (Protocol.does_only offLedger_of_exec keeps_offLedger hp)
    fun _ _ _ h => LedgerLog.of_offLedger h

theorem books_query {s : Stmt α} (h : OffLedger α s) : LogsBooks (query s) :=
  books_offLedger (offLedger_query h)

theorem books_account (userId : Js) (type : LedgerAccountType) :
    LogsBooks (do let account ← query (.ledgerAccountUpsert userId type); return account.id) := by
  intro past
  refine Protocol.does_weaken (LedgerService.does_accountUpsert _ userId type) ?_
  rintro id ws db ⟨user, -, rfl | ⟨row, hbal, rfl⟩, -⟩
  · exact LedgerLog.nil db
  · exact .account hbal (.nil _)

theorem books_record {userId : Js} {description : String} {entries : List LedgerEntryInput}
    {status : LedgerTransactionStatus} {metadata : Metadata} {key : Option String} :
    LogsBooks
      (LedgerService.recordTransaction userId description entries status metadata true key) := by
  intro past
  refine Protocol.does_weaken (LedgerService.does_recordTransaction _ _ _ _ _ _ _) ?_
  rintro response ws db (⟨rfl, -⟩ | ⟨lines, hp, -⟩)
  · exact LedgerLog.nil db
  · rw [← List.append_nil ws]
    exact .post hp (.nil _)

end Rules

/-! ## The calls keep the books -/

/-- A call without an external transaction opens its own. -/
theorem keepsBooks_record (request : RecordRequest) : KeepsBooks (request.record false) := by
  have hpost : ∀ key, KeepsBooks (LedgerService.validateAndRecord request.userId
      request.description request.entries request.status request.metadata false key) := by
    intro key
    unfold LedgerService.validateAndRecord
    cases hval : LedgerService.validate request.entries with
    | error e => exact keepsBooks_throw e
    | ok _ =>
        refine keepsBooks_transaction fun past => ?_
        refine Protocol.does_weaken (LedgerService.does_executeRecord _ hval) ?_
        rintro response ws db ⟨lines, hp, -⟩
        rw [← List.append_nil ws]
        exact .post hp (.nil _)
  unfold RecordRequest.record LedgerService.recordTransaction
  cases request.idempotencyKey.filter (· ≠ "") with
  | none => exact hpost none
  | some key =>
      refine keepsBooks_bind (keepsBooks_offLedger (offLedger_query nofun)) fun found => ?_
      cases found with
      | some response => exact keepsBooks_pure _
      | none => exact hpost _

theorem books_recordAll (requests : List RecordRequest) :
    LogsBooks (recordAll requests) := by
  induction requests with
  | nil => exact books_pure ()
  | cons request requests ih => exact books_bind books_record fun _ => ih

/-- The transaction of a payment refund. -/
theorem keepsBooks_recordRefund (refund : RefundRequest) (result : RefundResult) :
    KeepsBooks (RefundsService.recordRefund refund result) := by
  refine keepsBooks_transaction (books_bind ?_ fun _ =>
    books_offLedger (deductRefunded_offLedger _))
  refine books_bind (books_account _ _) fun _ => ?_
  refine books_bind (books_account _ _) fun _ => ?_
  refine books_bind books_record fun _ => ?_
  refine books_bind (books_query (by simp [OffLedger, Stmt.writes, ledgerTables])) fun _ => ?_
  exact books_pure _

theorem keepsBooks_dispatch (refund : RefundRequest) :
    KeepsBooks (RefundsService.dispatch refund) := by
  unfold RefundsService.dispatch
  split
  · exact keepsBooks_bind (keepsBooks_offLedger (grantCredits_offLedger ..)) fun _ =>
      keepsBooks_pure _
  · unfold RefundsService.processPaymentRefund
    split
    · exact keepsBooks_pure _
    · split
      · exact keepsBooks_throw _
      · split
        · exact keepsBooks_throw _
        · refine keepsBooks_bind ?_ fun _ => keepsBooks_recordRefund _ _
          refine keepsBooks_bind (keepsBooks_offLedger (offLedger_query
            (by simp [OffLedger, Stmt.writes, ledgerTables]))) fun r => ?_
          cases r with
          | ok _ => exact keepsBooks_pure _
          | error _ => exact keepsBooks_throw _

theorem keepsBooks_processRefund (id : String) : KeepsBooks (RefundsService.processRefund id) := by
  have hupdate : ∀ data, KeepsBooks (query (.refundUpdate id data)) := fun data =>
    keepsBooks_offLedger (offLedger_query (by simp [OffLedger, Stmt.writes, ledgerTables]))
  refine keepsBooks_bind (keepsBooks_offLedger (offLedger_query fun _ h => by cases h)) fun found => ?_
  cases found with
  | none => exact keepsBooks_throw _
  | some refund =>
      simp only
      split
      · exact keepsBooks_throw _
      · refine keepsBooks_bind (keepsBooks_tryCatch (keepsBooks_dispatch refund) fun e => ?_)
          fun _ => hupdate _
        exact keepsBooks_bind (hupdate _) fun _ => keepsBooks_throw _

/-- The side effects of a webhook event. -/
theorem books_applyEvent (type : Js) (data : Option AuthorizeNetData) :
    LogsBooks (AuthorizeNetWebhookController.applyEvent type data) := by
  have hcancel : ∀ userId, LogsBooks
      (do let _ ← SubscriptionsService.cancelImmediately userId; return ()) :=
    fun userId => books_bind (books_offLedger (cancelImmediately_offLedger _)) fun _ => books_pure _
  unfold AuthorizeNetWebhookController.applyEvent
  split
  · exact books_pure _
  · split
    · exact books_throw _
    · next data =>
      split
      · exact books_offLedger (AuthorizeNetWebhookController.subscriptionActivated_offLedger _)
      · exact books_offLedger (AuthorizeNetWebhookController.subscriptionActivated_offLedger _)
      · exact hcancel _
      · exact books_offLedger (AuthorizeNetWebhookController.chargeApproved_offLedger _)
      · exact books_offLedger (AuthorizeNetWebhookController.chargeRefunded_offLedger _)
      · exact hcancel _
      · refine books_bind (books_offLedger (createDispute_offLedger _)) fun dispute => ?_
        split
        · exact books_pure _
        · refine books_bind ?_ fun _ => books_offLedger
            (AuthorizeNetWebhookController.deductDisputed_offLedger _ _)
          refine books_bind (books_account _ _) fun _ => ?_
          refine books_bind (books_account _ _) fun _ => ?_
          refine books_bind books_record fun _ => ?_
          refine books_bind (books_query (by simp [OffLedger, Stmt.writes, ledgerTables])) fun _ => ?_
          exact books_pure _
      · exact books_pure _

theorem keepsBooks_handleWebhook (config : AuthorizeNetConfig) (req : AuthorizeNetRequest) :
    KeepsBooks (AuthorizeNetWebhookController.handleWebhook config req) := by
  unfold AuthorizeNetWebhookController.handleWebhook
  split
  · exact keepsBooks_throw _
  · split
    · exact keepsBooks_throw _
    · refine keepsBooks_bind (keepsBooks_offLedger (offLedger_query nofun)) fun found => ?_
      cases found with
      | some _ => exact keepsBooks_pure _
      | none =>
          refine keepsBooks_tryCatch (keepsBooks_bind (keepsBooks_transaction ?_) fun _ =>
            keepsBooks_pure _) fun e => ?_
          · exact books_bind (books_query (by simp [OffLedger, Stmt.writes, ledgerTables])) fun _ =>
              books_applyEvent _ _
          · split
            · exact keepsBooks_pure _
            · exact keepsBooks_throw _

theorem keepsBooks_handleWon (dispute : Dispute) :
    KeepsBooks (DisputesService.handleWon dispute) := by
  refine keepsBooks_transaction ?_
  refine books_bind (books_account _ _) fun _ => ?_
  refine books_bind (books_account _ _) fun _ => ?_
  refine books_bind books_record fun _ => ?_
  refine books_bind (books_offLedger (restoreCredits_offLedger _)) fun _ => ?_
  exact books_query (by simp [OffLedger, Stmt.writes, ledgerTables])

theorem keepsBooks_handleLost (dispute : Dispute) :
    KeepsBooks (DisputesService.handleLost dispute) := by
  refine keepsBooks_bind ?_ fun fee => keepsBooks_transaction ?_
  · refine keepsBooks_bind ?_ fun _ => keepsBooks_pure _
    refine keepsBooks_bind (keepsBooks_offLedger (offLedger_query nofun)) fun found => ?_
    cases found with
    | none => exact keepsBooks_pure _
    | some _ => exact keepsBooks_pure _
  · refine books_bind (books_account _ _) fun _ => ?_
    refine books_bind (books_account _ _) fun _ => ?_
    refine books_bind books_record fun _ => ?_
    exact books_query (by simp [OffLedger, Stmt.writes, ledgerTables])

theorem keepsBooks_setOutcome (disputeId : String) (outcome : DisputeOutcome) :
    KeepsBooks (DisputesService.setOutcome disputeId outcome) := by
  refine keepsBooks_bind (keepsBooks_offLedger (offLedger_query nofun)) fun found => ?_
  cases found with
  | none => exact keepsBooks_throw _
  | some dispute =>
      simp only
      split
      · exact keepsBooks_throw _
      · cases outcome with
        | WON => exact keepsBooks_handleWon dispute
        | LOST => exact keepsBooks_handleLost dispute

theorem keepsBooks_run (call : LedgerCall) : KeepsBooks call.run := by
  cases call with
  | record request => exact keepsBooks_bind (keepsBooks_record request) fun _ => keepsBooks_pure _
  | recordAll requests => exact keepsBooks_transaction (books_recordAll requests)
  | processRefund id => exact keepsBooks_bind (keepsBooks_processRefund id) fun _ => keepsBooks_pure _
  | handleWebhook config req =>
      exact keepsBooks_bind (keepsBooks_handleWebhook config req) fun _ => keepsBooks_pure _
  | setOutcome disputeId outcome =>
      exact keepsBooks_bind (keepsBooks_setOutcome disputeId outcome) fun _ => keepsBooks_pure _

/-! ## Runs -/

/-- In every state that any interleaving of these calls commits, each account
holds what its entries add up to, every transaction is even, and so are the
debit-normal and the credit-normal accounts. -/
theorem ledgerBooks_kept {ι : Type} [DecidableEq ι] (db : Database) (calls : ι → LedgerCall)
    (haccounts : ∀ a ∈ db.rows .ledgerAccounts, a.balance = 0)
    (htransactions : db.rows .ledgerTransactions = []) (hentries : db.rows .ledgerEntries = [])
    (s : Sys Stmt Data RowWrite RowLock Err Unit ι)
    (h : Runs postgres AnyStep (ledgerSystem db calls) s) :
    (∀ a ∈ s.db .ledgerAccounts, a.balance = bookedTotal a s.db) ∧
      (∀ t ∈ s.db .ledgerTransactions, Balanced (entriesOf t.id s.db)) ∧
      normalTotal true s.db = normalTotal false s.db := by
  have hstart : BooksKept db.rows := by
    refine ⟨fun a ha => ?_, fun t ht => ?_⟩
    · rw [bookedTotal, hentries, haccounts a ha]
      rfl
    · rw [htransactions] at ht
      cases ht
  obtain ⟨hv, hkept, -⟩ := inv_of_runs db.valid hstart (fun i => keepsBooks_run (calls i) _ _) h
  exact ⟨hkept.accounts, hkept.transactions, hkept.trial_balance hv⟩

/-- A database with an asset account and a revenue account. -/
def twoAccounts : Database :=
  .ofWrites [.insert .users ⟨"user"⟩, .insert .users ⟨"test-admin-1"⟩,
    .insert .ledgerAccounts ⟨"asset", "user", .ASSET, 0⟩,
    .insert .ledgerAccounts ⟨"revenue", "test-admin-1", .REVENUE, 0⟩] (by decide)

/-- Two sales, one of them split over two entries of one account. -/
def twoSales (i : Fin 2) : LedgerCall :=
  if i = 0 then
    .record
      { userId := .str "user", description := "sale"
        entries := [⟨"asset", .DEBIT, .int 60⟩, ⟨"revenue", .CREDIT, .int 100⟩,
          ⟨"asset", .DEBIT, .int 40⟩] }
  else
    .recordAll
      [{ userId := .str "user", description := "sale"
         entries := [⟨"asset", .DEBIT, .int 5⟩, ⟨"revenue", .CREDIT, .int 5⟩] }]

/-- The second sale begins while the first is being written. -/
def salesAtOnce : List (Fin 2 × Choice Env) :=
  (["a", "t1", "a", "e1", "a"].map fun id => (0, .go (.ordinary id))) ++
    (["b", "t2", "b", "e2"].map fun id => (1, .go (.ordinary id))) ++
    (["a", "e3", "a", "a", "e4", "a", "a", "a"].map fun id => (0, .go (.ordinary id))) ++
    (["b", "b", "e5", "b", "b", "b"].map fun id => (1, .go (.ordinary id)))

/-- Whether an account has the balance `n`. -/
def accountHolds (id : String) (n : Int) (db : Data) : Bool :=
  (schema.find .ledgerAccounts id db).any (·.balance = n)

/-- Both sales are in the books. -/
theorem salesAtOnce_kept :
    ∃ s, Runs postgres AnyStep (ledgerSystem twoAccounts twoSales) s ∧
      accountHolds "asset" 105 s.db = true ∧
      (∀ a ∈ s.db .ledgerAccounts, a.balance = bookedTotal a s.db) ∧
      (∀ t ∈ s.db .ledgerTransactions, Balanced (entriesOf t.id s.db)) ∧
      normalTotal true s.db = normalTotal false s.db := by
  have hplay : (replay postgres anyTime salesAtOnce (ledgerSystem twoAccounts twoSales)).any
      (fun s => accountHolds "asset" 105 s.db) = true := by decide +kernel
  obtain ⟨s, hs, hsold⟩ := exists_run hplay
  have haccounts : ∀ a ∈ twoAccounts.rows .ledgerAccounts, a.balance = 0 := by decide
  exact ⟨s, hs, hsold, ledgerBooks_kept twoAccounts twoSales haccounts rfl rfl s hs⟩

end PaymentBilling
