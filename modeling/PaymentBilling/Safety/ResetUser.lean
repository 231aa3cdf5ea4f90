import PaymentBilling.Safety.LedgerBooks
import PaymentBilling.Safety.DisputeBooks
import PaymentBilling.Services.Simulator
import PaymentBilling.Spec.Operations

/-!
# Safety.ResetUser

What is left of the books after the reset of a user.

The reset deletes the entries of the user's transactions, on whatever account
they are, and leaves every balance as it is.  So the books survive it exactly
if what it deletes adds up to nothing on each account.
-/

namespace PaymentBilling

open Relational Transact SimulatorService

/-- What the user's transactions have added to an account. -/
def ownTotal (user : String) (account : LedgerAccount) (db : Data) : Int :=
  (((db .ledgerEntries).filter fun e => e.accountId = account.id && ofTransaction user db e).map
    fun e => entryChange account.accountType e.entryType e.amount).sum

/-- The user's transactions have added nothing to any account, and the user has
no assets. -/
structure Undone (user : String) (db : Data) : Prop where
  accounts : ∀ a ∈ db .ledgerAccounts, ownTotal user a db = 0
  asset : accountBalance user .ASSET db = 0

/-- Every account holds what its entries add up to, and the user has no assets. -/
structure BooksReset (user : String) (db : Data) : Prop where
  accounts : ∀ a ∈ db .ledgerAccounts, a.balance = bookedTotal a db
  asset : accountBalance user .ASSET db = 0

instance (user : String) (db : Data) : Decidable (Undone user db) :=
  decidable_of_iff ((∀ a ∈ db .ledgerAccounts, ownTotal user a db = 0) ∧ accountBalance user .ASSET db = 0)
    ⟨fun h => ⟨h.1, h.2⟩, fun h => ⟨h.accounts, h.asset⟩⟩

instance (user : String) (db : Data) : Decidable (BooksReset user db) :=
  decidable_of_iff ((∀ a ∈ db .ledgerAccounts, a.balance = bookedTotal a db) ∧
      accountBalance user .ASSET db = 0) ⟨fun h => ⟨h.1, h.2⟩, fun h => ⟨h.accounts, h.asset⟩⟩

section Deletion

variable {t t' : Table} {condition : Row t → Bool} {db db' : Data} {user : String}
  {response : ResetResponse}

theorem deleteMany_self : deleteMany t condition db t = (db t).filter fun row => !condition row :=
  Function.update_self ..

theorem deleteMany_other (h : t' ≠ t) : deleteMany t condition db t' = db t' :=
  Function.update_of_ne h ..

/-- The accounts and the entries after a reset. -/
theorem ledger_of_reset (h : resetUser user db = .ok (response, db')) :
    db' .ledgerAccounts = db .ledgerAccounts ∧
      db' .ledgerEntries = (db .ledgerEntries).filter fun e => !ofTransaction user db e := by
  unfold resetUser at h
  split at h
  · cases h
  · obtain ⟨-, rfl⟩ := Prod.mk.inj (Except.ok.inj h)
    have hcredits : ∀ t, t ≠ .credits → t ≠ .creditTransactions → deleteCredits user db t = db t :=
      fun t ht ht' => (deleteMany_other ht).trans (deleteMany_other ht')
    have hsame : ofTransaction user (deleteCredits user db) = ofTransaction user db := by
      funext e
      rw [ofTransaction, Schema.find, hcredits _ (by decide) (by decide), ofTransaction, Schema.find]
    simp (disch := decide) only [deleteDisputes, deleteSubscription, deleteLedger, deleteMany_other,
      deleteMany_self, hsame, hcredits, and_self]

/-- A sum is that of the elements with a property and that of the others. -/
theorem sum_filter_add {α : Type} (p q : α → Bool) (f : α → Int) (l : List α) :
    ((l.filter p).map f).sum = ((l.filter fun x => p x && q x).map f).sum +
      (((l.filter fun x => !q x).filter p).map f).sum := by
  induction l with
  | nil => rfl
  | cons x l ih =>
      cases hp : p x <;> cases hq : q x <;>
        simp only [List.filter_cons, hp, hq, Bool.and_false, Bool.and_true, Bool.not_true, Bool.not_false,
          Bool.false_eq_true, if_true, if_false, List.map_cons, List.sum_cons, ih] <;> omega

/-- What the entries of an account add up to before and after a reset. -/
theorem bookedTotal_of_reset (h : resetUser user db = .ok (response, db')) (account : LedgerAccount) :
    bookedTotal account db = ownTotal user account db + bookedTotal account db' := by
  obtain ⟨-, hentries⟩ := ledger_of_reset h
  rw [bookedTotal, sum_filter_add _ (ofTransaction user db), ownTotal, bookedTotal, hentries]

/-- The books survive the reset exactly if what it deletes adds up to nothing. -/
theorem booksReset_iff (h : resetUser user db = .ok (response, db'))
    (hbooks : ∀ a ∈ db .ledgerAccounts, a.balance = bookedTotal a db) :
    BooksReset user db' ↔ Undone user db := by
  obtain ⟨haccounts, -⟩ := ledger_of_reset h
  have hasset : accountBalance user .ASSET db' = accountBalance user .ASSET db :=
    accountBalance_of_same haccounts
  constructor
  · rintro ⟨hreset, hzero⟩
    refine ⟨fun a ha => ?_, hasset ▸ hzero⟩
    have hbefore := hbooks a ha
    have hafter := hreset a (haccounts.symm ▸ ha)
    have hsplit := bookedTotal_of_reset h a
    omega
  · rintro ⟨hundone, hzero⟩
    refine ⟨fun a ha => ?_, hasset.trans hzero⟩
    rw [haccounts] at ha
    have hbefore := hbooks a ha
    have hown := hundone a ha
    have hsplit := bookedTotal_of_reset h a
    omega

end Deletion

/-! ## Runs -/

/-- The decisions about a request do not touch the ledger. -/
theorem keepsBooks_refundCall (id : String) (call : RefundCall) : KeepsBooks (call.run id) := by
  have hreview : ∀ verb data, KeepsBooks (RefundsService.findPending id verb >>= fun _ =>
      query (.refundUpdate id data)) := fun verb data =>
    keepsBooks_offLedger (only_bind (offLedger_of_writesIn (by decide)
      (RefundsService.findPending_only id verb)) fun _ =>
        offLedger_query (by simp [OffLedger, Stmt.writes, ledgerTables]))
  cases call with
  | approve adminId notes => exact hreview _ _
  | deny adminId notes =>
      unfold RefundCall.run RefundsService.denyRefund
      simp only
      split
      · exact keepsBooks_throw _
      · exact hreview _ _
  | process => exact keepsBooks_processRefund id

/-- Neither does evidence. -/
theorem keepsBooks_disputeCall (id : String) (call : DisputeCall) : KeepsBooks (call.run id) := by
  cases call with
  | evidence submittedBy evidenceType content metadata =>
      refine keepsBooks_bind (keepsBooks_bind (keepsBooks_offLedger (offLedger_query nofun))
        fun found => ?_) fun _ => keepsBooks_pure _
      cases found with
      | none => exact keepsBooks_throw _
      | some dispute =>
          have hupdate : KeepsBooks (query (.disputeUpdate id .evidenceSubmitted)) :=
            keepsBooks_offLedger (offLedger_query (by simp [OffLedger, Stmt.writes, ledgerTables]))
          refine keepsBooks_bind (keepsBooks_offLedger (offLedger_query
            (by simp [OffLedger, Stmt.writes, ledgerTables]))) fun _ => ?_
          split
          · exact keepsBooks_bind hupdate fun _ => keepsBooks_pure _
          · exact keepsBooks_pure _
  | outcome o => exact keepsBooks_bind (keepsBooks_setOutcome id o) fun _ => keepsBooks_pure _

/-- An operation keeps the books at each of its steps. -/
theorem keepsBooks_operation (op : Operation) : KeepsBooks op.run := by
  have hunit : ∀ {α : Type} {p : Action α}, KeepsBooks p → KeepsBooks (do let _ ← p; return ()) :=
    fun h => keepsBooks_bind h fun _ => keepsBooks_pure ()
  have hsubscription : ∀ {α : Type} {p : Action α}, Only (WritesIn [.subscriptions]) p 0 → KeepsBooks p :=
    fun h => keepsBooks_offLedger (offLedger_of_writesIn (by decide) h)
  cases op with
  | card config req => exact keepsBooks_run (.handleWebhook config req)
  | chain setting event =>
      refine hunit (keepsBooks_offLedger (SolanaConfirmationController.handleConfirmation_only setting
        event (fun _ _ => nofun) (fun _ _ => ?_) fun data _ => applyConfirmation_offLedger data))
      simp [OffLedger, Stmt.writes, ledgerTables]
  | createRefund userId data =>
      exact hunit (keepsBooks_offLedger (offLedger_of_writesIn (T := [.refundRequests]) (by decide)
        (RefundsService.createRefundRequest_only userId data)))
  | refund id call => exact hunit (keepsBooks_refundCall id call)
  | dispute id call => exact keepsBooks_disputeCall id call
  | cancelAtPeriodEnd userId =>
      exact hunit (hsubscription (SubscriptionsService.cancelAtPeriodEnd_only userId))
  | cancelImmediately userId =>
      exact hunit (hsubscription (SubscriptionsService.cancelImmediately_only userId))
  | reactivate userId => exact hunit (hsubscription (SubscriptionsService.reactivate_only userId))

/-- In every state that operations reach from kept books, the reset of a user
leaves every account with what its entries add up to, and the user without
assets, exactly if the user's transactions have added nothing to any account and
the user had no assets. -/
theorem resetUser_books {ι : Type} [DecidableEq ι] (db : Database) (ops : ι → Operation)
    (hbooks : BooksKept db.rows) (s : Sys Stmt Data RowWrite RowLock Err Unit ι)
    (hruns : Runs postgres AnyStep (operations db ops) s) (user : String) (response : ResetResponse)
    (db' : Data) (hreset : resetUser user s.db = .ok (response, db')) :
    BooksReset user db' ↔ Undone user s.db := by
  obtain ⟨-, hkept, -⟩ := inv_of_runs db.valid hbooks (fun i => keepsBooks_operation (ops i) _ _) hruns
  exact booksReset_iff hreset hkept.accounts

/-! ## A reset after a chargeback -/

/-- A charge of 100 cents is disputed, and the dispute is won. -/
def disputedThenWon : Fin 2 → Operation
  | 0 => .card constantHmac
      { rawBody := [], signature := some "01"
        body := { eventId := .str "event_1", type := .str "chargeback.received"
                  data := some { userId := .str "user", transactionId := .str "charge_1"
                                 amount := .int 100 } } }
  | 1 => .dispute "a" (.outcome .WON)

/-- The books are those of a user with entries that add up to nothing. -/
def undoneNow (user : String) (db : Data) : Bool :=
  (db .ledgerEntries).any (ofTransaction user db) && (schema.find .users user db).isSome &&
    decide (Undone user db)

theorem disputedThenWon_reset :
    ∃ s db', Runs postgres AnyStep (operations twoUsers disputedThenWon) s ∧
      (s.db .ledgerEntries).any (ofTransaction "user" s.db) = true ∧
      resetUser "user" s.db = .ok ({ userId := "user" }, db') ∧ BooksReset "user" db' := by
  have hplay : (replay postgres anyTime
      (List.replicate 22 (0, .go (.ordinary "a")) ++ List.replicate 20 (1, .go (.ordinary "b")))
      (operations twoUsers disputedThenWon)).any (fun s => undoneNow "user" s.db) = true := by
    decide +kernel
  obtain ⟨s, hruns, hgoal⟩ := exists_run hplay
  simp only [undoneNow, Bool.and_eq_true, decide_eq_true_eq, Option.isSome_iff_exists] at hgoal
  obtain ⟨⟨hentries, row, hrow⟩, hundone⟩ := hgoal
  have hreset : ∃ db', resetUser "user" s.db = .ok ({ userId := "user" }, db') := by
    rw [resetUser, hrow]
    exact ⟨_, rfl⟩
  obtain ⟨db', hreset⟩ := hreset
  have hbooks : BooksKept twoUsers.rows := ⟨fun _ h => (by cases h), fun _ h => by cases h⟩
  exact ⟨s, db', hruns, hentries, hreset,
    (resetUser_books twoUsers disputedThenWon hbooks s hruns "user" _ db' hreset).mpr hundone⟩

/-- The books after the reset of a user are wrong. -/
def brokenAfterReset (user : String) (db : Data) : Bool :=
  match resetUser user db with
  | .ok (_, db') => !decide (BooksReset user db')
  | .error _ => false

theorem disputed_resetBroken :
    ∃ s response db', Runs postgres AnyStep (operations twoUsers disputedThenWon) s ∧
      resetUser "user" s.db = .ok (response, db') ∧ ¬BooksReset "user" db' := by
  have hplay : (replay postgres anyTime (List.replicate 22 (0, .go (.ordinary "a")))
      (operations twoUsers disputedThenWon)).any (fun s => brokenAfterReset "user" s.db) = true := by
    decide +kernel
  obtain ⟨s, hruns, hgoal⟩ := exists_run hplay
  unfold brokenAfterReset at hgoal
  split at hgoal
  · next response db' hreset =>
    exact ⟨s, response, db', hruns, hreset, of_decide_eq_false (Bool.not_eq_true' _ ▸ hgoal)⟩
  · cases hgoal

end PaymentBilling
