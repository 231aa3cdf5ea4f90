import PaymentBilling.Safety.RefundedValue
import PaymentBilling.Spec.Journal
import PaymentBilling.Spec.TransferProgress

/-!
# Spec.Sources

The transactions of the ledger and what they are for.

Every transaction moves one amount from one account to another, and there is
something else in the database that gives the reason: a refund that a gateway
has executed, a dispute, or the outcome of one (`Explained`).  Every operation
posts for its own source only (`Commit.ledger`).
-/

namespace PaymentBilling

open Relational Transact AuthorizeNetWebhookController

/-! ## The ledger before and after -/

/-- Nothing is posted; accounts may be opened. -/
structure SameLedger (db db' : Data) : Prop where
  transactions : db' .ledgerTransactions = db .ledgerTransactions
  entries : ∀ id, entriesOf id db' = entriesOf id db
  balance : ∀ user type, accountBalance user type db' = accountBalance user type db

section SameLedger

variable {db db' db₁ db₂ : Data} {ws : List RowWrite} {key : Option String} {slots : List Slot}
  {txn : LedgerTransaction}

theorem sameLedger_of_tables (h : ∀ t ∈ ledgerTables, db' t = db t) : SameLedger db db' where
  transactions := h _ (by decide)
  entries id := by rw [entriesOf, entriesOf, h _ (by decide)]
  balance _ _ := accountBalance_of_same (h _ (by decide))

theorem sameLedger_of_writes (h : ∀ w ∈ ws, w.table ∉ ledgerTables) :
    SameLedger db (postgres.applyAll ws db) :=
  sameLedger_of_tables fun _ ht => applyAll_other fun w hw heq => h w hw (heq ▸ ht)

theorem Unposted.sameLedger (h : Unposted key db db') : SameLedger db db' :=
  ⟨h.transactions, h.entries, h.balance⟩

theorem SameLedger.refl (db : Data) : SameLedger db db := ⟨rfl, fun _ => rfl, fun _ _ => rfl⟩

theorem SameLedger.trans (h : SameLedger db db₁) (h' : SameLedger db₁ db') : SameLedger db db' where
  transactions := h'.transactions.trans h.transactions
  entries id := (h'.entries id).trans (h.entries id)
  balance user type := (h'.balance user type).trans (h.balance user type)

/-- A posting between writes elsewhere. -/
theorem Posted.between (h : Posted key slots txn db₁ db₂) (h₁ : SameLedger db db₁)
    (h₂ : SameLedger db₂ db') (hle : schema.le db₂ db') : Posted key slots txn db db' where
  transactions := by rw [h₂.transactions, h.transactions, h₁.transactions]
  key_eq := h.key_eq
  fresh k hk t ht := h.fresh k hk t (h₁.transactions ▸ ht)
  filled := by
    rw [h₂.entries]
    exact fills_mono hle h.filled
  entries t ht := (h₂.entries t.id).trans ((h.entries t (h₁.transactions ▸ ht)).trans (h₁.entries t.id))
  balance user type := by rw [h₂.balance, h.balance, h₁.balance]

end SameLedger

/-! ## Reasons -/

namespace LedgerSource

/-- The two entries, when the amount is `n` and the user is `user`. -/
def slots (user : String) (n : Int) : LedgerSource → List Slot
  | refund _ => refundSlots user n
  | chargeback _ => refundSlots user n
  | outcome _ .WON =>
    [⟨user, .ASSET, .DEBIT, n⟩, ⟨LedgerService.SYSTEM_USER_ID, .REVENUE, .CREDIT, n⟩]
  | outcome _ .LOST =>
    [⟨LedgerService.SYSTEM_USER_ID, .EXPENSE, .DEBIT, n⟩, ⟨user, .ASSET, .CREDIT, n⟩]

/-- Why the amount moves: a gateway has refunded it to the user, a charge of the
user is disputed, or a dispute of theirs is won; the fee of a dispute that is
lost is whatever was configured. -/
def Grounds (user : String) (n : Int) (db : Data) : LedgerSource → Prop
  | refund id => ∃ r g, schema.find .refundRequests id db = some r ∧ r.type = .PAYMENT ∧
      r.status ≠ .PENDING ∧ r.userId = user ∧ GatewayRefunded id g db ∧ g.refundedAmount = .int n
  | chargeback transactionId => ∃ id d, schema.find .disputes id db = some d ∧
      d.originalTransactionId = transactionId ∧ d.gatewayDisputeId = gatewayDisputeKey transactionId ∧
      d.userId = user ∧ d.amount = n
  | outcome id .WON => ∃ d, schema.find .disputes id db = some d ∧ d.userId = user ∧ d.amount = n
  | outcome id .LOST => ∃ d, schema.find .disputes id db = some d ∧ d.userId = user

end LedgerSource

/-- The transaction is what its source says: its key, its user and its entries. -/
structure Explained (src : LedgerSource) (txn : LedgerTransaction) (user : String) (n : Int) (db : Data) :
    Prop where
  grounds : src.Grounds user n db
  key : txn.idempotencyKey = some src.key
  owner : txn.userId = some user
  filled : List.Forall₂ (Fills db) (src.slots user n) (entriesOf txn.id db)
  positive : 0 < n

section Reasons

variable {src : LedgerSource} {txn : LedgerTransaction} {user : String} {n : Int} {db db' : Data}
  {ws : List RowWrite} {x : Transfer}

/-- Reasons last. -/
theorem LedgerSource.Grounds.later (h : src.Grounds user n db) (hle : schema.le db db')
    (hlater : Later db db') : src.Grounds user n db' := by
  have hdispute : ∀ {id : String} {d : Dispute}, schema.find .disputes id db = some d →
      ∃ d', schema.find .disputes id db' = some d' ∧ SameDispute d d' := fun hd => dispute_of_le hle hd
  cases src with
  | refund id =>
      obtain ⟨r, g, hr, htype, hstatus, huser, hg, hn⟩ := h
      obtain ⟨r', hr', hadv⟩ := hlater id r hr
      have hsame := sameRequest_of_le hle hr hr'
      exact ⟨r', g, hr', hsame.type.trans htype, hadv.reviewed hstatus, hsame.userId.trans huser,
        hg.mono hle, hn⟩
  | chargeback transactionId =>
      obtain ⟨id, d, hd, horiginal, hgateway, huser, hn⟩ := h
      obtain ⟨d', hd', hsame⟩ := hdispute hd
      exact ⟨id, d', hd', hsame.originalTransactionId.trans horiginal,
        hsame.gatewayDisputeId.trans hgateway, hsame.userId.trans huser, hsame.amount.trans hn⟩
  | outcome id o =>
      cases o with
      | WON =>
          obtain ⟨d, hd, huser, hn⟩ := h
          obtain ⟨d', hd', hsame⟩ := hdispute hd
          exact ⟨d', hd', hsame.userId.trans huser, hsame.amount.trans hn⟩
      | LOST =>
          obtain ⟨d, hd, huser⟩ := h
          obtain ⟨d', hd', hsame⟩ := hdispute hd
          exact ⟨d', hd', hsame.userId.trans huser⟩

theorem Explained.later (h : Explained src txn user n db) (hle : schema.le db db')
    (hlater : Later db db') (hentries : entriesOf txn.id db' = entriesOf txn.id db) :
    Explained src txn user n db' where
  grounds := h.grounds.later hle hlater
  key := h.key
  owner := h.owner
  filled := by
    rw [hentries]
    exact fills_mono hle h.filled
  positive := h.positive

/-- A transfer of a fresh key has two accounts and two entries. -/
theorem Transferred.lines (h : Transferred x txn ws db) (hv : schema.Valid db)
    (hfits : locking.fitsAll ws db)
    (hfresh : ∀ k, x.key = some k → ∀ t ∈ db .ledgerTransactions, t.idempotencyKey ≠ some k) :
    ∃ user₁ id₁ id₂ lines, x.firstUser = .str user₁ ∧ List.Forall₂ LineOf (x.entries id₁ id₂) lines := by
  rcases h.transactions hv hfits with ⟨-, -, hmem, k, hk, hkey⟩ | ⟨-, -, -, -, user₁, -, id₁, id₂, lines,
    hu₁, -, -, -, -, hlines⟩
  · exact (hfresh k hk txn hmem hkey).elim
  · exact ⟨user₁, id₁, id₂, lines, hu₁, hlines⟩

/-- A transfer under the key of a source is known, or it is new and has its
reason. -/
theorem Transferred.explained (h : Transferred x txn ws db) (hv : schema.Valid db)
    (hfits : locking.fitsAll ws db) (hkey : x.key = some src.key)
    (hregisters : ∀ w ∈ ws, Registers (.str user) w)
    (hreason : ∀ a b lines, List.Forall₂ LineOf (x.entries a b) lines →
      ∃ n, x.HasSlots (src.slots user n) ∧ src.Grounds user n (postgres.applyAll ws db)) :
    SameLedger db (postgres.applyAll ws db) ∨
      ∃ n, Posted (some src.key) (src.slots user n) txn db (postgres.applyAll ws db) ∧
        Explained src txn user n (postgres.applyAll ws db) := by
  rcases h.posted hv hfits with hknown | ⟨hfresh, hposted⟩
  · exact .inl hknown.sameLedger
  obtain ⟨-, a, b, lines, -, hlines⟩ := h.lines hv hfits hfresh
  obtain ⟨n, hslots, hgrounds⟩ := hreason a b lines hlines
  have hnew := hposted _ hslots
  refine .inr ⟨n, hkey ▸ hnew, hgrounds, hnew.key_eq.trans hkey, ?_, hnew.filled, ?_⟩
  · have hmem : txn ∈ postgres.applyAll ws db .ledgerTransactions := by
      rw [hnew.transactions]
      exact List.mem_append_right _ (.head _)
    rcases mem_applyAll_of_noPatch (fun p => by cases p) hmem with hold | hinsert
    · exact (hfresh _ hkey txn hold (hnew.key_eq.trans hkey)).elim
    · exact (Option.some.inj (hregisters _ hinsert txn rfl)).symm
  · have hamounts := amounts_of_transferred h hv hfits hfresh hslots
    cases src with
    | outcome id o => cases o <;> exact (hamounts _ (.head _)).1
    | _ => exact (hamounts _ (.head _)).1

end Reasons

end PaymentBilling
