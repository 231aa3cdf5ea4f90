import PaymentBilling.Safety.DisputeTrail
import PaymentBilling.Safety.Statements

/-!
# Safety.BalanceSheet

The balances of the ledger, from the rows that they are about.

Every transaction is booked for a dispute or a refund request, and there is at
most one under each key.  So all balances follow from the disputes, the requests
and what the gateways have paid back; and no account has a balance but those of
the users and two of the system.
-/

namespace PaymentBilling

open Relational Transact

/-! ## Transactions by their keys -/

/-- The transactions under a key. -/
def under (key : String) (db : Data) : List LedgerTransaction :=
  (db .ledgerTransactions).filter (·.idempotencyKey = some key)

/-- What is booked under a key to an account. -/
def bookedUnder (key user : String) (type : LedgerAccountType) (db : Data) : Int :=
  ((under key db).map fun t => addedTo user type (entriesOf t.id db) db).sum

/-- All that something may be booked for. -/
def ledgerSources (db : Data) : List LedgerSource :=
  (db .disputes).map (.chargeback ·.originalTransactionId) ++
    ((db .disputes).map (.outcome ·.id .WON) ++
      ((db .disputes).map (.outcome ·.id .LOST) ++ (db .refundRequests).map (.refund ·.id)))

section Keys

variable {db : Data} {txn : LedgerTransaction} {key user userId : String} {type : LedgerAccountType}
  {src : LedgerSource} {n : Int} {d : Dispute}

/-- There is one transaction under a key at most. -/
theorem under_eq_singleton (hv : schema.Valid db) (htxn : txn ∈ db .ledgerTransactions)
    (hkey : txn.idempotencyKey = some key) : under key db = [txn] := by
  have hunique : ∀ t ∈ db .ledgerTransactions,
      decide (t.idempotencyKey = some key) = decide (t = txn) := by
    intro t ht
    rw [decide_eq_decide]
    constructor
    · intro ht_key
      exact hv.eq_of_key (t := .ledgerTransactions) (k := .idempotencyKey key) ht htxn
        (by simp [schema, ht_key]) (by simp [schema, hkey])
    · intro hsame
      exact hsame ▸ hkey
  have hnodup : (db .ledgerTransactions).Nodup := (hv.ids .ledgerTransactions).of_map _
  rw [under, List.filter_congr hunique, List.filter_eq, List.count_eq_one_of_mem hnodup htxn]
  rfl

theorem under_eq_nil (h : ¬HasKey key db) : under key db = [] := by
  refine List.filter_eq_nil_iff.mpr fun t ht hkey => h ⟨t, ht, ?_⟩
  exact of_decide_eq_true hkey

/-- What is booked for a source are the two entries of it. -/
theorem bookedUnder_of_explained (hv : schema.Valid db) (htxn : txn ∈ db .ledgerTransactions)
    (h : Explained src txn user n db) :
    bookedUnder src.key userId type db = slotTotal userId type (src.slots user n) := by
  rw [bookedUnder, under_eq_singleton hv htxn h.key]
  simp [addedTo_eq _ _ h.filled]

/-- A transaction under the key of a source is explained by it. -/
theorem LedgerTrail.explained_by (h : LedgerTrail db) (src : LedgerSource) (hkey : HasKey src.key db) :
    ∃ txn ∈ db .ledgerTransactions, ∃ user n, Explained src txn user n db := by
  obtain ⟨txn, htxn, htxn_key⟩ := hkey
  obtain ⟨src', user, n, hexplained⟩ := h.explained txn htxn
  have hsrc : src' = src :=
    LedgerSource.key_injective (Option.some.inj (hexplained.key.symm.trans htxn_key))
  exact ⟨txn, htxn, user, n, hsrc ▸ hexplained⟩

theorem bookedUnder_of_none (h : ¬HasKey key db) : bookedUnder key userId type db = 0 := by
  rw [bookedUnder, under_eq_nil h]
  rfl

/-- No two disputes are about one charge. -/
theorem LedgerTrail.charges_nodup (h : LedgerTrail db) (hv : schema.Valid db) :
    ((db .disputes).map (·.originalTransactionId)).Nodup := by
  refine List.Nodup.map_on (fun d hd d' hd' hsame => ?_) ((hv.ids .disputes).of_map _)
  have hgateway := (h.reversal hv hd).1
  have hgateway' := (h.reversal hv hd').1
  exact hv.eq_of_key (t := .disputes) (k := .gatewayDisputeId d.gatewayDisputeId) hd hd'
    (by simp [schema]) (by simp [schema, hgateway, hgateway', hsame])

theorem ledgerSources_nodup (hv : schema.Valid db) (h : LedgerTrail db) : (ledgerSources db).Nodup := by
  have hcharges : ((db .disputes).map fun d => LedgerSource.chargeback d.originalTransactionId).Nodup := by
    have hmap := (h.charges_nodup hv).map (f := LedgerSource.chargeback) fun _ _ hsame =>
      LedgerSource.chargeback.inj hsame
    rwa [List.map_map] at hmap
  have houtcomes : ∀ o, ((db .disputes).map fun d => LedgerSource.outcome d.id o).Nodup := by
    intro o
    have hmap := (hv.ids .disputes).map (f := (LedgerSource.outcome · o)) fun _ _ hsame =>
      (LedgerSource.outcome.inj hsame).1
    rwa [List.map_map] at hmap
  have hrefunds : ((db .refundRequests).map fun r => LedgerSource.refund r.id).Nodup := by
    have hmap := (hv.ids .refundRequests).map (f := LedgerSource.refund) fun _ _ hsame =>
      LedgerSource.refund.inj hsame
    rwa [List.map_map] at hmap
  refine List.nodup_append.mpr ⟨hcharges, List.nodup_append.mpr ⟨houtcomes .WON, List.nodup_append.mpr
    ⟨houtcomes .LOST, hrefunds, ?_⟩, ?_⟩, ?_⟩
  all_goals
    intro a ha b hb hsame
    simp only [List.mem_append, List.mem_map] at ha hb
    grind

/-- Every transaction is booked for a dispute or for a request. -/
theorem LedgerTrail.mem_sources (h : LedgerTrail db) (htxn : txn ∈ db .ledgerTransactions) :
    ∃ src ∈ ledgerSources db, txn.idempotencyKey = some src.key := by
  obtain ⟨src, user, n, hexplained⟩ := h.explained txn htxn
  refine ⟨src, ?_, hexplained.key⟩
  simp only [ledgerSources, List.mem_append, List.mem_map]
  have hgrounds := hexplained.grounds
  cases src with
  | refund id =>
      obtain ⟨r, g, hr, -⟩ := hgrounds
      exact .inr (.inr (.inr ⟨r, Schema.mem_of_find hr, congrArg _ (Schema.id_of_find hr)⟩))
  | chargeback transactionId =>
      obtain ⟨id, d, hd, horiginal, -⟩ := hgrounds
      exact .inl ⟨d, Schema.mem_of_find hd, congrArg _ horiginal⟩
  | outcome id o =>
      cases o with
      | WON =>
          obtain ⟨d, hd, -⟩ := hgrounds
          exact .inr (.inl ⟨d, Schema.mem_of_find hd, by rw [show d.id = id from Schema.id_of_find hd]⟩)
      | LOST =>
          obtain ⟨d, hd, -⟩ := hgrounds
          exact .inr (.inr (.inl ⟨d, Schema.mem_of_find hd, by rw [show d.id = id from Schema.id_of_find hd]⟩))

/-- A balance is what is booked for each of the sources. -/
theorem balance_eq_sources (hv : schema.Valid db) (hbooks : BooksKept db) (h : LedgerTrail db) :
    accountBalance userId type db =
      ((ledgerSources db).map fun src => bookedUnder src.key userId type db).sum := by
  have hnodup : ((ledgerSources db).map fun src => some src.key).Nodup :=
    (ledgerSources_nodup hv h).map fun _ _ hsame => LedgerSource.key_injective (Option.some.inj hsame)
  have hkeys : ∀ t ∈ db .ledgerTransactions,
      t.idempotencyKey ∈ (ledgerSources db).map fun src => some src.key := by
    intro t ht
    obtain ⟨src, hsrc, hkey⟩ := h.mem_sources ht
    exact List.mem_map.mpr ⟨src, hsrc, hkey.symm⟩
  rw [balance_eq_added hv hbooks, ← Bookkeeping.sum_by_key hnodup _ _ hkeys, List.map_map]
  rfl

end Keys

/-! ## Amounts of disputes and requests -/

instance (key : String) (db : Data) : Decidable (HasKey key db) :=
  inferInstanceAs (Decidable (∃ txn ∈ db .ledgerTransactions, txn.idempotencyKey = some key))

/-- The amount of a value that is a whole number of cents. -/
def Js.cents : Js → Int
  | num (.fin q) => q.num
  | _ => 0

@[simp] theorem Js.cents_int (n : Int) : (Js.int n).cents = n := rfl

/-- What entries debit. -/
def debited (entries : List LedgerEntry) : Int :=
  ((entries.filter (·.entryType = .DEBIT)).map (·.amount)).sum

/-- What has come back since the dispute was won. -/
def Dispute.wonBack (d : Dispute) (db : Data) : Int :=
  if HasKey (outcomeKey d.id .WON) db then d.amount else 0

/-- The fee that losing the dispute has cost. -/
def Dispute.fee (d : Dispute) (db : Data) : Int :=
  ((under (outcomeKey d.id .LOST) db).map fun t => debited (entriesOf t.id db)).sum

/-- What the gateway has paid back for the request, once that is booked. -/
def RefundRequest.paidBack (r : RefundRequest) (db : Data) : Int :=
  if HasKey (refundLedgerKey r.id) db then
    ((schema.find .gatewayRefunds (refundKey r.id) db).map (·.refundedAmount.cents)).getD 0
  else 0

section Amounts

variable {db : Data} {user userId : String} {type : LedgerAccountType} {src : LedgerSource} {n : Int}
  {d : Dispute} {r : RefundRequest} {entries : List LedgerEntry}

theorem slotTotal_pair (a b : Slot) : slotTotal userId type [a, b] =
    (if a.user = userId ∧ a.type = type then a.change else 0) +
      if b.user = userId ∧ b.type = type then b.change else 0 := by
  rw [slotTotal_cons, slotTotal_cons, slotTotal]
  simp

theorem slotTotal_zero : slotTotal userId type (src.slots user 0) = 0 := by
  have hzero : ∀ a : Slot, a.amount = 0 → a.change = 0 := by
    intro a ha
    simp [Slot.change, entryChange, Bookkeeping.signed, ha]
  cases src with
  | outcome id o => cases o <;> simp [LedgerSource.slots, slotTotal_pair, hzero]
  | _ => simp [LedgerSource.slots, refundSlots, slotTotal_pair, hzero]

/-- The two entries of a source debit its amount. -/
theorem debited_of_filled (h : List.Forall₂ (Fills db) (src.slots user n) entries) :
    debited entries = n := by
  have hpair : ∀ {a b : Slot}, List.Forall₂ (Fills db) [a, b] entries → a.entryType = .DEBIT →
      b.entryType = .CREDIT → debited entries = a.amount := by
    intro a b hfills ha hb
    cases hfills with
    | cons hfirst hrest =>
        cases hrest with
        | cons hsecond hnil =>
            cases hnil
            simp [debited, hfirst.entryType, hsecond.entryType, ha, hb, hfirst.amount]
  cases src with
  | outcome id o => cases o <;> exact hpair h rfl rfl
  | _ => exact hpair h rfl rfl

theorem booked_chargeback (hv : schema.Valid db) (h : LedgerTrail db) (hd : d ∈ db .disputes) :
    bookedUnder (LedgerSource.chargeback d.originalTransactionId).key userId type db =
      slotTotal userId type
        ((LedgerSource.chargeback d.originalTransactionId).slots d.userId d.amount) := by
  obtain ⟨-, txn, htxn, -, hexplained⟩ := h.reversal hv hd
  exact bookedUnder_of_explained hv htxn hexplained

theorem booked_won (hv : schema.Valid db) (h : LedgerTrail db) (hd : d ∈ db .disputes) :
    bookedUnder (LedgerSource.outcome d.id .WON).key userId type db =
      slotTotal userId type ((LedgerSource.outcome d.id .WON).slots d.userId (d.wonBack db)) := by
  by_cases hkey : HasKey (outcomeKey d.id .WON) db
  · obtain ⟨txn, htxn, user, n, hexplained⟩ := h.explained_by (.outcome d.id .WON) hkey
    obtain ⟨d', hd', rfl, rfl⟩ := hexplained.grounds
    obtain rfl : d = d' := Option.some.inj ((hv.find_of_mem hd).symm.trans hd')
    rw [Dispute.wonBack, if_pos hkey]
    exact bookedUnder_of_explained hv htxn hexplained
  · rw [Dispute.wonBack, if_neg hkey, slotTotal_zero]
    exact bookedUnder_of_none hkey

theorem booked_lost (hv : schema.Valid db) (h : LedgerTrail db) (hd : d ∈ db .disputes) :
    bookedUnder (LedgerSource.outcome d.id .LOST).key userId type db =
      slotTotal userId type ((LedgerSource.outcome d.id .LOST).slots d.userId (d.fee db)) := by
  by_cases hkey : HasKey (outcomeKey d.id .LOST) db
  · obtain ⟨txn, htxn, user, n, hexplained⟩ := h.explained_by (.outcome d.id .LOST) hkey
    obtain ⟨d', hd', rfl⟩ := hexplained.grounds
    obtain rfl : d = d' := Option.some.inj ((hv.find_of_mem hd).symm.trans hd')
    have hfee : d.fee db = n := by
      have hunder : under (outcomeKey d.id .LOST) db = [txn] :=
        under_eq_singleton hv htxn hexplained.key
      rw [Dispute.fee, hunder]
      simp [debited_of_filled hexplained.filled]
    rw [hfee]
    exact bookedUnder_of_explained hv htxn hexplained
  · have hfee : d.fee db = 0 := by
      rw [Dispute.fee, under_eq_nil hkey]
      rfl
    rw [hfee, slotTotal_zero]
    exact bookedUnder_of_none hkey

theorem booked_refund (hv : schema.Valid db) (h : LedgerTrail db) (hr : r ∈ db .refundRequests) :
    bookedUnder (LedgerSource.refund r.id).key userId type db =
      slotTotal userId type ((LedgerSource.refund r.id).slots r.userId (r.paidBack db)) := by
  by_cases hkey : HasKey (refundLedgerKey r.id) db
  · obtain ⟨txn, htxn, user, n, hexplained⟩ := h.explained_by (.refund r.id) hkey
    obtain ⟨r', g, hr', -, -, rfl, hg, hn⟩ := hexplained.grounds
    obtain rfl : r = r' := Option.some.inj ((hv.find_of_mem hr).symm.trans hr')
    have hpaid : r.paidBack db = n := by
      rw [RefundRequest.paidBack, if_pos hkey, hg]
      simp [hn]
    rw [hpaid]
    exact bookedUnder_of_explained hv htxn hexplained
  · rw [RefundRequest.paidBack, if_neg hkey, slotTotal_zero]
    exact bookedUnder_of_none hkey

/-- A balance follows from the disputes and the requests. -/
theorem balance_eq_rows (hv : schema.Valid db) (hbooks : BooksKept db) (h : LedgerTrail db) :
    accountBalance userId type db =
      ((db .disputes).map fun d =>
        slotTotal userId type ((LedgerSource.chargeback d.originalTransactionId).slots d.userId d.amount) +
        slotTotal userId type ((LedgerSource.outcome d.id .WON).slots d.userId (d.wonBack db)) +
        slotTotal userId type ((LedgerSource.outcome d.id .LOST).slots d.userId (d.fee db))).sum +
      ((db .refundRequests).map fun r =>
        slotTotal userId type ((LedgerSource.refund r.id).slots r.userId (r.paidBack db))).sum := by
  rw [balance_eq_sources hv hbooks h, ledgerSources]
  simp only [List.map_append, List.map_map, List.sum_append, List.sum_map_add, Function.comp_def]
  rw [List.map_congr_left fun d hd => booked_chargeback hv h hd,
    List.map_congr_left fun d hd => booked_won hv h hd,
    List.map_congr_left fun d hd => booked_lost hv h hd,
    List.map_congr_left fun r hr => booked_refund hv h hr, ← Int.add_assoc, ← Int.add_assoc]

/-! ## Accounts -/

theorem getBalance_eq_accountBalance (userId : String) (db : Data) :
    (LedgerService.getBalance userId db).balance = accountBalance userId .ASSET db := by
  unfold LedgerService.getBalance accountBalance
  cases schema.findBy .ledgerAccounts (.userAccount userId .ASSET) db <;> rfl

/-- What a transaction adds to the revenue of the system. -/
def LedgerSource.revenueChange (n : Int) : LedgerSource → Int
  | outcome _ .WON => n
  | outcome _ .LOST => 0
  | _ => -n

/-- What a transaction adds to the expenses of the system. -/
def LedgerSource.expenseChange (n : Int) : LedgerSource → Int
  | outcome _ .LOST => n
  | _ => 0

theorem slotTotal_revenue (src : LedgerSource) :
    slotTotal LedgerService.SYSTEM_USER_ID .REVENUE (src.slots user n) = src.revenueChange n := by
  cases src with
  | outcome id o => cases o <;> simp [LedgerSource.slots, slotTotal_pair, Slot.change, entryChange,
      Bookkeeping.signed, LedgerService.isDebitNormal, LedgerSource.revenueChange]
  | _ => simp [LedgerSource.slots, refundSlots, slotTotal_pair, Slot.change, entryChange,
      Bookkeeping.signed, LedgerService.isDebitNormal, LedgerSource.revenueChange]

theorem slotTotal_expense (src : LedgerSource) :
    slotTotal LedgerService.SYSTEM_USER_ID .EXPENSE (src.slots user n) = src.expenseChange n := by
  cases src with
  | outcome id o => cases o <;> simp [LedgerSource.slots, slotTotal_pair, Slot.change, entryChange,
      Bookkeeping.signed, LedgerService.isDebitNormal, LedgerSource.expenseChange]
  | _ => simp [LedgerSource.slots, refundSlots, slotTotal_pair, LedgerSource.expenseChange]

/-- No other account is ever used. -/
theorem slotTotal_other (hasset : type ≠ .ASSET)
    (hsystem : userId = LedgerService.SYSTEM_USER_ID → type ≠ .REVENUE ∧ type ≠ .EXPENSE) :
    slotTotal userId type (src.slots user n) = 0 := by
  cases src with
  | outcome id o => cases o <;> grind [LedgerSource.slots, slotTotal_pair]
  | _ => grind [LedgerSource.slots, refundSlots, slotTotal_pair]

/-- The account of a user. -/
theorem asset_balance (hv : schema.Valid db) (hbooks : BooksKept db) (h : LedgerTrail db)
    (userId : String) : (LedgerService.getBalance userId db).balance =
      (((db .disputes).filter (·.userId = userId)).map fun d =>
        d.wonBack db - d.amount - d.fee db).sum -
      (((db .refundRequests).filter (·.userId = userId)).map (·.paidBack db)).sum := by
  rw [getBalance_eq_accountBalance, balance_eq_rows hv hbooks h]
  simp only [slotTotal_asset, LedgerSource.assetChange, Bookkeeping.sum_filter_eq_ite, decide_eq_true_eq,
    eq_comm (a := userId)]
  rw [Int.sub_eq_add_neg, ← Bookkeeping.sum_map_neg]
  congr 2
  · refine List.map_congr_left fun d _ => ?_
    by_cases huser : d.userId = userId <;> simp [huser]
    omega
  · refine List.map_congr_left fun r _ => ?_
    by_cases huser : r.userId = userId <;> simp [huser]

/-- The accounts of the system. -/
theorem system_balances (hv : schema.Valid db) (hbooks : BooksKept db) (h : LedgerTrail db) :
    accountBalance LedgerService.SYSTEM_USER_ID .REVENUE db =
        ((db .disputes).map fun d => d.wonBack db - d.amount).sum -
          ((db .refundRequests).map (·.paidBack db)).sum ∧
      accountBalance LedgerService.SYSTEM_USER_ID .EXPENSE db = ((db .disputes).map (·.fee db)).sum := by
  constructor
  · rw [balance_eq_rows hv hbooks h, Int.sub_eq_add_neg, ← Bookkeeping.sum_map_neg]
    simp only [slotTotal_revenue, LedgerSource.revenueChange]
    congr 2
    refine List.map_congr_left fun d _ => ?_
    omega
  · rw [balance_eq_rows hv hbooks h]
    simp [slotTotal_expense, LedgerSource.expenseChange]

theorem other_balance (hv : schema.Valid db) (hbooks : BooksKept db) (h : LedgerTrail db)
    (hasset : type ≠ .ASSET)
    (hsystem : userId = LedgerService.SYSTEM_USER_ID → type ≠ .REVENUE ∧ type ≠ .EXPENSE) :
    accountBalance userId type db = 0 := by
  rw [balance_eq_rows hv hbooks h]
  simp [slotTotal_other hasset hsystem]

end Amounts

/-! ## Runs -/

section Runs

variable {ι : Type} [DecidableEq ι]

/-- Whatever operations run at once: the balance of a user is what their disputes
and requests say, less fees; the revenue and the expenses of the system are what
all of them say together; and no other account has a balance. -/
theorem balance_sheet (db : Database) (ops : ι → Operation) (hbooks : BooksKept db.rows)
    (htrail : LedgerTrail db.rows) (s : Sys Stmt Data RowWrite RowLock Err Unit ι)
    (h : Runs postgres AnyStep (operations db ops) s) :
    (∀ userId, (LedgerService.getBalance userId s.db).balance =
        (((s.db .disputes).filter (·.userId = userId)).map fun d =>
          d.wonBack s.db - d.amount - d.fee s.db).sum -
        (((s.db .refundRequests).filter (·.userId = userId)).map (·.paidBack s.db)).sum) ∧
      (accountBalance LedgerService.SYSTEM_USER_ID .REVENUE s.db =
          ((s.db .disputes).map fun d => d.wonBack s.db - d.amount).sum -
            ((s.db .refundRequests).map (·.paidBack s.db)).sum ∧
        accountBalance LedgerService.SYSTEM_USER_ID .EXPENSE s.db =
          ((s.db .disputes).map (·.fee s.db)).sum) ∧
      ∀ userId type, type ≠ .ASSET →
        (userId = LedgerService.SYSTEM_USER_ID → type ≠ .REVENUE ∧ type ≠ .EXPENSE) →
          accountBalance userId type s.db = 0 := by
  have hv := (valid_of_operations h).1
  have hkept := booksKept_of_runs hbooks h
  have hledger := ledgerTrail_of_runs htrail h
  exact ⟨asset_balance hv hkept hledger, system_balances hv hkept hledger,
    fun _ _ => other_balance hv hkept hledger⟩

/-- A chargeback, and the dispute is lost. -/
def chargebackThenLost (i : Fin 2) : Operation :=
  if i = 0 then .card constantHmac (chargebackUnder "event_1") else .dispute "a" (.outcome .LOST)

/-- The user owes what was disputed and the fee. -/
def feeOwed (db : Data) : Bool :=
  (LedgerService.getBalance "user" db).balance = -1600 &&
    accountBalance LedgerService.SYSTEM_USER_ID .EXPENSE db = 1500

end Runs

end PaymentBilling
