import PaymentBilling.Spec.Postings
import PaymentBilling.Transact.Body

/-!
# Spec.Ledger

What the ledger service adds to the transaction it is called in, under any
protocol: an account at most for a lookup, a posting of the given entries for a
recorded transaction.
-/

namespace PaymentBilling

open Relational Transact

/-- The account `id` is the one of type `type` of `user`. -/
def HasAccount (id user : String) (type : LedgerAccountType) (db : Data) : Prop :=
  ∃ account, schema.find .ledgerAccounts id db = some account ∧ account.userId = user ∧
    account.accountType = type

/-- The transaction `txn` exists. -/
def HasTransaction (txn : LedgerTransaction) (db : Data) : Prop :=
  schema.find .ledgerTransactions txn.id db = some txn

/-- The row of a transaction has the values that were given for it. -/
structure RowRecords (data : LedgerTransactionCreate) (txn : LedgerTransaction) : Prop where
  userId : data.userId.nullableString? = some txn.userId
  description : txn.description = data.description
  status : txn.status = data.status
  metadata : txn.metadata = data.metadata
  idempotencyKey : txn.idempotencyKey = data.idempotencyKey

/-- A line records an input. -/
structure LineOf (input : LedgerEntryInput) (line : Line) : Prop where
  accountId : line.entry.accountId = input.accountId
  entryType : line.entry.entryType = input.entryType
  amount : input.amount = .int line.entry.amount

section Facts

variable {db db' : Data} {id user : String} {type : LedgerAccountType} {txn : LedgerTransaction}

theorem HasAccount.mono (hle : locking.le db db') (h : HasAccount id user type db) :
    HasAccount id user type db' := by
  obtain ⟨account, hf, hu, ht⟩ := h
  obtain ⟨account', hf', hfix⟩ := hle _ _ _ hf
  obtain ⟨-, hu', ht', -⟩ := LedgerAccount.mk.inj hfix
  exact ⟨account', hf', hu'.trans hu, ht'.trans ht⟩

theorem HasAccount.hasType (h : HasAccount id user type db) : HasType id type db := by
  obtain ⟨account, hf, -, ht⟩ := h
  exact ⟨account, hf, ht⟩

/-- Transactions are never changed. -/
theorem HasTransaction.mono (hle : locking.le db db') (h : HasTransaction txn db) :
    HasTransaction txn db' := by
  obtain ⟨txn', hf, hfix⟩ := hle _ _ _ h
  have he : txn' = txn := hfix
  rw [HasTransaction, hf, he]

end Facts

namespace LedgerService

/-! ## Validation -/

theorem calculateBalanceChange_int (type : LedgerAccountType) (entryType : LedgerEntryType)
    (n : Int) :
    calculateBalanceChange type entryType (.int n) = .int (entryChange type entryType n) := by
  cases type <;> cases entryType <;>
    simp [calculateBalanceChange, entryChange, Bookkeeping.signed, isDebitNormal]

/-- The totals of entries that are recorded: their amounts are positive, and
debits minus credits move by their net amount. -/
theorem totals_eq_ok {entries : List LedgerEntryInput} {lines : List Line} {d c : Int} {x y : Js}
    (hlines : List.Forall₂ LineOf entries lines)
    (h : totals (.int d) (.int c) entries = .ok (x, y)) :
    (∀ e ∈ lines.map Line.entry, 0 < e.amount) ∧
      ∃ d' c', x = .int d' ∧ y = .int c' ∧ d' - c' = d - c + netOf (lines.map Line.entry) := by
  induction hlines generalizing d c with
  | nil =>
      cases h
      exact ⟨nofun, d, c, rfl, rfl, by simp [netOf]⟩
  | @cons input line entries lines hline hlines ih =>
      have hnet : netOf ((line :: lines).map Line.entry) =
          Bookkeeping.net (line.entry.entryType = .DEBIT) line.entry.amount +
            netOf (lines.map Line.entry) := by
        simp [netOf]
      unfold totals at h
      rw [hline.amount, Js.le_int] at h
      split at h
      · cases h
      · next hpos =>
        have hpos : 0 < line.entry.amount := by simpa using hpos
        split at h
        · next hdebit =>
          rw [Js.add_int] at h
          obtain ⟨hall, d', c', rfl, rfl, he⟩ := ih h
          refine ⟨by simpa using ⟨hpos, by simpa using hall⟩, d', c', rfl, rfl, ?_⟩
          rw [hnet, hline.entryType, hdebit]
          simp only [Bookkeeping.net, Bookkeeping.signed, decide_true, if_true]
          omega
        · next hcredit =>
          rw [Js.add_int] at h
          obtain ⟨hall, d', c', rfl, rfl, he⟩ := ih h
          refine ⟨by simpa using ⟨hpos, by simpa using hall⟩, d', c', rfl, rfl, ?_⟩
          rw [hnet, hline.entryType]
          simp only [Bookkeeping.net, Bookkeeping.signed, hcredit, decide_false]
          simp only [Bool.false_eq_true, if_false]
          omega

/-- Entries that pass the validation balance. -/
theorem balanced_of_validate {entries : List LedgerEntryInput} {lines : List Line}
    (hlines : List.Forall₂ LineOf entries lines) (h : validate entries = .ok ()) :
    Balanced (lines.map Line.entry) := by
  unfold validate at h
  split at h
  · cases h
  · next hlen =>
    cases ht : totals (.int 0) (.int 0) entries with
    | error e => simp [ht] at h
    | ok r =>
        obtain ⟨x, y⟩ := r
        obtain ⟨hpos, d, c, rfl, rfl, he⟩ := totals_eq_ok hlines ht
        have heq : d = c := by simpa [ht] using h
        have hlen' := hlines.length_eq
        have hnet := netOf_eq (lines.map Line.entry)
        exact ⟨by rw [List.length_map]; omega, hpos, by omega⟩

/-! ## Scope -/

theorem ledger_query {α : Type} {s : Stmt α} (h : WritesIn ledgerTables α s) :
    Only (WritesIn ledgerTables) (query s) 0 := only_exec h

theorem accountUpsert_only (userId : Js) (type : LedgerAccountType) :
    Only (WritesIn ledgerTables)
      (do let account ← query (.ledgerAccountUpsert userId type); return account.id) 0 :=
  only_bind (ledger_query (by simp [WritesIn, Stmt.writes, ledgerTables])) fun _ => only_pure _

theorem recordEntries_only (id : String) (entries : List LedgerEntryInput) :
    Only (WritesIn ledgerTables) (recordEntries id entries) 0 := by
  induction entries with
  | nil => exact only_pure _
  | cons entry entries ih =>
      refine only_bind (ledger_query (by simp [WritesIn, Stmt.writes])) fun found => ?_
      cases found with
      | none => exact only_throw _
      | some account =>
          refine only_bind (ledger_query (by simp [WritesIn, Stmt.writes, ledgerTables])) fun _ => ?_
          exact only_bind (ledger_query (by simp [WritesIn, Stmt.writes, ledgerTables])) fun _ => ih

theorem executeRecord_only (userId : Js) (description : String) (entries : List LedgerEntryInput)
    (status : LedgerTransactionStatus) (metadata : Metadata) (key : Option String) :
    Only (WritesIn ledgerTables) (executeRecord userId description entries status metadata key)
      0 := by
  refine only_bind (ledger_query (by simp [WritesIn, Stmt.writes, ledgerTables])) fun txn => ?_
  refine only_bind (recordEntries_only _ _) fun _ => ?_
  refine only_bind (ledger_query (by simp [WritesIn, Stmt.writes])) fun found => ?_
  cases found with
  | some response => exact only_pure _
  | none => exact only_throw _

/-- Recording a transaction closes what it opens, and writes the ledger only. -/
theorem recordTransaction_only (userId : Js) (description : String)
    (entries : List LedgerEntryInput) (status : LedgerTransactionStatus) (metadata : Metadata)
    (externalTx : Bool) (key : Option String) :
    Only (WritesIn ledgerTables)
      (recordTransaction userId description entries status metadata externalTx key) 0 := by
  have hpost : ∀ key, Only (WritesIn ledgerTables)
      (validateAndRecord userId description entries status metadata externalTx key) 0 := by
    intro key
    unfold validateAndRecord
    split
    · exact only_throw _
    · split
      · exact executeRecord_only ..
      · exact only_transaction (executeRecord_only ..)
  unfold recordTransaction
  split
  · exact hpost none
  · refine only_bind (ledger_query (by simp [WritesIn, Stmt.writes])) fun found => ?_
    cases found with
    | some response => exact only_pure _
    | none => exact hpost _

/-! ## Effects -/

/-- An account is found or created. -/
def accountEffect (userId : Js) (type : LedgerAccountType) : Effect locking String where
  rel id ws db := ∃ user, userId = .str user ∧
    (ws = [] ∨ ∃ row : LedgerAccount, row.balance = 0 ∧ ws = [.insert .ledgerAccounts row]) ∧
    HasAccount id user type (postgres.applyAll ws db)
  stable := by
    rintro id ws db db' hf hf' hle ⟨user, hu, hws, h⟩
    exact ⟨user, hu, hws, h.mono (locking.applyAll_le hf hf' hle)⟩

/-- The lines of some entries are written. -/
def linesEffect (id : String) (entries : List LedgerEntryInput) : Effect locking Unit where
  rel _ ws db := ∃ lines, ws = lines.flatMap Line.writes ∧ List.Forall₂ LineOf entries lines ∧
    ∀ line ∈ lines, line.entry.ledgerTransactionId = id ∧
      HasType line.entry.accountId line.type (postgres.applyAll ws db)
  stable := by
    rintro _ ws db db' hf hf' hle ⟨lines, hws, hlines, h⟩
    exact ⟨lines, hws, hlines, fun line hline =>
      ⟨(h line hline).1, (h line hline).2.mono (locking.applyAll_le hf hf' hle)⟩⟩

/-- A transaction is posted with the values given for its row. -/
def executeEffect (data : LedgerTransactionCreate) (entries : List LedgerEntryInput) :
    Effect locking TransactionResponse where
  rel response ws db := ∃ lines, Posting response.transaction lines ws db ∧
    RowRecords data response.transaction ∧ List.Forall₂ LineOf entries lines
  stable := by
    rintro response ws db db' hf hf' hle ⟨lines, h, hrow, hlines⟩
    exact ⟨lines, h.mono hf hf' hle, hrow, hlines⟩

/-- A transaction is posted. -/
def postEffect (key : Option String) (entries : List LedgerEntryInput) :
    Effect locking TransactionResponse where
  rel response ws db := ∃ lines, Posting response.transaction lines ws db ∧
    response.transaction.idempotencyKey = key ∧ List.Forall₂ LineOf entries lines
  stable := by
    rintro response ws db db' hf hf' hle ⟨lines, h, hk, hlines⟩
    exact ⟨lines, h.mono hf hf' hle, hk, hlines⟩

/-- A transaction is posted, or was there before. -/
def recordEffect (key : Option String) (entries : List LedgerEntryInput) :
    Effect locking TransactionResponse where
  rel response ws db :=
    (ws = [] ∧ HasTransaction response.transaction db ∧
        ∃ k, key = some k ∧ response.transaction.idempotencyKey = some k) ∨
      (postEffect key entries).rel response ws db
  stable := by
    rintro response ws db db' hf hf' hle (⟨hws, h, hk⟩ | h)
    · exact .inl ⟨hws, h.mono hle, hk⟩
    · exact .inr ((postEffect key entries).stable hf hf' hle h)

section Rules

variable {I : Data → Prop} (P : Protocol locking I) {past : List (Event Stmt Err)}

theorem does_accountUpsert (userId : Js) (type : LedgerAccountType) :
    P.Does past (do let account ← query (.ledgerAccountUpsert userId type); return account.id)
      (accountEffect userId type) := by
  refine Protocol.does_map (X := ⟨fun account ws db => (accountEffect userId type).rel account.id ws db,
    (accountEffect userId type).stable⟩) (Protocol.does_exec fun env db account ws hv hx => ?_)
    fun _ _ _ h => h
  obtain ⟨user, hu, huser, htype, ⟨hf, rfl⟩ | ⟨hnone, hbal, rfl⟩⟩ := exec_ledgerAccountUpsert hx
  · exact ⟨user, hu, .inl rfl, account, hv.find_of_mem (Schema.mem_of_findBy hf), huser, htype⟩
  · have hf := locking.fitsAll_of_exec hv hx
    obtain ⟨-, hid, -⟩ := Schema.accepts_insert.mp hf.1
    have hfound : schema.find .ledgerAccounts account.id
        (schema.apply (.insert .ledgerAccounts account) db) = some account := by
      rw [Schema.find_insert]
      have hid : schema.find .ledgerAccounts account.id db = none := hid
      rw [hid]
      simp [schema]
    exact ⟨user, hu, .inr ⟨account, hbal, rfl⟩, account, hfound, huser, htype⟩

theorem does_getOrCreateAssetAccount (userId : Js) :
    P.Does past (getOrCreateAssetAccount userId) (accountEffect userId .ASSET) :=
  does_accountUpsert P userId .ASSET

theorem does_getOrCreateSystemAccount (type : LedgerAccountType) :
    P.Does past (getOrCreateSystemAccount type) (accountEffect (.str SYSTEM_USER_ID) type) :=
  does_accountUpsert P _ type

/-- The loop: each entry becomes a line, whatever the accounts are. -/
theorem does_recordEntries (id : String) (entries : List LedgerEntryInput) :
    P.Does past (recordEntries id entries) (linesEffect id entries) := by
  induction entries with
  | nil =>
      refine Protocol.does_weaken (Protocol.does_pure ()) ?_
      rintro _ ws db ⟨-, rfl⟩
      exact ⟨[], rfl, .nil, fun e he => by simp at he⟩
  | cons entry entries ih =>
      let found : Effect locking (Option LedgerAccount) :=
        { rel := fun found ws db => ws = [] ∧
            ∀ account, found = some account → HasType entry.accountId account.accountType db
          stable := fun _ _ hle h => ⟨h.1, fun account he => (h.2 account he).mono hle⟩ }
      let created : Effect locking LedgerEntry :=
        { rel := fun e ws _ => ∃ n, entry.amount.int32? = some n ∧ ws = [.insert .ledgerEntries e] ∧
            e = ⟨e.id, id, entry.accountId, entry.entryType, n⟩
          stable := fun _ _ _ h => h }
      let updated (delta : Js) : Effect locking LedgerAccount :=
        { rel := fun _ ws _ => ∃ m, delta.int32? = some m ∧
            ws = [.update .ledgerAccounts entry.accountId m]
          stable := fun _ _ _ h => h }
      have hfound : P.Does past (query (.ledgerAccountFindUnique entry.accountId)) found := by
        refine Protocol.does_exec fun env db r ws hv hx => ?_
        obtain ⟨rfl, rfl⟩ := exec_ledgerAccountFindUnique hx
        exact ⟨rfl, fun account hf => ⟨account, hf, rfl⟩⟩
      have hcreated : P.Does past (query (.ledgerEntryCreate
          ⟨id, entry.accountId, entry.entryType, entry.amount⟩)) created :=
        Protocol.does_exec fun env db e ws hv hx => exec_ledgerEntryCreate hx
      have hupdated : ∀ delta, P.Does past (query (.ledgerAccountUpdate entry.accountId delta))
          (updated delta) := fun delta =>
        Protocol.does_exec fun env db e ws hv hx => exec_ledgerAccountUpdate hx
      refine Protocol.does_weaken (X := found.bind fun r => r.elim (.never locking Unit)
        fun account => created.bind fun _ => (updated (calculateBalanceChange
          account.accountType entry.entryType entry.amount)).bind fun _ => linesEffect id entries)
        (Protocol.does_bind hfound fun r => ?_) ?_
      · cases r with
        | none => exact Protocol.does_throw _
        | some account =>
            exact Protocol.does_bind hcreated fun _ => Protocol.does_bind (hupdated _) fun _ => ih
      · rintro _ ws db ⟨r, ws₁, ws₂, rfl, ⟨rfl, htype⟩, h⟩
        cases r with
        | none => exact h.elim
        | some account =>
            obtain ⟨e, ws₁, ws₂, rfl, ⟨n, hn, rfl, he⟩, _, ws₃, ws₄, rfl, ⟨m, hm, rfl⟩, lines, rfl,
              hlines, hall⟩ := h
            -- the balance moves by the change of the line
            have hamount : entry.amount = .int e.amount := by rw [he]; exact Js.int32?_eq_some hn
            have hm : m = entryChange account.accountType entry.entryType e.amount := by
              rw [hamount, calculateBalanceChange_int] at hm
              exact (Js.int_inj.mp (Js.int32?_eq_some hm)).symm
            have hid : e.accountId = entry.accountId := by rw [he]
            have htype' : e.entryType = entry.entryType := by rw [he]
            have hwrites : [] ++ ([.insert .ledgerEntries e] ++
                ([.update .ledgerAccounts entry.accountId m] ++ lines.flatMap Line.writes)) =
                (⟨account.accountType, e⟩ :: lines).flatMap Line.writes := by
              rw [List.flatMap_cons, Line.writes, Line.change, htype', hid, hm]
              rfl
            rw [hwrites]
            refine ⟨⟨account.accountType, e⟩ :: lines, rfl, .cons ⟨hid, htype', hamount⟩ hlines, ?_⟩
            rw [List.forall_mem_cons]
            refine ⟨⟨by rw [he], ?_⟩, fun line hline => ⟨(hall line hline).1, ?_⟩⟩
            · rw [hid]
              exact (htype account rfl).mono (locking.le_applyAll _ _)
            · rw [← hwrites]
              exact (hall line hline).2

/-- A validated transaction is posted, and the answer is its row. -/
theorem does_executeRecord_row {userId : Js} {description : String} {entries : List LedgerEntryInput}
    {status : LedgerTransactionStatus} {metadata : Metadata} {key : Option String}
    (hval : validate entries = .ok ()) :
    P.Does past (executeRecord userId description entries status metadata key)
      (executeEffect ⟨userId, description, status, metadata, key⟩ entries) := by
  let data : LedgerTransactionCreate := ⟨userId, description, status, metadata, key⟩
  let created : Effect locking LedgerTransaction :=
    { rel := fun txn ws db => ws = [.insert .ledgerTransactions txn] ∧ RowRecords data txn ∧
        HasTransaction txn (postgres.applyAll ws db)
      stable := fun hf hf' hle h => ⟨h.1, h.2.1, h.2.2.mono (locking.applyAll_le hf hf' hle)⟩ }
  let found (id : String) : Effect locking (Option TransactionResponse) :=
    { rel := fun found ws db => ws = [] ∧ ∀ response, found = some response →
        response.transaction.id = id ∧ HasTransaction response.transaction db
      stable := fun _ _ hle h => ⟨h.1, fun r hr => ⟨(h.2 r hr).1, (h.2 r hr).2.mono hle⟩⟩ }
  have hcreated : P.Does past (query (.ledgerTransactionCreate data)) created := by
    refine Protocol.does_exec fun env db txn ws hv hx => ?_
    have hf := locking.fitsAll_of_exec hv hx
    obtain ⟨user, huser, rfl, htxn⟩ := exec_ledgerTransactionCreate hx
    obtain ⟨-, hid, -⟩ := Schema.accepts_insert.mp hf.1
    refine ⟨rfl, by rw [htxn]; exact ⟨huser, rfl, rfl, rfl, rfl⟩, ?_⟩
    show schema.find .ledgerTransactions txn.id
      (schema.apply (.insert .ledgerTransactions txn) db) = some txn
    have hid : schema.find .ledgerTransactions txn.id db = none := hid
    rw [Schema.find_insert, hid]
    simp [schema]
  have hfound : ∀ id, P.Does past (query (.ledgerTransactionFindUnique id)) (found id) := by
    intro id
    refine Protocol.does_exec fun env db r ws hv hx => ?_
    obtain ⟨rfl, rfl⟩ := exec_ledgerTransactionFindUnique hx
    refine ⟨rfl, fun response hr => ?_⟩
    obtain ⟨txn, hf, rfl⟩ := Option.map_eq_some_iff.mp hr
    have hid : txn.id = id := Schema.id_of_find hf
    refine ⟨hid, ?_⟩
    show schema.find .ledgerTransactions txn.id db = some txn
    rw [hid, hf]
  refine Protocol.does_weaken (X := created.bind fun txn => (linesEffect txn.id entries).bind
    fun _ => (found txn.id).bind fun r => r.elim (.never locking _) (.pure locking))
    (Protocol.does_bind hcreated fun txn => Protocol.does_bind (does_recordEntries P _ _) fun _ =>
      Protocol.does_bind (hfound _) fun r => ?_) ?_
  · cases r with
    | some response => exact Protocol.does_pure _
    | none => exact Protocol.does_throw _
  · rintro response ws db ⟨txn, ws₁, ws₂, rfl, ⟨rfl, hrow, htxn⟩, _, ws₃, ws₄, rfl,
      ⟨lines, rfl, hlines, hall⟩, r, ws₅, ws₆, rfl, ⟨rfl, hr⟩, h⟩
    cases r with
    | none => exact h.elim
    | some response' =>
        obtain ⟨rfl, rfl⟩ := h
        -- the row that is read back is the one that was written
        obtain ⟨hid, hread⟩ := hr response rfl
        have hwritten := htxn.mono (locking.le_applyAll (lines.flatMap Line.writes) _)
        rw [HasTransaction, hid] at hread
        rw [HasTransaction, hread] at hwritten
        obtain rfl := Option.some.inj hwritten
        refine ⟨lines, ⟨by simp, fun line hline => (hall line hline).1, fun line hline => ?_,
          balanced_of_validate hlines hval⟩, hrow, hlines⟩
        have htyped := (hall line hline).2
        rw [← postgres.applyAll_append] at htyped
        simpa using htyped

theorem does_executeRecord {userId : Js} {description : String} {entries : List LedgerEntryInput}
    {status : LedgerTransactionStatus} {metadata : Metadata} {key : Option String}
    (hval : validate entries = .ok ()) :
    P.Does past (executeRecord userId description entries status metadata key)
      (postEffect key entries) :=
  Protocol.does_weaken (does_executeRecord_row P hval) fun _ _ _ ⟨lines, h, hrow, hlines⟩ =>
    ⟨lines, h, hrow.idempotencyKey, hlines⟩

/-- `recordTransaction` inside the transaction of its caller. -/
theorem does_recordTransaction (userId : Js) (description : String)
    (entries : List LedgerEntryInput) (status : LedgerTransactionStatus) (metadata : Metadata)
    (key : Option String) :
    P.Does past (recordTransaction userId description entries status metadata true key)
      (recordEffect (key.filter (· ≠ "")) entries) := by
  have hpost : ∀ key, P.Does past (validateAndRecord userId description entries status metadata true key)
      (recordEffect key entries) := by
    intro key
    unfold validateAndRecord
    cases hval : validate entries with
    | error e => exact Protocol.does_throw e
    | ok _ => exact Protocol.does_weaken (does_executeRecord P hval) fun _ _ _ h => .inr h
  unfold recordTransaction
  cases hkey : key.filter (· ≠ "") with
  | none => exact hpost none
  | some k =>
      let found : Effect locking (Option TransactionResponse) :=
        { rel := fun found ws db => ws = [] ∧ ∀ response, found = some response →
            response.transaction.idempotencyKey = some k ∧ HasTransaction response.transaction db
          stable := fun _ _ hle h => ⟨h.1, fun r hr => ⟨(h.2 r hr).1, (h.2 r hr).2.mono hle⟩⟩ }
      have hfound : P.Does past (query (.ledgerTransactionFindFirst k)) found := by
        refine Protocol.does_exec fun env db r ws hv hx => ?_
        obtain ⟨rfl, rfl⟩ := exec_ledgerTransactionFindFirst hx
        refine ⟨rfl, fun response hr => ?_⟩
        obtain ⟨txn, hf, rfl⟩ := Option.map_eq_some_iff.mp hr
        have hk := Schema.key_of_findBy hf
        refine ⟨?_, hv.find_of_mem (Schema.mem_of_findBy hf)⟩
        show txn.idempotencyKey = some k
        simpa [schema] using hk
      refine Protocol.does_weaken (X := found.bind fun r =>
        r.elim (recordEffect (some k) entries) (.pure locking)) (Protocol.does_bind hfound fun r => ?_) ?_
      · cases r with
        | some response => exact Protocol.does_pure _
        | none => exact hpost _
      · rintro response ws db ⟨r, ws₁, ws₂, rfl, ⟨rfl, hr⟩, h⟩
        cases r with
        | none => exact h
        | some response' =>
            obtain ⟨rfl, rfl⟩ := h
            obtain ⟨hk, htxn⟩ := hr response rfl
            exact .inl ⟨rfl, htxn, k, rfl, hk⟩

end Rules

end LedgerService

end PaymentBilling
