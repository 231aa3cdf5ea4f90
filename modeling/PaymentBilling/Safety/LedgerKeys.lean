import PaymentBilling.Safety.LedgerBooks
import PaymentBilling.Spec.DisputeBooks
import PaymentBilling.Transact.Commits

/-!
# Safety.LedgerKeys

Any number of calls that record a transaction under the same idempotency key,
each in a transaction of its own or in one of its caller.

The lookup of the key takes no lock, but the row of the transaction is inserted
before any entry, and its key is unique: of all calls that have missed the key
only one can commit, and the others have changed nothing.
-/

namespace PaymentBilling

open Relational Transact

/-- A call with an idempotency key.  A caller that has a transaction of its own
sees the answer and may give up. -/
inductive KeyedCall
  | own (request : RecordRequest)
  | joined (request : RecordRequest) (refuses : TransactionResponse → Option Err)

namespace KeyedCall

/-- The entries of a call. -/
def entries : KeyedCall → List LedgerEntryInput
  | own request => request.entries
  | joined request _ => request.entries

/-- The program of a call under the key. -/
def run (key : String) : KeyedCall → Action TransactionResponse
  | own request => { request with idempotencyKey := some key : RecordRequest }.record false
  | joined request refuses =>
    transaction do
      let response ← { request with idempotencyKey := some key : RecordRequest }.record true
      match refuses response with
      | some e => throw e
      | none => return response

end KeyedCall

/-- The calls `calls` under the key, about to run on the database `db`. -/
def keyedSystem {ι : Type} (db : Database) (key : String) (calls : ι → KeyedCall) :
    Sys Stmt Data RowWrite RowLock Err TransactionResponse ι :=
  Sys.start db.rows fun i => (calls i).run key

/-- From `db` to `db'` the transaction `txn` is recorded under the key, with
these lines, and nothing else. -/
structure Recorded (key : String) (txn : LedgerTransaction) (lines : List Line) (db db' : Data) :
    Prop where
  unbooked : Unbooked key db
  key : txn.idempotencyKey = some key
  transactions : db' .ledgerTransactions = db .ledgerTransactions ++ [txn]
  entries : db' .ledgerEntries = db .ledgerEntries ++ lines.map Line.entry
  accounts : db' .ledgerAccounts = (db .ledgerAccounts).map (addLines lines)
  linked : ∀ line ∈ lines, line.entry.ledgerTransactionId = txn.id
  balanced : Balanced (lines.map Line.entry)
  other : ∀ t, t ∉ ledgerTables → db' t = db t

/-- A transaction is recorded under the key, with these entries. -/
def Records (key : String) (entries : List LedgerEntryInput) (db db' : Data) : Prop :=
  ∃ txn lines, Recorded key txn lines db db' ∧ List.Forall₂ LineOf entries lines

section Recorded

variable {key : String} {txn : LedgerTransaction} {lines : List Line} {ws : List RowWrite}
  {db db' : Data}

theorem Posting.recorded (h : Posting txn lines ws db) (hkey : txn.idempotencyKey = some key)
    (hfits : locking.fitsAll ws db) : Recorded key txn lines db (postgres.applyAll ws db) where
  unbooked := by
    have hnone := (h.fresh hfits).2 key hkey
    intro t ht he
    exact Schema.ne_of_findBy_none hnone t ht (by simp [schema, he])
  key := hkey
  transactions := h.transactions
  entries := h.entries
  accounts := h.accounts
  linked := h.linked
  balanced := h.balanced
  other t ht := by
    simp only [ledgerTables, List.mem_cons, List.not_mem_nil, or_false, not_or] at ht
    exact h.other ht.2.1 ht.2.2 ht.1

/-- What is recorded is booked. -/
theorem Recorded.not_unbooked (h : Recorded key txn lines db db') : ¬Unbooked key db' := by
  intro hun
  refine hun txn ?_ h.key
  rw [h.transactions]
  simp

end Recorded

/-! ## One call -/

/-- A step of a call changes nothing, or commits its transaction under the key. -/
def keyedProtocol (key : String) (entries : List LedgerEntryInput) :
    Protocol locking (fun _ => True) :=
  .any locking (fun c db db' => db' = db ∨ c.stack ≠ [] ∧ Records key entries db db')
    fun _ _ => .inl rfl

/-- What a call returns is committed under the key. -/
def AnswersKey (key : String) : Post Stmt Data RowWrite RowLock Err TransactionResponse :=
  fun r _ db => ∀ response, r = .ok response →
    HasTransaction response.transaction db ∧ response.transaction.idempotencyKey = some key

section Calls

variable {key : String} {request : RecordRequest} {c : LocalState} {db : Data}

theorem keyedKeeps_of_post {response : TransactionResponse} {entries : List LedgerEntryInput}
    {c' : LocalState} {t : Tx RowWrite RowLock} {ts : List (Tx RowWrite RowLock)} {db' : Data}
    (hstack : c'.stack = t :: ts) (hfits : locking.fitsAll t.writes db')
    (hpost : (LedgerService.postEffect (some key) entries).rel response t.writes db') :
    (keyedProtocol key entries).Keeps c' db' (postgres.view t db') ∧
      HasTransaction response.transaction (postgres.view t db') ∧
      response.transaction.idempotencyKey = some key := by
  obtain ⟨lines, hposting, hkey, hlines⟩ := hpost
  have hne : c'.stack ≠ [] := by
    rw [hstack]
    exact List.cons_ne_nil _ _
  refine ⟨⟨trivial, .inr ⟨hne, _, lines, hposting.recorded hkey hfits, hlines⟩⟩, ?_, hkey⟩
  have hid := (hposting.fresh hfits).1
  have hrow := hposting.transactions
  show schema.find .ledgerTransactions _ (postgres.applyAll t.writes db') = _
  rw [Schema.find, hrow, List.find?_append]
  rw [Schema.find] at hid
  rw [hid]
  simp [schema]

/-- A call without a transaction of its caller opens its own. -/
theorem wp_record_own (hkey : request.idempotencyKey = some key) (hne : key ≠ "") (db : Data) :
    (keyedProtocol key request.entries).wp (request.record false) (AnswersKey key) {} db := by
  have hfilter : request.idempotencyKey.filter (· ≠ "") = some key := by
    rw [hkey]
    exact Option.filter_some_pos (decide_eq_true hne)
  unfold RecordRequest.record LedgerService.recordTransaction
  rw [hfilter]
  show (keyedProtocol key request.entries).wp (query (.ledgerTransactionFindFirst key) >>= _) _ _ _
  rw [Protocol.wp_bind]
  refine Protocol.wp_exec_auto _ (fun _ _ _ => nofun) fun env found ws db₁ hs₁ hx => ?_
  obtain ⟨rfl, hfound⟩ := exec_ledgerTransactionFindFirst hx
  refine ⟨Protocol.keeps_refl _ hs₁.inv, ?_⟩
  cases found with
  | some existing =>
      obtain ⟨txn, hf, rfl⟩ := Option.map_eq_some_iff.mp hfound.symm
      intro response hr
      obtain rfl := Except.ok.inj hr
      have hk := Schema.key_of_findBy hf
      refine ⟨hs₁.valid.find_of_mem (Schema.mem_of_findBy hf), ?_⟩
      show txn.idempotencyKey = some key
      simpa [schema] using hk
  | none =>
      show (keyedProtocol key request.entries).wp (LedgerService.validateAndRecord _ _ _ _ _ _ _) _ _ _
      unfold LedgerService.validateAndRecord
      cases hval : LedgerService.validate request.entries with
      | error e => exact nofun
      | ok _ =>
          refine Protocol.wp_transaction_of_does (LedgerService.does_executeRecord _ hval)
            (fun _ _ _ _ => nofun) fun response t c' db' hstack _ _ _ hfits hpost => ?_
          obtain ⟨hkeeps, htxn, hk⟩ := keyedKeeps_of_post hstack hfits hpost
          refine ⟨hkeeps, fun response' hr => ?_⟩
          obtain rfl := Except.ok.inj hr
          exact ⟨htxn, hk⟩

/-- A call inside the transaction of its caller. -/
theorem wp_record_joined {refuses : TransactionResponse → Option Err}
    (hkey : request.idempotencyKey = some key) (hne : key ≠ "") (db : Data) :
    (keyedProtocol key request.entries).wp (transaction (request.record true >>= fun response =>
      match refuses response with
      | some e => throw e
      | none => pure response)) (AnswersKey key) {} db := by
  have hfilter : request.idempotencyKey.filter (· ≠ "") = some key := by
    rw [hkey]
    exact Option.filter_some_pos (decide_eq_true hne)
  let returned (response : TransactionResponse) : Effect locking TransactionResponse :=
    match refuses response with
    | some _ => .never locking _
    | none => .pure locking response
  refine Protocol.wp_transaction_of_does (X := (LedgerService.recordEffect (some key)
    request.entries).bind returned) (Protocol.does_bind ?_ fun response => ?_)
    (fun _ _ _ _ => nofun) fun response t c' db' hstack _ _ hs hfits hx => ?_
  · rw [← hfilter]
    exact LedgerService.does_recordTransaction _ _ _ _ _ _ _
  · unfold returned
    cases refuses response with
    | some e => exact Protocol.does_throw e
    | none => exact Protocol.does_pure response
  · obtain ⟨response', ws₁, ws₂, hws, hrecord, hreturned⟩ := hx
    obtain ⟨rfl, rfl⟩ : response = response' ∧ ws₂ = [] := by
      unfold returned at hreturned
      cases hrefuses : refuses response' with
      | some e =>
          rw [hrefuses] at hreturned
          exact hreturned.elim
      | none =>
          rw [hrefuses] at hreturned
          exact hreturned
    rw [List.append_nil] at hws
    rw [← hws] at hrecord
    cases hrecord with
    | inl hknown =>
        obtain ⟨hnone, htxn, k, hk, hlogged⟩ := hknown
        obtain rfl := Option.some.inj hk
        have hsame : postgres.view t db' = db' := by
          rw [Engine.view, hnone]
          rfl
        rw [hsame]
        refine ⟨Protocol.keeps_refl _ trivial, fun response' hr => ?_⟩
        obtain rfl := Except.ok.inj hr
        exact ⟨htxn, hlogged⟩
    | inr hpost =>
        obtain ⟨hkeeps, htxn, hk⟩ := keyedKeeps_of_post hstack hfits hpost
        refine ⟨hkeeps, fun response' hr => ?_⟩
        obtain rfl := Except.ok.inj hr
        exact ⟨htxn, hk⟩

theorem wp_keyedCall (call : KeyedCall) (hne : key ≠ "") (db : Data) :
    (keyedProtocol key call.entries).wp (call.run key) (AnswersKey key) {} db := by
  cases call with
  | own request =>
      have hkey : { request with idempotencyKey := some key : RecordRequest }.idempotencyKey =
          some key := rfl
      exact wp_record_own hkey hne db
  | joined request refuses =>
      have hkey : { request with idempotencyKey := some key : RecordRequest }.idempotencyKey =
          some key := rfl
      exact wp_record_joined hkey hne db

end Calls

/-! ## The commit ends a call -/

theorem flat_recordEntries (id : String) (entries : List LedgerEntryInput) :
    Flat (LedgerService.recordEntries id entries) := by
  induction entries with
  | nil => exact flat_pure ()
  | cons entry entries ih =>
      refine flat_bind (flat_exec _) fun found => ?_
      cases found with
      | none => exact flat_throw _
      | some account =>
          exact flat_bind (flat_exec _) fun _ => flat_bind (flat_exec _) fun _ => ih

theorem flat_executeRecord (userId : Js) (description : String) (entries : List LedgerEntryInput)
    (status : LedgerTransactionStatus) (metadata : Metadata) (key : Option String) :
    Flat (LedgerService.executeRecord userId description entries status metadata key) := by
  refine flat_bind (flat_exec _) fun txn => flat_bind (flat_recordEntries _ _) fun _ =>
    flat_bind (flat_exec _) fun found => ?_
  cases found with
  | some response => exact flat_pure response
  | none => exact flat_throw _

theorem flat_record_joined (request : RecordRequest) : Flat (request.record true) := by
  have hrecord : ∀ key, Flat (LedgerService.validateAndRecord request.userId request.description
      request.entries request.status request.metadata true key) := by
    intro key
    unfold LedgerService.validateAndRecord
    cases LedgerService.validate request.entries with
    | error e => exact flat_throw e
    | ok _ => exact flat_executeRecord _ _ _ _ _ _
  unfold RecordRequest.record LedgerService.recordTransaction
  cases request.idempotencyKey.filter (· ≠ "") with
  | none => exact hrecord none
  | some key =>
      refine flat_bind (flat_exec _) fun found => ?_
      cases found with
      | some response => exact flat_pure response
      | none => exact hrecord _

theorem commitsLast_record_own (request : RecordRequest) : CommitsLast (request.record false) := by
  have hrecord : ∀ key, CommitsLast (LedgerService.validateAndRecord request.userId
      request.description request.entries request.status request.metadata false key) := by
    intro key
    unfold LedgerService.validateAndRecord
    cases LedgerService.validate request.entries with
    | error e => exact commitsLast_of_flat (flat_throw e)
    | ok _ => exact commitsLast_transaction (flat_executeRecord _ _ _ _ _ _)
  unfold RecordRequest.record LedgerService.recordTransaction
  cases request.idempotencyKey.filter (· ≠ "") with
  | none => exact hrecord none
  | some key =>
      refine commitsLast_exec_bind fun found => ?_
      cases found with
      | some response => exact commitsLast_of_flat (flat_pure response)
      | none => exact hrecord _

theorem commitsLast_keyedCall (key : String) (call : KeyedCall) : CommitsLast (call.run key) := by
  cases call with
  | own request => exact commitsLast_record_own _
  | joined request refuses =>
      refine commitsLast_transaction (flat_bind (flat_record_joined _) fun response => ?_)
      cases refuses response with
      | some e => exact flat_throw e
      | none => exact flat_pure response

/-! ## Runs -/

/-- In every run of calls under one key: the ledger is as it was, or exactly one
transaction with the entries of one of the calls has been recorded; every call
that returns returns it; only a call that returns has changed anything, and
nothing changes any more once the key is booked. -/
theorem ledgerKey_recordedOnce {ι : Type} [DecidableEq ι] (db : Database) (key : String)
    (hne : key ≠ "") (calls : ι → KeyedCall) (s : Sys Stmt Data RowWrite RowLock Err TransactionResponse ι)
    (h : Runs postgres AnyStep (keyedSystem db key calls) s) :
    ((s.db .ledgerTransactions).filter (·.idempotencyKey = some key)).length ≤ 1 ∧
      (s.db = db.rows ∨ ∃ i, Records key (calls i).entries db.rows s.db) ∧
      (∀ i response, (s.clients i).prog = .ret (.ok response) →
        response.transaction ∈ s.db .ledgerTransactions ∧
          response.transaction.idempotencyKey = some key) ∧
      ∀ i s', Step postgres s i s' → s'.db ≠ s.db →
        Unbooked key s.db ∧ ∃ response, (s'.clients i).prog = .ret (.ok response) := by
  have hstep : ∀ {s₁ i s₂}, Runs postgres AnyStep (keyedSystem db key calls) s₁ →
      Step postgres s₁ i s₂ → s₂.db = s₁.db ∨ (s₁.clients i).loc.stack ≠ [] ∧
        Records key (calls i).entries s₁.db s₂.db := by
    intro s₁ i s₂ hruns hs
    have hwp : (keyedProtocol key (calls i).entries).wp ((calls i).run key) (fun _ _ _ => True) {}
        db.rows := Protocol.wp_mono _ (fun _ _ _ _ => trivial) (wp_keyedCall (calls i) hne db.rows)
    exact (guar_of_runs (D := locking) db.valid (by exact hwp) hruns hs).1
  have hbooks : ∀ {s₁}, Runs postgres AnyStep (keyedSystem db key calls) s₁ →
      s₁.db = db.rows ∨ ∃ i, Records key (calls i).entries db.rows s₁.db := by
    intro s₁ hruns
    induction hruns with
    | refl => exact .inl rfl
    | @step s₁ s₂ i hruns hs _ ih =>
        cases hstep hruns hs with
        | inl hsame =>
            rw [hsame]
            exact ih
        | inr hchange =>
            obtain ⟨-, txn, lines, hrecorded, hlines⟩ := hchange
            cases ih with
            | inl hstart =>
                rw [hstart] at hrecorded
                exact .inr ⟨i, txn, lines, hrecorded, hlines⟩
            | inr hbefore =>
                obtain ⟨_, _, _, hbefore, -⟩ := hbefore
                exact (hbefore.not_unbooked hrecorded.unbooked).elim
  have hok : locking.SysOk s := ((Discipline.SysOk.start locking db.valid _).runs h).1
  refine ⟨?_, hbooks h, fun i response hr => ?_, fun i s' hs hchanged => ?_⟩
  · have hvalid : schema.Valid s.db := hok.valid
    refine hvalid.length_filter_le_one (t := .ledgerTransactions) (k := .idempotencyKey key)
      fun t hk => ?_
    simpa [schema] using of_decide_eq_true hk
  · obtain ⟨htxn, hk⟩ := post_of_runs (D := locking) (Q := AnswersKey key) (fun r _ _ _ hle hq response hr =>
      ⟨(hq response hr).1.mono hle, (hq response hr).2⟩) db.valid
      (by exact wp_keyedCall (calls i) hne db.rows) h hr response rfl
    exact ⟨Schema.mem_of_find htxn, hk⟩
  · cases hstep h hs with
    | inl hsame => exact (hchanged hsame).elim
    | inr hchange =>
        obtain ⟨hstack, txn, lines, hrecorded, -⟩ := hchange
        have hlast := h.commitsLast (fun i => commitsLast_keyedCall key (calls i)) i
        exact ⟨hrecorded.unbooked, (hs.commitsLast hlast).2 hstack hchanged⟩

/-- A sale of one hundred, of sixty, and of five, under one key. -/
def sameSale (i : Fin 3) : KeyedCall :=
  let sold (amount : Int) : RecordRequest :=
    { userId := .str "user", description := "sale"
      entries := [⟨"asset", .DEBIT, .int amount⟩, ⟨"revenue", .CREDIT, .int amount⟩] }
  match i with
  | 0 => .own (sold 100)
  | 1 => .joined (sold 60) fun _ => none
  | 2 => .own (sold 5)

/-- The first two calls miss the key before either of them inserts it; the last
one comes when it is booked. -/
def racingSales : List (Fin 3 × Choice Env) :=
  ([0, 1, 1].map fun i => (i, .go (.ordinary "a"))) ++
    (["b", "t1", "b", "e1", "b", "b", "e2", "b", "b", "b"].map fun id =>
      (0, .go (.ordinary id))) ++
    (["t2", "b"].map fun id => (1, .go (.ordinary id))) ++ [(2, .go (.ordinary "c"))]

/-- Only the first sale is booked. -/
theorem racingSales_recordedOnce :
    ∃ s, Runs postgres AnyStep (keyedSystem twoAccounts "sale" sameSale) s ∧
      accountHolds "asset" 100 s.db = true ∧
      ((s.db .ledgerTransactions).filter (·.idempotencyKey = some "sale")).length ≤ 1 := by
  have hplay : (replay postgres anyTime racingSales (keyedSystem twoAccounts "sale" sameSale)).any
      (fun s => accountHolds "asset" 100 s.db && (s.clients 0).prog.finished &&
        (s.clients 1).prog.finished && (s.clients 2).prog.finished) = true := by decide +kernel
  obtain ⟨s, hs, hend⟩ := exists_runs_of_replay (C := AnyStep) (fun _ _ _ _ => trivial) hplay
  have hkey : "sale" ≠ "" := by decide
  simp only [Bool.and_eq_true] at hend
  exact ⟨s, hs, hend.1.1.1, (ledgerKey_recordedOnce twoAccounts "sale" hkey sameSale s hs).1⟩

end PaymentBilling
