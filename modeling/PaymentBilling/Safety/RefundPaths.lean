import PaymentBilling.Safety.CreditLegs
import PaymentBilling.Safety.PaymentRefund

/-!
# Safety.RefundPaths

One refund of a charge, taken back twice: `processRefund` deducts its credits
under one key, and the gateway's `charge.refunded` event deducts them again
under another.

Both deductions lock the row of the balance before they lower it, so of all
open transactions at most one has lowered it (`Lowering.unique`).  As long as
none lowers it once one of the keys is logged, only one of the deductions is
ever committed.
-/

namespace PaymentBilling

open Relational Transact AuthorizeNetWebhookController

/-! ## Open transactions that lower a balance -/

/-- The write changes a balance of the user. -/
def movesBalance (user : String) (db : Data) : RowWrite → Bool
  | .update .credits id _ => (schema.find .credits id db).any (·.userId = user)
  | _ => false

/-- An open transaction of the client has changed the balance of the user. -/
def Lowering (user : String) (c : LocalState) (db : Data) : Prop :=
  ∃ t ∈ c.stack, ∃ w ∈ t.writes, movesBalance user db w = true

instance (user : String) (c : LocalState) (db : Data) : Decidable (Lowering user c db) :=
  inferInstanceAs (Decidable (∃ t ∈ c.stack, ∃ w ∈ t.writes, movesBalance user db w = true))

/-- After the step of client `i`, its open transactions have not lowered the
balance of the user if one of the keys is logged. -/
def LowersFirst {ι α : Type} (user : String) (keys : List String)
    (_ : Sys Stmt Data RowWrite RowLock Err α ι) (i : ι)
    (s' : Sys Stmt Data RowWrite RowLock Err α ι) : Prop :=
  Lowering user (s'.clients i).loc s'.db → ∀ key ∈ keys, CreditsService.Unlogged key s'.db

section Lowering

variable {user : String} {c : LocalState} {db db' : Data}

/-- A client that has changed a balance holds its row. -/
theorem Lowering.holds (h : Lowering user c db) (hok : locking.StackOk c.stack db) :
    ∃ row, schema.find .credits row.id db = some row ∧ row.userId = user ∧
      Lock.row .credits row.id ∈ heldBy c.stack := by
  obtain ⟨t, ht, w, hw, hmoves⟩ := h
  unfold movesBalance at hmoves
  split at hmoves
  · next id n =>
    obtain ⟨row, hrow, huser⟩ := (Option.any_eq_true ..).mp hmoves
    obtain rfl : row.id = id := Schema.id_of_find hrow
    have hheld : Lock.row .credits row.id ∈ t.held := hok.covered t ht _ hw _ (.head _)
    exact ⟨row, hrow, by simpa using huser, List.mem_flatMap.mpr ⟨t, ht, hheld⟩⟩
  · cases hmoves

/-- A deduction that is about to be committed has lowered the balance. -/
theorem CreditChange.lowering {n : Int} {key : Option String} {t : Tx RowWrite RowLock}
    (h : CreditChange user (-n) key t.writes db) (hpos : 0 < n) (ht : t ∈ c.stack) :
    Lowering user c db := by
  refine ⟨t, ht, ?_⟩
  generalize t.writes = ws at h
  cases h with
  | move row log hrow huser =>
      exact ⟨_, .head _, (Option.any_eq_true ..).mpr ⟨row, hrow, decide_eq_true huser⟩⟩
  | create _ _ _ _ _ hpos' => omega

variable {ι α : Type} {s s' : Sys Stmt Data RowWrite RowLock Err α ι} {i j : ι}

/-- Of all clients only one has changed the balance. -/
theorem Lowering.unique (hs : locking.SysOk s) (hi : Lowering user (s.clients i).loc s.db)
    (hj : Lowering user (s.clients j).loc s.db) : i = j := by
  obtain ⟨row, hrow, huser, hheld⟩ := hi.holds (hs.stack i)
  obtain ⟨row', hrow', huser', hheld'⟩ := hj.holds (hs.stack j)
  have hsame : row' = row := hs.valid.eq_of_key (t := .credits) (k := .userId user)
    (Schema.mem_of_find hrow') (Schema.mem_of_find hrow) (by simp [schema, huser'])
    (by simp [schema, huser])
  rw [hsame] at hheld'
  by_contra hne
  exact hs.apart i j hne _ hheld hheld'

/-- What a client has changed before the step of another, it has changed after it. -/
theorem Lowering.of_step [DecidableEq ι] (hs : locking.SysOk s) (h : Step postgres s i s')
    (hij : j ≠ i) (hj : Lowering user (s'.clients j).loc s'.db) :
    Lowering user (s.clients j).loc s.db := by
  rw [h.other hij] at hj
  obtain ⟨t, ht, w, hw, hmoves⟩ := hj
  refine ⟨t, ht, w, hw, ?_⟩
  unfold movesBalance at hmoves ⊢
  split at hmoves
  · next id n =>
    have hheld : Lock.row .credits id ∈ heldBy (s.clients j).loc.stack :=
      List.mem_flatMap.mpr ⟨t, ht, (hs.stack j).covered t ht _ hw _ (.head _)⟩
    have hsame : schema.find .credits id s.db = schema.find .credits id s'.db :=
      hs.same_of_step hij h _ hheld
    rw [hsame]
    exact hmoves
  · cases hmoves

end Lowering

/-! ## What a call commits -/

/-- The commit of a client leaves the credits alone, or is a deduction of the
user under one of the keys. -/
def Deducts (user : String) (keys : List String) (c : LocalState) (db db' : Data) : Prop :=
  (∀ t ∈ creditTables, db' t = db t) ∨
    ∃ t n key, t ∈ c.stack ∧ 0 < n ∧ key ∈ keys ∧ locking.fitsAll t.writes db ∧
      CreditChange user (-n) (some key) t.writes db ∧ db' = postgres.view t db

/-- The protocol of a client that only deducts under these keys. -/
def deductionProtocol (user : String) (keys : List String) : Protocol locking (fun _ => True) :=
  .any locking (Deducts user keys) fun _ _ => .inl fun _ _ => rfl

section Calls

variable {user key : String} {keys : List String} {c : LocalState} {db : Data}

/-- Writes of other tables leave the credits alone. -/
theorem deducts_of_other {ws : List RowWrite} (h : ∀ w ∈ ws, w.table ∉ creditTables) :
    (deductionProtocol user keys).Keeps c db (postgres.applyAll ws db) := by
  refine ⟨trivial, .inl fun t ht => applyAll_other fun w hw he => ?_⟩
  have hout := h w hw
  rw [he] at hout
  exact hout ht

theorem wp_deductCredits_deducts {amount : Int} {description : String} {metadata : Metadata}
    (hkey : CreditsService.givenKey (some key) = some key) (hmem : key ∈ keys) :
    (deductionProtocol user keys).wp
      (CreditsService.deductCredits (.str user) (.int amount) description (some key) metadata)
      (fun _ c' _ => c'.stack = c.stack) c db := by
  refine CreditsService.wp_deductCredits _ (K := fun _ => True) (N := fun _ => True)
    (fun _ _ _ _ _ _ => trivial) trivial (fun _ _ _ _ _ => trivial) (fun _ _ _ _ _ _ _ _ => trivial)
    (fun _ _ _ hc _ _ => hc) (fun _ _ _ _ _ hc _ _ => hc) ?_
  intro r t c' db₁ user' n huser _ hpos hstack _ hs _ hchange
  obtain rfl : user = user' := by simpa using huser
  rw [hkey] at hchange
  have hmem' : t ∈ c'.stack := by
    rw [hstack]
    exact .head _
  exact ⟨⟨trivial, .inr ⟨t, n, key, hmem', hpos, hmem, hs.fits hstack, hchange, rfl⟩⟩, rfl⟩

/-- A transaction that writes other tables and then deducts. -/
theorem wp_transaction_deducts {α β : Type} {T : List Table} {p : Action α} {m : α → Action β}
    (hT : ∀ t ∈ T, t ∉ creditTables) (hp : Only (WritesIn T) p 0) (honly : ∀ a, Only anyStmt (m a) 0)
    (hm : ∀ a c db, (deductionProtocol user keys).wp (m a) (fun _ c' _ => c'.stack = c.stack) c db) :
    (deductionProtocol user keys).wp (transaction (p >>= m)) (fun _ _ _ => True) c db := by
  refine Protocol.wp_transaction_of_does_bind (X := Effect.writes locking fun w => w.table ∈ T)
    (Protocol.does_only table_mem_of_writesIn (fun c db ws _ hw _ _ _ =>
      deducts_of_other fun w hin => hT _ (hw w hin)) hp) honly
    (fun a t c₁ db₁ _ _ _ _ _ => Protocol.wp_mono _ (fun _ _ _ hr _ _ => hr) (hm a c₁ db₁))
    (fun _ _ _ _ => trivial) fun a b t c' db' _ _ _ _ _ hx => ⟨?_, trivial⟩
  exact deducts_of_other fun w hin => hT _ (hx w hin)

end Calls

/-! ## The two paths -/

namespace RefundsService

theorem recordRows_only (refund : RefundRequest) (result : RefundResult) :
    Only (WritesIn (.refundRequests :: ledgerTables)) (recordRows refund result) 0 := by
  refine only_bind (writesIn_mono (by decide) (LedgerService.accountUpsert_only _ _)) fun _ => ?_
  refine only_bind (writesIn_mono (by decide) (LedgerService.accountUpsert_only _ _)) fun _ => ?_
  refine only_bind (writesIn_mono (by decide) (LedgerService.recordTransaction_only ..)) fun _ => ?_
  exact only_bind (only_exec (by simp [WritesIn, Stmt.writes])) fun _ => only_pure _

variable {keys : List String} {db : Data} {request : RefundRequest}

/-- Every call that processes a payment refund deducts under the key of the
request only. -/
theorem wp_processRefund_deducts
    (hrequest : schema.find .refundRequests request.id db = some request)
    (htype : request.type = .PAYMENT) (hkey : refundKey request.id ∈ keys) :
    (deductionProtocol request.userId keys).wp (processRefund request.id) (fun _ _ _ => True) {} db := by
  have hupdate : ∀ (c : LocalState) (db : Data) (p : RefundPatch),
      (deductionProtocol request.userId keys).Keeps c db
        (schema.apply (.update .refundRequests request.id p) db) := by
    intro c db p
    rw [← applyAll_single]
    refine deducts_of_other fun w hw => ?_
    rw [List.mem_singleton.mp hw]
    show Table.refundRequests ∉ creditTables
    decide
  refine wp_processRefund _ (G := fun _ _ _ => True) (fun _ _ _ => trivial)
    (fun seen db₁ hs₁ hseen _ => ?_) (fun _ _ _ _ _ _ _ _ => hupdate _ _ _)
    (fun _ _ _ _ _ _ _ _ _ _ => ⟨hupdate _ _ _, trivial⟩)
  have hsame := sameRequest_of_le hs₁.le hrequest hseen
  have hdispatch : dispatch seen = processPaymentRefund seen := by
    unfold dispatch
    rw [hsame.type, htype]
  refine Protocol.wp_mono _ (Q := fun _ _ _ => True) (fun _ _ _ _ _ _ => trivial) ?_
  rw [hdispatch]
  unfold processPaymentRefund
  split
  · trivial
  split
  · trivial
  split
  · trivial
  rw [Protocol.wp_bind]
  unfold refundCharge
  rw [Protocol.wp_bind]
  refine Protocol.wp_exec_auto _ (fun _ _ _ => trivial) fun env r ws db₂ hs₂ hx => ?_
  obtain ⟨gateway, rfl, -, -⟩ := exec_refundCharge hx
  refine ⟨deducts_of_other fun w hw => ?_, ?_⟩
  · have htable := table_of_exec hx w hw
    rw [← Option.some.inj htable]
    decide
  cases env.lost with
  | some message => trivial
  | none =>
      refine wp_transaction_deducts (by decide) (recordRows_only seen _)
        (fun _ => anyStmt_of_only (deductRefunded_only seen)) fun _ c db => ?_
      rw [deductRefunded, Protocol.wp_tryCatch, Protocol.wp_bind, hsame.userId, hsame.id]
      refine Protocol.wp_mono _ (fun r c' _ hr => ?_)
        (wp_deductCredits_deducts (CreditsService.givenKey_append (by decide)) hkey)
      cases r with
      | ok _ => exact hr
      | error _ => exact hr

end RefundsService

namespace AuthorizeNetWebhookController

variable {config : AuthorizeNetConfig} {req : AuthorizeNetRequest} {data : AuthorizeNetData}
  {user : String} {keys : List String} {db : Data}

/-- Every delivery of a refunded charge deducts under the key of the charge only. -/
theorem wp_refunded_deducts (htype : req.body.type = .str "charge.refunded")
    (hdata : req.body.data = some data) (huser : data.userId = .str user)
    (hkey : refundedCreditKey data.transactionId.text ∈ keys) :
    (deductionProtocol user keys).wp (handleWebhook config req) (fun _ _ _ => True) {} db := by
  have happly : applyEvent req.body.type req.body.data = chargeRefunded data := by
    rw [htype, hdata]
    rfl
  refine wp_handleWebhook _ (fun _ _ _ => trivial) (fun _ _ _ _ _ _ _ => trivial) fun _ db₁ _ _ _ => ?_
  rw [recordAndApply, happly]
  refine Protocol.wp_mono _ (Q := fun _ _ _ => True) (fun r _ _ _ => ?_) (wp_transaction_deducts
    (T := [.processedWebhooks]) (by decide) (only_exec (by simp [WritesIn, Stmt.writes]))
    (fun _ => anyStmt_of_only (chargeRefunded_only data)) fun _ c db => ?_)
  · cases r with
    | ok _ => trivial
    | error _ => exact fun _ => trivial
  · unfold chargeRefunded
    split
    · split
      · rfl
      · rw [huser, Protocol.wp_tryCatch, Protocol.wp_bind]
        refine Protocol.wp_mono _ (fun r c' _ hr => ?_)
          (wp_deductCredits_deducts (CreditsService.givenKey_append (by decide)) hkey)
        cases r with
        | ok _ => exact hr
        | error _ => exact hr
    · rfl

end AuthorizeNetWebhookController

/-! ## Runs -/

/-- The event of a refunded charge `T` of the user. -/
structure RefundedEvent (user T : String) where
  config : AuthorizeNetConfig
  req : AuthorizeNetRequest
  data : AuthorizeNetData
  hasType : req.body.type = .str "charge.refunded"
  hasData : req.body.data = some data
  hasUser : data.userId = .str user
  hasCharge : data.transactionId = .str T

/-- What records that a charge was refunded: the refund that is processed, and
the event of the gateway. -/
inductive RefundPath (user T : String)
  | process
  | refunded (event : RefundedEvent user T)

/-- The program of a path for the request `id`, without its answer. -/
def RefundPath.run (id : String) {user T : String} : RefundPath user T → Action Unit
  | process => RefundsService.processRefund id >>= fun _ => pure ()
  | refunded event => handleWebhook event.config event.req >>= fun _ => pure ()

/-- The keys of the deductions for a refund of the charge `T`. -/
def refundKeys (id T : String) : List String := [refundKey id, refundedCreditKey T]

/-- The rows that are logged under the keys. -/
def loggedUnder (keys : List String) (db : Data) : List CreditTransaction :=
  (db .creditTransactions).filter fun row => row.idempotencyKey ∈ keys.map some

/-- The user has paid for at most one row under the keys. -/
structure DeductedOnce (user : String) (keys : List String) (db₀ db : Data) : Prop where
  once : (loggedUnder keys db).length ≤ 1
  balance : balanceOf user db = balanceOf user db₀ + ((loggedUnder keys db).map (·.amount)).sum

section Runs

variable {user : String} {keys : List String} {db₀ db db' : Data} {n : Int} {key : String}

theorem loggedUnder_eq_nil :
    loggedUnder keys db = [] ↔ ∀ key ∈ keys, CreditsService.Unlogged key db := by
  rw [loggedUnder, List.filter_eq_nil_iff]
  constructor
  · intro h key hkey row hrow he
    exact h row hrow (decide_eq_true (he ▸ List.mem_map_of_mem hkey))
  · intro h row hrow hmem
    obtain ⟨key, hkey, he⟩ := List.mem_map.mp (of_decide_eq_true hmem)
    exact h key hkey row hrow he.symm

/-- A deduction under one of the keys is the first. -/
theorem DeductedOnce.deduct {ws : List RowWrite} (h : DeductedOnce user keys db₀ db)
    (hv : schema.Valid db) (hfits : locking.fitsAll ws db) (hkey : key ∈ keys)
    (hnone : ∀ key ∈ keys, CreditsService.Unlogged key db)
    (hchange : CreditChange user n (some key) ws db) :
    DeductedOnce user keys db₀ (postgres.applyAll ws db) := by
  obtain ⟨log, hlog, -, hamount, hlogged⟩ := hchange.logged hfits
  have hrows : loggedUnder keys (postgres.applyAll ws db) = [log] := by
    rw [loggedUnder, hlog, List.filter_append]
    show loggedUnder keys db ++ _ = _
    rw [loggedUnder_eq_nil.mpr hnone, List.nil_append]
    simp [hlogged, hkey]
  have hbalance := h.balance
  rw [loggedUnder_eq_nil.mpr hnone] at hbalance
  refine ⟨by rw [hrows]; exact Nat.le_refl 1, ?_⟩
  rw [hrows, hchange.balanceOf hv hfits, if_pos rfl, hbalance, List.map_singleton,
    List.sum_singleton, hamount, List.map_nil, List.sum_nil, Int.add_zero]

theorem DeductedOnce.of_same (h : DeductedOnce user keys db₀ db)
    (hsame : ∀ t ∈ creditTables, db' t = db t) : DeductedOnce user keys db₀ db' := by
  have hrows : loggedUnder keys db' = loggedUnder keys db := by
    rw [loggedUnder, hsame _ (by decide), loggedUnder]
  have hbalance : balanceOf user db' = balanceOf user db := balanceOf_of_same (hsame _ (by decide))
  refine ⟨?_, ?_⟩
  · rw [hrows]
    exact h.once
  · rw [hbalance, hrows]
    exact h.balance

/-- What holds of every state: who has lowered the balance found no key logged. -/
structure PathsKept {ι : Type} (user : String) (keys : List String) (db₀ : Data)
    (s : Sys Stmt Data RowWrite RowLock Err Unit ι) : Prop where
  first : ∀ i, Lowering user (s.clients i).loc s.db → ∀ key ∈ keys, CreditsService.Unlogged key s.db
  money : DeductedOnce user keys db₀ s.db

variable {ι : Type} [DecidableEq ι] {s s' : Sys Stmt Data RowWrite RowLock Err Unit ι} {i : ι}

/-- The step: a commit of the credits is a deduction of the one client that has
lowered the balance. -/
theorem PathsKept.step (h : PathsKept user keys db₀ s) (hok : locking.SysOk s)
    (hstep : Step postgres s i s') (hdeducts : Deducts user keys (s.clients i).loc s.db s'.db)
    (hfirst : LowersFirst user keys s i s') : PathsKept user keys db₀ s' := by
  cases hdeducts with
  | inl hsame =>
      refine ⟨fun j hj => ?_, h.money.of_same hsame⟩
      by_cases hij : j = i
      · subst hij
        exact hfirst hj
      · intro key hkey row hrow
        rw [hsame _ (by decide)] at hrow
        exact h.first j (hj.of_step hok hstep hij) key hkey row hrow
  | inr hcommit =>
      obtain ⟨t, n, key, ht, hpos, hkey, hfits, hchange, hdb⟩ := hcommit
      have hlowering : Lowering user (s.clients i).loc s.db := hchange.lowering hpos ht
      refine ⟨fun j hj => ?_, ?_⟩
      · by_cases hij : j = i
        · subst hij
          exact hfirst hj
        · exact (hij ((hj.of_step hok hstep hij).unique hok hlowering)).elim
      · rw [hdb]
        exact h.money.deduct hok.valid hfits hkey (h.first i hlowering) hchange

end Runs

/-- In every run of calls that process a payment refund and of deliveries of the
event that its charge was refunded, in which no call has lowered the balance
while one of the two keys is logged: at most one deduction is committed, and
the balance of the user is lowered by that one. -/
theorem refundPaths_deductOnce {ι : Type} [DecidableEq ι] (db : Database) (request : RefundRequest)
    (T : String) (hrequest : schema.find .refundRequests request.id db.rows = some request)
    (htype : request.type = .PAYMENT)
    (hkeys : ∀ key ∈ refundKeys request.id T, CreditsService.Unlogged key db.rows)
    (paths : ι → RefundPath request.userId T) (s : Sys Stmt Data RowWrite RowLock Err Unit ι)
    (h : Runs postgres (LowersFirst request.userId (refundKeys request.id T))
      (Sys.start db.rows fun i => (paths i).run request.id) s) :
    (loggedUnder (refundKeys request.id T) s.db).length ≤ 1 ∧
      balanceOf request.userId s.db = balanceOf request.userId db.rows +
        ((loggedUnder (refundKeys request.id T) s.db).map (·.amount)).sum := by
  have hwp : ∀ i, (deductionProtocol request.userId (refundKeys request.id T)).wp
      ((paths i).run request.id) (fun _ _ _ => True) {} db.rows := by
    intro i
    cases paths i with
    | process =>
        refine (Protocol.wp_bind ..).mpr (Protocol.wp_mono _ (fun r _ _ _ => ?_)
          (RefundsService.wp_processRefund_deducts hrequest htype (.head _)))
        cases r <;> trivial
    | refunded event =>
        have hkey : refundedCreditKey event.data.transactionId.text ∈ refundKeys request.id T := by
          rw [event.hasCharge]
          exact .tail _ (.head _)
        refine (Protocol.wp_bind ..).mpr (Protocol.wp_mono _ (fun r _ _ _ => ?_)
          (wp_refunded_deducts event.hasType event.hasData event.hasUser hkey))
        cases r <;> trivial
  suffices hkept : PathsKept request.userId (refundKeys request.id T) db.rows s from
    ⟨hkept.money.once, hkept.money.balance⟩
  induction h with
  | refl =>
      refine ⟨fun _ _ => hkeys, ?_, ?_⟩
      · show (loggedUnder _ db.rows).length ≤ 1
        rw [loggedUnder_eq_nil.mpr hkeys]
        exact Nat.zero_le 1
      · show balanceOf _ db.rows = balanceOf _ db.rows + ((loggedUnder _ db.rows).map _).sum
        rw [loggedUnder_eq_nil.mpr hkeys, List.map_nil, List.sum_nil, Int.add_zero]
  | @step s₁ s₂ i hruns hstep hfirst ih =>
      obtain ⟨hdeducts, hok⟩ := guar_of_runs (D := locking) db.valid (by exact hwp i)
        (hruns.mono fun _ _ _ _ => trivial) hstep
      exact ih.step hok hstep hdeducts hfirst

/-! ## A refund and its event -/

/-- A request for a refund of 100 cents. -/
def approvedHundred : RefundRequest := { fiftyCents with amount := 100 }

/-- The user has less credits than two refunds take. -/
def refundableOnce : Database :=
  .ofWrites [.insert .users ⟨"user"⟩, .insert .users ⟨LedgerService.SYSTEM_USER_ID⟩,
    .insert .credits ⟨"credits_1", "user", 150⟩, .insert .refundRequests approvedHundred] (by decide)

/-- The user has the credits of two refunds. -/
def refundableTwice : Database :=
  .ofWrites [.insert .users ⟨"user"⟩, .insert .users ⟨LedgerService.SYSTEM_USER_ID⟩,
    .insert .credits ⟨"credits_1", "user", 200⟩, .insert .refundRequests approvedHundred] (by decide)

/-- The event of the gateway for the same charge. -/
def refundedEvent : RefundedEvent "user" "charge_1" where
  config := constantHmac
  req := refundedPurchase
  data := _
  hasType := rfl
  hasData := rfl
  hasUser := rfl
  hasCharge := rfl

/-- One client processes the refund, another handles the event. -/
def refundAndEvent (i : Fin 2) : RefundPath "user" "charge_1" :=
  if i = 0 then .process else .refunded refundedEvent

/-- The refund, and then the event. -/
def bothPaths (database : Database) : Sys Stmt Data RowWrite RowLock Err Unit (Fin 2) :=
  .start database.rows fun i => (refundAndEvent i).run "r1"

/-- No balance is lowered once a key is logged. -/
def lowersFirst (i : Fin 2) (s : Sys Stmt Data RowWrite RowLock Err Unit (Fin 2)) : Bool :=
  !decide (Lowering "user" (s.clients i).loc s.db) ||
    (loggedUnder (refundKeys "r1" "charge_1") s.db).isEmpty

/-- The event comes when the refund is processed. -/
def eventLast (n : Nat) : List (Fin 2 × Choice Env) :=
  List.replicate 23 (0, .go (.ordinary "a")) ++ List.replicate n (1, .go (.ordinary "b"))

theorem lowersFirst_of_test (s : Sys Stmt Data RowWrite RowLock Err Unit (Fin 2)) (i : Fin 2)
    (s' : Sys Stmt Data RowWrite RowLock Err Unit (Fin 2)) (h : lowersFirst i s' = true) :
    LowersFirst "user" (refundKeys "r1" "charge_1") s i s' := by
  intro hlowering
  unfold lowersFirst at h
  rw [decide_eq_true hlowering, Bool.not_true, Bool.false_or, List.isEmpty_iff] at h
  exact loggedUnder_eq_nil.mp h

/-- The credits that are left do not cover the event: it is refused. -/
theorem eventUncovered_deductsOnce :
    ∃ s, Runs postgres (LowersFirst "user" (refundKeys "r1" "charge_1")) (bothPaths refundableOnce) s ∧
      hasBalance "user" 50 s.db = true ∧
      (loggedUnder (refundKeys "r1" "charge_1") s.db).length ≤ 1 ∧
      balanceOf "user" s.db = balanceOf "user" refundableOnce.rows +
        ((loggedUnder (refundKeys "r1" "charge_1") s.db).map (·.amount)).sum := by
  have hplay : (replay postgres lowersFirst (eventLast 8) (bothPaths refundableOnce)).any
      (fun s => hasBalance "user" 50 s.db) = true := by decide +kernel
  obtain ⟨s, hs, hbalance⟩ := exists_run_of_replay lowersFirst_of_test hplay
  exact ⟨s, hs, hbalance, refundPaths_deductOnce refundableOnce approvedHundred "charge_1" rfl rfl
    (loggedUnder_eq_nil.mp rfl) refundAndEvent s hs⟩

/-- Both deductions are logged, and nothing is left. -/
def deductedTwice (db : Data) : Bool :=
  hasBalance "user" 0 db && (loggedUnder (refundKeys "r1" "charge_1") db).length == 2

/-- The credits that are left cover the event: they are deducted again. -/
theorem eventCovered_deductsTwice :
    approvedHundred.status = .APPROVED ∧ approvedHundred.originalGatewayTransactionId = some "charge_1" ∧
      ∃ s, Runs postgres AnyStep (bothPaths refundableTwice) s ∧
        balanceOf "user" refundableTwice.rows = 200 ∧ balanceOf "user" s.db = 0 ∧
        ¬(loggedUnder (refundKeys "r1" "charge_1") s.db).length ≤ 1 := by
  have hplay : (replay postgres anyTime (eventLast 10) (bothPaths refundableTwice)).any
      (fun s => deductedTwice s.db) = true := by decide +kernel
  obtain ⟨s, hs, hend⟩ := exists_run hplay
  rw [deductedTwice, Bool.and_eq_true, beq_iff_eq] at hend
  obtain ⟨hbalance, htwo⟩ := hend
  exact ⟨rfl, rfl, s, hs, by decide, of_decide_eq_true hbalance, by omega⟩

end PaymentBilling
