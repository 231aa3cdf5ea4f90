import PaymentBilling.Safety.CreditKeys
import PaymentBilling.Safety.DisputeBooks
import PaymentBilling.Spec.Deliveries

/-!
# Safety.Deliveries

Any number of deliveries of one event at once: how often it takes effect.

The record of the event is unique and the first row that a delivery inserts, so
the deliveries take turns from there on: one commits at most, and those that
come after it find the record.
-/

namespace PaymentBilling

open Relational Transact

/-! ## Events of the card gateway -/

/-- Deliveries of `reqs`, about to run on the database `db`. -/
def deliverySystem {ι : Type} (db : Database) (config : ι → AuthorizeNetConfig)
    (reqs : ι → AuthorizeNetRequest) : Sys Stmt Data RowWrite RowLock Err WebhookResponse ι :=
  Sys.start db.rows fun i => AuthorizeNetWebhookController.handleWebhook (config i) (reqs i)

/-- A delivery has answered `skipped` because of its event: it has found the
record, or the record that it wanted to insert was there already. -/
def SkippedByRecord (eventId : Js) (x : Client Stmt RowWrite RowLock Err WebhookResponse) : Prop :=
  x.prog = .ret (.ok { skipped := true }) ∧
    ((∃ row, x.loc.trace = [.stmt (.processedWebhookFindUnique eventId) (.ok (some row))]) ∨
      ∃ type, x.loc.trace = [.rollback,
        .stmt (.processedWebhookCreate eventId "authorize_net" type) (.error (.rejected .unique)),
        .begin, .stmt (.processedWebhookFindUnique eventId) (.ok none)])

/-- Such a delivery has not inserted a record. -/
theorem SkippedByRecord.unrecorded {eventId : Js}
    {x : Client Stmt RowWrite RowLock Err WebhookResponse} (h : SkippedByRecord eventId x)
    (β : Type) (s : Stmt β) (b : β) (hs : RecordsEvent eventId β s) :
    Event.stmt s (.ok b) ∉ x.loc.trace := by
  intro hmem
  obtain ⟨-, ⟨row, htrace⟩ | ⟨type, htrace⟩⟩ := h
  · rw [htrace, List.mem_singleton] at hmem
    cases hmem
    exact hs
  · rw [htrace] at hmem
    simp only [List.mem_cons, reduceCtorEq, Event.stmt.injEq, List.not_mem_nil, or_false,
      false_or] at hmem
    rcases hmem with ⟨rfl, hstmt, hanswer⟩ | ⟨rfl, hstmt, -⟩
    · cases hanswer
    · obtain rfl := eq_of_heq hstmt
      exact hs

/-- In every run of deliveries of one event, one commits at most, and only the
one that answers without `skipped`; no key is logged more than once by them;
and a delivery that is skipped because of the event has changed nothing. -/
theorem webhookDelivery_once {ι : Type} [DecidableEq ι] (db : Database)
    (config : ι → AuthorizeNetConfig) (reqs : ι → AuthorizeNetRequest) (eventId : Js)
    (hevent : ∀ i, (reqs i).body.eventId = eventId) (key : String) (hkey : LoggedOnce key db.rows)
    (s : Sys Stmt Data RowWrite RowLock Err WebhookResponse ι)
    (h : Runs postgres AnyStep (deliverySystem db config reqs) s) :
    (∀ i j, (s.clients i).Settled → (s.clients j).Settled → i = j) ∧
      (∀ i, (s.clients i).prog = .ret (.ok {}) → (s.clients i).Settled) ∧
      LoggedOnce key s.db ∧
      ∀ i s₁ s₂, Runs postgres AnyStep (deliverySystem db config reqs) s₁ → Step postgres s₁ i s₂ →
        Runs postgres AnyStep s₂ s → SkippedByRecord eventId (s.clients i) → s₂.db = s₁.db := by
  let record := webhookRecord eventId
  have hstart : record.Once (deliverySystem db config reqs) := .start db.valid fun i => by
    have hfirst := AuthorizeNetWebhookController.first_handleWebhook (config i) (reqs i)
    rw [hevent i] at hfirst
    exact hfirst
  have hsafe : (record.contract (LoggedOnce key) ι).Safe
      (fun _ r c _ => r = .ok {} → JustCommitted c) (deliverySystem db config reqs) :=
    .start db.valid hkey (fun _ _ _ => trivial) fun i => by
      have hwp := AuthorizeNetWebhookController.wp_handleWebhook_log key
        (config i) (reqs i) db.rows
      rw [hevent i] at hwp
      exact hwp
  have hruns : Runs postgres (record.contract (LoggedOnce key) ι).Clean
      (deliverySystem db config reqs) s := h.mono fun _ _ _ _ _ _ _ _ => trivial
  obtain ⟨hs, -⟩ := hsafe.runs (T := fun _ _ => True) (fun _ _ _ _ _ _ _ _ hq => hq)
    (fun _ => trivial) (fun _ _ => trivial) (fun _ _ _ _ => trivial) hruns
  refine ⟨(hstart.runs h).settled_unique, fun i hi => ?_, hs.inv, ?_⟩
  · have hend := hs.wp i
    rw [hi] at hend
    obtain ⟨hstack, htrace⟩ := hend rfl
    exact ⟨by rw [hi]; rfl, hstack, htrace⟩
  · intro i s₁ s₂ h₁ hstep h₂ hskip
    exact (hstart.runs h₁).unrecorded hstep h₂ hskip.unrecorded

/-- A signed event: a purchase of 100 credits. -/
def purchaseDelivery : AuthorizeNetRequest where
  rawBody := []
  signature := some "01"
  body :=
    { eventId := .str "event_1", type := .str "charge.approved"
      data := some
        { userId := .str "user", transactionId := .str "charge_1", amount := .int 100
          contextType := .str "credit_purchase", contextRef := .str "100_credits" } }

/-- Its first delivery takes effect, the second finds its record. -/
def deliverTwice : List (Fin 2 × Choice Env) :=
  List.replicate 10 (0, .go (.ordinary "a")) ++ [(1, .go (.ordinary "b"))]

/-- Two deliveries grant the credits once. -/
theorem deliverTwice_once :
    ∃ s, Runs postgres AnyStep
        (deliverySystem oneUser (fun _ : Fin 2 => constantHmac) fun _ => purchaseDelivery) s ∧
      loggedTimes 1 "authorize_net_charge_charge_1" s.db = true ∧
      (∀ i j, (s.clients i).Settled → (s.clients j).Settled → i = j) ∧
      LoggedOnce "authorize_net_charge_charge_1" s.db := by
  have hplay : (replay postgres anyTime deliverTwice
      (deliverySystem oneUser (fun _ => constantHmac) fun _ => purchaseDelivery)).any
      (fun s => loggedTimes 1 "authorize_net_charge_charge_1" s.db) = true := by decide +kernel
  obtain ⟨s, hs, hlogged⟩ := exists_run hplay
  obtain ⟨hunique, -, honce, -⟩ := webhookDelivery_once oneUser (fun _ => constantHmac)
    (fun _ => purchaseDelivery) (.str "event_1") (fun _ => rfl) "authorize_net_charge_charge_1"
    (Nat.zero_le 1) s hs
  exact ⟨s, hs, hlogged, hunique, honce⟩

/-! ## Confirmations on the chain -/

/-- Confirmations `events`, about to be handled on the database `db`. -/
def confirmationSystem {ι : Type} (db : Database) (setting : Option String)
    (events : ι → SolanaEvent) : Sys Stmt Data RowWrite RowLock Err ConfirmationResponse ι :=
  Sys.start db.rows fun i => SolanaConfirmationController.handleConfirmation setting (events i)

/-- A confirmation of the transaction `hash`, of depth `depth`. -/
def Confirms (hash : String) (depth : Int) (event : SolanaEvent) : Prop :=
  ∃ data, event.data = some data ∧ data.txHash = .str hash ∧ data.confirmations = .int depth

/-- A confirmation that is not deep enough runs no statement. -/
theorem finished_of_shallow {setting : Option String} {r depth : Int} {hash : String}
    {event : SolanaEvent} (hr : SolanaConfirmationController.requiredConfirmations setting = .int r)
    (h : Confirms hash depth event) (hdepth : depth < r) :
    (SolanaConfirmationController.handleConfirmation setting event).finished = true := by
  obtain ⟨data, hdata, hhash, hconf⟩ := h
  unfold SolanaConfirmationController.handleConfirmation
  rw [hdata]
  simp only
  split
  · rfl
  · rw [hconf, hr, Js.lt_int, if_pos (decide_eq_true hdepth)]
    unfold SolanaConfirmationController.waiting
    rw [hhash]
    rfl

/-- In every run of confirmations of one transaction, nothing changes before one
that is deep enough has begun; the key of its credits is logged once at most;
and when one has settled the transaction it is logged once, and nothing changes
any more. -/
theorem confirmation_once {ι : Type} [DecidableEq ι] (db : Database) (setting : Option String)
    (r : Int) (hr : SolanaConfirmationController.requiredConfirmations setting = .int r)
    (hash : String) (events : ι → SolanaEvent) (depth : ι → Int)
    (hevents : ∀ i, Confirms hash (depth i) (events i))
    (hkey : CreditsService.Unlogged ("solana_charge_" ++ hash) db.rows)
    (s : Sys Stmt Data RowWrite RowLock Err ConfirmationResponse ι)
    (h : Runs postgres AnyStep (confirmationSystem db setting events) s) :
    ((∀ i, r ≤ depth i → (s.clients i).loc.trace = []) → s.db = db.rows) ∧
      LoggedOnce ("solana_charge_" ++ hash) s.db ∧
      ∀ i a, (s.clients i).prog = .ret (.ok a) → a.settled = true → a.skipped = false →
        ((s.db .creditTransactions).filter
            (·.idempotencyKey = some ("solana_charge_" ++ hash))).length = 1 ∧
          ∀ s', Runs postgres AnyStep s s' → s'.db = s.db := by
  let record := webhookRecord (.str hash)
  have hstart : record.Once (confirmationSystem db setting events) := .start db.valid fun i => by
    obtain ⟨data, hdata, hhash, -⟩ := hevents i
    have hfirst := SolanaConfirmationController.first_handleConfirmation setting (events i) data hdata
    rw [hhash] at hfirst
    exact hfirst
  have hsafe : (record.contract (LoggedOnce ("solana_charge_" ++ hash)) ι).Safe
      (fun _ r c db => (∀ a, r = .ok a → a.settled = true → a.skipped = false →
        JustCommitted c ∧ CreditsService.Logged ("solana_charge_" ++ hash) db) ∧ schema.Valid db)
      (confirmationSystem db setting events) :=
    .start db.valid (loggedOnce_of_unlogged hkey) (fun _ _ _ => trivial) fun i => by
      obtain ⟨data, hdata, hhash, -⟩ := hevents i
      have hwp := SolanaConfirmationController.wp_handleConfirmation_log setting hdata db.rows
      rw [SolanaConfirmationController.chargeKey, hhash] at hwp
      exact Protocol.wp_mono _ (fun _ _ _ hq => ⟨hq.1, hq.2.1⟩)
        (Protocol.wp_stackOk _ db.valid .nil hwp)
  have hruns : Runs postgres (record.contract (LoggedOnce ("solana_charge_" ++ hash)) ι).Clean
      (confirmationSystem db setting events) s := h.mono fun _ _ _ _ _ _ _ _ => trivial
  obtain ⟨hs, -⟩ := hsafe.runs (T := fun _ _ => True)
    (fun _ _ _ _ _ _ hv hle hq => ⟨fun a ha hsettled hskipped =>
      ⟨(hq.1 a ha hsettled hskipped).1, (hq.1 a ha hsettled hskipped).2.mono hq.2 hle⟩, hv⟩)
    (fun _ => trivial) (fun _ _ => trivial) (fun _ _ _ _ => trivial) hruns
  refine ⟨fun hshallow => ?_, hs.inv, fun i a hi hsettled hskipped => ?_⟩
  · -- the clients that have begun are deep enough
    have hsame : s = confirmationSystem db setting events := h.of_unstarted fun i hrun => by
      refine hshallow i (Int.not_lt.mp fun hdepth => ?_)
      have hfin := finished_of_shallow hr (hevents i) hdepth
      rw [show ((confirmationSystem db setting events).clients i).prog.finished = true from hfin] at hrun
      cases hrun
    rw [hsame]
    rfl
  · have hend := hs.wp i
    rw [hi] at hend
    obtain ⟨⟨hstack, htrace⟩, hlogged⟩ := hend.1 a rfl hsettled hskipped
    have hdone := (hstart.runs h).done i ⟨by rw [hi]; rfl, hstack, htrace⟩
    exact ⟨hs.inv.exactly hlogged, fun s' h' => (hstart.runs h).frozen_runs hdone h'⟩

/-- A payment of 100 credits, at this depth. -/
def paymentAt (depth : Int) : SolanaEvent where
  eventId := .str "event"
  data := some
    { txHash := .str "hash", userId := .str "user", amount := .int 100, confirmations := .int depth }

/-- The payment is settled at depth 3, and confirmed once more. -/
def confirmTwice : List (Fin 2 × Choice Env) :=
  List.replicate 10 (0, .go (.ordinary "a")) ++ [(1, .go (.ordinary "b"))]

/-- Two confirmations that are deep enough settle the payment once. -/
theorem confirmTwice_once :
    ∃ s, Runs postgres AnyStep
        (confirmationSystem oneUser none fun i : Fin 2 => paymentAt (3 + i.val)) s ∧
      loggedTimes 1 "solana_charge_hash" s.db = true ∧
      ((∀ i : Fin 2, (3 : Int) ≤ 3 + i.val → (s.clients i).loc.trace = []) → s.db = oneUser.rows) ∧
      LoggedOnce "solana_charge_hash" s.db := by
  have hplay : (replay postgres anyTime confirmTwice
      (confirmationSystem oneUser none fun i => paymentAt (3 + i.val))).any
      (fun s => loggedTimes 1 "solana_charge_hash" s.db) = true := by decide +kernel
  obtain ⟨s, hs, hlogged⟩ := exists_run hplay
  obtain ⟨hshallow, honce, -⟩ := confirmation_once oneUser none 3 rfl "hash"
    (fun i => paymentAt (3 + i.val)) (fun i => 3 + i.val) (fun _ => ⟨_, rfl, rfl, rfl⟩)
    (by intro row hrow; cases hrow) s hs
  exact ⟨s, hs, hlogged, hshallow, honce⟩

end PaymentBilling
