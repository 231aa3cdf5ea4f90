import PaymentBilling.Spec.Blame
import PaymentBilling.Spec.CreditOutcomes
import PaymentBilling.Spec.Deliveries
import PaymentBilling.Spec.Handlers

/-!
# Spec.ChargeOutcomes

What a delivery about a charge comes to when nobody else is at work and no
action fails: it was recorded before and changes nothing, or it changes the
credits, records the event, and in the end records the charge.
-/

namespace PaymentBilling

open Relational Transact

/-! ## Credits that are moved once -/

/-- The integer that a value is; any other value is no credits at all. -/
def Js.whole : Js → Int
  | .num (.fin q) => if q.den = 1 then q.num else 0
  | _ => 0

theorem Js.whole_int (n : Int) : (Js.int n).whole = n := by simp [Js.whole, Js.int]

theorem Js.int_of_whole {x : Js} (h : x.whole ≠ 0) : x = .int x.whole := by
  unfold Js.whole at h
  split at h
  · next q =>
    split at h
    · next hden =>
      have hq : q = ((q.num : Int) : Rat) := Rat.ext (by simp) (by simpa using hden)
      rw [Js.whole, if_pos hden, Js.int, ← hq]
    · exact (h rfl).elim
  · exact (h rfl).elim

/-- `n` credits are moved under a key, unless it is logged. -/
def MovedOnce (user key : String) (n : Int) (db db' : Data) : Prop :=
  (CreditsService.Logged key db ∧ db' = db) ∨ (CreditsService.Unlogged key db ∧
    ∃ ws, locking.fitsAll ws db ∧ CreditChange user n (some key) ws db ∧ db' = postgres.applyAll ws db)

section Moved

variable {user key : String} {n : Int} {db db' : Data}

theorem MovedOnce.of_granted {amount : Js}
    (h : CreditsService.Granted (.str user) amount key db db') (hpos : amount.le (.int 0) = false) :
    MovedOnce user key amount.whole db db' := by
  cases h with
  | nonpositive h =>
      rw [hpos] at h
      cases h
  | known h => exact .inl ⟨h, rfl⟩
  | changed huser hamount _ hnew hfits hchange =>
      obtain rfl := Js.str.inj huser
      obtain rfl := hamount
      rw [Js.whole_int]
      exact .inr ⟨hnew, _, hfits, hchange, rfl⟩

/-- A deduction whose key is logged in the end was not refused. -/
theorem MovedOnce.of_deducted
    (h : CreditsService.Deducted (.str user) (.int n) (some key) db db') (hpos : 0 < n)
    (hkey : CreditsService.givenKey (some key) = some key) (hlogged : CreditsService.Logged key db') :
    MovedOnce user key (-n) db db' := by
  cases h with
  | nonpositive h =>
      rw [Js.le_int, decide_eq_true_eq] at h
      omega
  | known hk h =>
      obtain rfl := Option.some.inj (hk.symm.trans hkey)
      exact .inl ⟨h, rfl⟩
  | uncovered => exact .inl ⟨hlogged, rfl⟩
  | changed huser hamount _ hnew hfits hchange =>
      obtain rfl := Js.str.inj huser
      obtain rfl := Js.int_inj.mp hamount
      rw [hkey] at hchange
      exact .inr ⟨hnew key hkey, _, hfits, hchange, rfl⟩

/-- Whether a key is logged. -/
def isLogged (db : Data) (key : String) : Bool :=
  (db .creditTransactions).any (·.idempotencyKey = some key)

theorem isLogged_iff : isLogged db key = true ↔ CreditsService.Logged key db := by
  simp [isLogged, CreditsService.Logged]

theorem isLogged_eq_false_iff : isLogged db key = false ↔ CreditsService.Unlogged key db := by
  simp [isLogged, CreditsService.Unlogged]

theorem isLogged_of_same (h : db' .creditTransactions = db .creditTransactions) :
    isLogged db' = isLogged db := by
  funext key
  rw [isLogged, h, isLogged]

/-- The balance moves, unless the key is logged. -/
theorem MovedOnce.balanceOf (h : MovedOnce user key n db db') (hv : schema.Valid db) :
    balanceOf user db' = balanceOf user db + if isLogged db key then 0 else n := by
  rcases h with ⟨hlogged, rfl⟩ | ⟨hnew, ws, hfits, hchange, rfl⟩
  · rw [if_pos (isLogged_iff.mpr hlogged), Int.add_zero]
  · rw [hchange.balanceOf hv hfits, if_pos rfl, isLogged_eq_false_iff.mpr hnew]
    rfl

/-- The key is logged from then on, and no other key is. -/
theorem MovedOnce.isLogged (h : MovedOnce user key n db db') (k : String) :
    isLogged db' k = (k = key || isLogged db k) := by
  rcases h with ⟨hlogged, rfl⟩ | ⟨-, ws, hfits, hchange, rfl⟩
  · by_cases hk : k = key
    · rw [hk, isLogged_iff.mpr hlogged, Bool.or_true]
    · rw [decide_eq_false hk, Bool.false_or]
  · obtain ⟨log, hlog, -, -, hkey⟩ := hchange.logged hfits
    rw [PaymentBilling.isLogged, hlog, List.any_append, PaymentBilling.isLogged, Bool.or_comm,
      List.any_cons, List.any_nil, Bool.or_false, hkey]
    simp only [Option.some.injEq, eq_comm]

theorem MovedOnce.other (h : MovedOnce user key n db db') {t : Table} (ht : t ∉ creditTables) :
    db' t = db t := by
  simp only [creditTables, List.mem_cons, List.not_mem_nil, or_false, not_or] at ht
  rcases h with ⟨-, rfl⟩ | ⟨-, ws, -, hchange, rfl⟩
  · rfl
  · exact hchange.other ht.1 ht.2

/-- Credits that are moved under a key, if there are any. -/
def Moved (user : String) : Option (String × Int) → Data → Data → Prop
  | none, db, db' => db' = db
  | some (key, n), db, db' => MovedOnce user key n db db'

theorem Moved.other {credit : Option (String × Int)} (h : Moved user credit db db') {t : Table}
    (ht : t ∉ creditTables) : db' t = db t := by
  cases credit with
  | none => rw [show db' = db from h]
  | some credit => exact MovedOnce.other h ht

end Moved

/-! ## Records -/

/-- The event is recorded, and the credits are left alone. -/
structure Handled (id : Js) (db db' : Data) : Prop where
  credits : ∀ t ∈ creditTables, db' t = db t
  record : ∃ row : ProcessedWebhook, id = .str row.id ∧
    db' .processedWebhooks = db .processedWebhooks ++ [row]

theorem handled_of_writes {row : ProcessedWebhook} {ws : List RowWrite} {db : Data}
    (h : ∀ w ∈ ws, w.table ∉ .processedWebhooks :: creditTables) :
    Handled (.str row.id) db (postgres.applyAll (.insert .processedWebhooks row :: ws) db) := by
  have hother : ∀ t ∈ Table.processedWebhooks :: creditTables,
      postgres.applyAll (.insert .processedWebhooks row :: ws) db t =
        schema.apply (.insert .processedWebhooks row) db t :=
    fun t ht => applyAll_other fun w hw he => h w hw (he ▸ ht)
  refine ⟨fun t ht => ?_, row, rfl, ?_⟩
  · rw [hother t (.tail _ ht)]
    refine apply_insert_other ?_ _ _
    rintro rfl
    revert ht
    decide
  · rw [hother _ (.head _)]
    exact Schema.apply_insert_self

/-- The charge has a record. -/
def HasCharge (gateway : PaymentGateway) (txn : String) (db : Data) : Prop :=
  ∃ row ∈ db .chargeRecords, row.gatewayType = gateway ∧ row.gatewayTransactionId = txn

/-- A charge that had no record has none, or one with its amount. -/
def Charged (gateway : PaymentGateway) (transactionId amountCents : Js) (db db' : Data) : Prop :=
  ∀ txn, transactionId = .str txn → ¬HasCharge gateway txn db → ∀ row ∈ db' .chargeRecords,
    row.gatewayType = gateway → row.gatewayTransactionId = txn → amountCents = .int row.amountCents

/-- A charge is found, or recorded with its amount. -/
def chargeEffect (α : Type) (gateway : PaymentGateway) (transactionId amountCents : Js) :
    Effect locking α where
  rel _ ws db := ∃ txn n, transactionId = .str txn ∧ amountCents = .int n ∧
    ((ws = [] ∧ ∃ row : ChargeRecord, schema.find .chargeRecords row.id db = some row ∧
        row.gatewayType = gateway ∧ row.gatewayTransactionId = txn) ∨
      ∃ row : ChargeRecord, ws = [.insert .chargeRecords row] ∧ row.gatewayType = gateway ∧
        row.gatewayTransactionId = txn ∧ row.amountCents = n)
  stable := by
    rintro a ws db db' - - hle ⟨txn, n, htxn, hn, ⟨rfl, row, hrow, hgateway, hid⟩ | h⟩
    · obtain ⟨row', hrow', hfixed⟩ := hle _ _ _ hrow
      obtain rfl : row' = row := hfixed
      exact ⟨txn, n, htxn, hn, .inl ⟨rfl, row', hrow', hgateway, hid⟩⟩
    · exact ⟨txn, n, htxn, hn, .inr h⟩

section Charges

variable {α : Type} {gateway : PaymentGateway} {transactionId amountCents : Js} {a : α}
  {ws : List RowWrite} {db : Data}

theorem chargeEffect_tables (h : (chargeEffect α gateway transactionId amountCents).rel a ws db) :
    ∀ w ∈ ws, w.table = .chargeRecords := by
  obtain ⟨txn, n, -, -, ⟨rfl, -⟩ | ⟨row, rfl, -⟩⟩ := h
  · intro w hw
    cases hw
  · intro w hw
    rw [List.mem_singleton.mp hw]
    rfl

theorem charged_of_same {db' : Data} (h : db' .chargeRecords = db .chargeRecords) :
    Charged gateway transactionId amountCents db db' := by
  intro txn _ hnone row hrow hgateway hid
  rw [h] at hrow
  exact (hnone ⟨row, hrow, hgateway, hid⟩).elim

theorem chargeEffect_charged (h : (chargeEffect α gateway transactionId amountCents).rel a ws db) :
    Charged gateway transactionId amountCents db (postgres.applyAll ws db) := by
  obtain ⟨txn, n, rfl, rfl, ⟨rfl, -⟩ | ⟨row, rfl, hgateway, hid, rfl⟩⟩ := h
  · exact charged_of_same rfl
  · intro txn' htxn hnone row' hrow' hgateway' hid'
    have happend : schema.apply (.insert .chargeRecords row) db .chargeRecords =
        db .chargeRecords ++ [row] := Schema.apply_insert_self
    rw [applyAll_single, happend, List.mem_append, List.mem_singleton] at hrow'
    cases hrow' with
    | inl hold => exact (hnone ⟨row', hold, hgateway', hid'⟩).elim
    | inr hnew => rw [hnew]

theorem does_chargeRecordUpsert {I : Data → Prop} {P : Protocol locking I}
    {past : List (Event Stmt Err)} (data : ChargeRecordUpsert) :
    P.Does past (query (.chargeRecordUpsert data))
      (chargeEffect ChargeRecord data.gatewayType data.gatewayTransactionId data.amountCents) := by
  refine Protocol.does_exec fun env db row ws hv hx => ?_
  obtain ⟨user, txn, n, -, htxn, hn, -, -, hgateway, hid, h⟩ := exec_chargeRecordUpsert hx
  refine ⟨txn, n, htxn, hn, ?_⟩
  rcases h with ⟨rfl, hrow⟩ | ⟨rfl, hamount⟩
  · exact .inl ⟨rfl, row, hv.find_of_mem hrow, hgateway, hid⟩
  · exact .inr ⟨row, rfl, hgateway, hid, hamount⟩

end Charges

/-- What the writes after the credits make of a charge. -/
def RecordsCharge (gateway : PaymentGateway) (transactionId amountCents : Js)
    (Y : Effect locking Unit) : Prop :=
  ∀ a ws db, Y.rel a ws db → (∀ w ∈ ws, w.table ∉ .processedWebhooks :: creditTables) ∧
    Charged gateway transactionId amountCents db (postgres.applyAll ws db)

theorem recordsCharge_pure (gateway : PaymentGateway) (transactionId amountCents : Js) :
    RecordsCharge gateway transactionId amountCents (Effect.pure locking ()) := by
  intro a ws db h
  obtain rfl : ws = [] := h.2
  refine ⟨fun w hw => ?_, charged_of_same rfl⟩
  cases hw

theorem recordsCharge_effect (gateway : PaymentGateway) (transactionId amountCents : Js) :
    RecordsCharge gateway transactionId amountCents
      (chargeEffect Unit gateway transactionId amountCents) := by
  intro a ws db h
  refine ⟨fun w hw => ?_, chargeEffect_charged h⟩
  rw [chargeEffect_tables h w hw]
  decide

/-- What an event comes to that is handled: its credits are moved, it is
recorded, and so is its charge. -/
def ChargeHandled (user : String) (credit : Option (String × Int)) (id : Js)
    (gateway : PaymentGateway) (transactionId amountCents : Js) (db db' : Data) : Prop :=
  ∃ db₁, Moved user credit db db₁ ∧ schema.Valid db₁ ∧ Handled id db₁ db' ∧
    Charged gateway transactionId amountCents db₁ db'

/-! ## Deliveries -/

/-- Rows of subscriptions are written. -/
abbrev subscriptionWrites (α : Type) : Effect locking α :=
  .writes locking (·.table ∈ [.subscriptions, .gatewaySubscriptions])

theorem does_pure_subscription {I : Data → Prop} {P : Protocol locking I}
    {past : List (Event Stmt Err)} {α : Type} (a : α) :
    P.Does past (pure a) (subscriptionWrites α) := by
  refine Protocol.does_weaken (Protocol.does_pure a) fun a' ws db h w hw => ?_
  rw [h.2] at hw
  cases hw

theorem subscriptionTables_other : ∀ t ∈ [Table.subscriptions, .gatewaySubscriptions],
    t ∉ .processedWebhooks :: creditTables := by decide

theorem does_createOrUpdateFromGateway {I : Data → Prop} {P : Protocol locking I}
    {past : List (Event Stmt Err)} (params : GatewayActivation) :
    P.Does past (SubscriptionsService.createOrUpdateFromGateway params)
      (subscriptionWrites Subscription) := by
  have hquery : ∀ {α : Type} (s : Stmt α), WritesIn [.subscriptions, .gatewaySubscriptions] α s →
      P.Does past (query s) (subscriptionWrites α) := fun s hs =>
    Protocol.does_exec fun env db a ws _ hx => table_mem_of_writesIn _ s hs env db a ws hx
  refine Protocol.does_weaken (Protocol.does_bind (hquery _ ?_) fun subscription =>
    Protocol.does_bind (hquery _ ?_) fun _ => Protocol.does_pure subscription) ?_
  · simp [WritesIn, Stmt.writes]
  · simp [WritesIn, Stmt.writes]
  · rintro _ _ db ⟨_, ws₁, _, rfl, h₁, _, ws₂, _, rfl, h₂, -, rfl⟩ w hw
    simp only [List.append_nil, List.mem_append] at hw
    exact hw.elim (h₁ w) (h₂ w)

/-- A program ends with a violated unique constraint only if something failed. -/
theorem wp_flawless {α : Type} {p : Action α} {Q : Post Stmt Data RowWrite RowLock Err α}
    {c : LocalState} {db : Data} (honly : Only anyStmt p 0) (hpass : PassesOn p)
    (h : soloProtocol.wp p Q c db) :
    soloProtocol.wp p (fun r c' db' => Q r c' db' ∧
      ∀ e, r = .error e → IsDuplicate e → ¬Flawless c'.trace) c db := by
  refine Protocol.wp_mono _ (fun r c' db' hr => ⟨hr.1, fun e he hdup hflawless => ?_⟩)
    (Protocol.wp_blame (fun _ => nofun) honly hpass h)
  obtain ⟨-, events, htrace, hblame⟩ := hr
  obtain ⟨event, hevent, hblamed⟩ := hblame e he hdup
  refine hflawless event ?_ hblamed.failed
  rw [htrace]
  exact List.mem_append_left _ hevent

/-- The transaction of a delivery: the record and subscriptions, a program that
leaves the transaction alone, and the record of the charge.  They are committed
on top of what the program in the middle has made of the database. -/
theorem wp_recordFirst_alone {β δ : Type} {id type transactionId amountCents : Js} {source : String}
    {gateway : PaymentGateway} {p : Action δ} {m : Action β} {q : β → Action Unit}
    {Y : β → Effect locking Unit} {M : Except Err β → List (Event Stmt Err) → Data → Prop}
    {c : LocalState} {db : Data}
    (hp : ∀ K past, (soloProtocol.knowing K).Does past p (subscriptionWrites δ))
    (honly : Only anyStmt m 0)
    (hm : ∀ c₁, soloProtocol.wp m (fun r c' db' =>
      (∀ b, r = .ok b → c'.stack = c₁.stack) ∧ M r c'.trace db') c₁ db)
    (hq : ∀ K b past, (soloProtocol.knowing K).Does past (q b) (Y b))
    (hY : ∀ b, RecordsCharge gateway transactionId amountCents (Y b)) :
    soloProtocol.wp (transaction (query (.processedWebhookCreate id source type) >>= fun _ =>
        p >>= fun _ => m >>= q))
      (fun r c' db' => ∀ g, r = .ok g → ∃ b past db₁, (∃ events, c'.trace = events ++ past) ∧
        M (.ok b) past db₁ ∧ schema.Valid db₁ ∧ Handled id db₁ db' ∧
        Charged gateway transactionId amountCents db₁ db') c db := by
  have hbody : (query (.processedWebhookCreate id source type) >>= fun _ => p >>= fun _ => m >>= q) =
      (query (.processedWebhookCreate id source type) >>= fun _ => p) >>= fun _ => m >>= q := by
    rw [Prog.bind_assoc]
  rw [hbody]
  refine Protocol.wp_mono _ (fun r c' db' hr g hg => ?_) (Protocol.wp_transaction_alone
    (X := (eventRecordEffect id source).bind fun _ => subscriptionWrites δ)
    (Y := fun _ => Y) (M := fun _ => M)
    (fun K => Protocol.does_bind (does_eventRecord _ id source type) fun _ => hp K _)
    (fun _ => honly) (fun _ => hm) fun K _ b past => hq K b past)
  obtain ⟨a, b, past, db₁, ws₁, ws₂, hpast, hmid, hv, hfits, hx, hy, rfl⟩ := hr g hg
  obtain ⟨row, ws, ws', rfl, ⟨rfl, rfl, -⟩, hx⟩ := hx
  obtain ⟨htables, hcharged⟩ := hY b _ _ _ hy
  refine ⟨b, past, db₁, hpast, hmid, hv, ?_, ?_⟩
  · refine handled_of_writes fun w hw => ?_
    cases List.mem_append.mp hw with
    | inl hw => exact subscriptionTables_other _ (hx w hw)
    | inr hw => exact htables w hw
  · rw [postgres.applyAll_append]
    intro txn htxn hnone
    refine hcharged txn htxn fun hhas => hnone ?_
    have hsame : postgres.applyAll ([.insert .processedWebhooks row] ++ ws') db₁ .chargeRecords =
        db₁ .chargeRecords := applyAll_other fun w hw => by
      cases hw with
      | head => exact (by decide : Table.processedWebhooks ≠ .chargeRecords)
      | tail _ hw =>
          intro he
          have hin : w.table ∈ [.subscriptions, .gatewaySubscriptions] := hx w hw
          rw [he] at hin
          revert hin
          decide
    rw [HasCharge, hsame] at hhas
    exact hhas

theorem not_hasRecord {id : Js} {i : String} {db : Data} (hid : id = .str i)
    (hnone : schema.find .processedWebhooks i db = none) : ¬HasRecord id db := by
  rintro ⟨i', row, hi', hrow⟩
  obtain rfl := Js.str.inj (hid.symm.trans hi')
  rw [hnone] at hrow
  cases hrow

namespace AuthorizeNetWebhookController

/-- An event that is handled alone and without a failure: it was recorded and
changes nothing, or it was not and its transaction tells what it does. -/
theorem wp_handleWebhook_alone {config : AuthorizeNetConfig} {req : AuthorizeNetRequest} {db : Data}
    {R : List (Event Stmt Err) → Data → Prop}
    (happly : ∀ trace, soloProtocol.wp (recordAndApply req.body)
      (fun r c' db' => r = .ok () → Flawless c'.trace → R c'.trace db') ⟨[], trace⟩ db) :
    soloProtocol.wp (handleWebhook config req) (fun r c' db' => Flawless c'.trace →
      (r = .ok { skipped := true } → HasRecord req.body.eventId db ∧ db' = db) ∧
      (r = .ok {} → ¬HasRecord req.body.eventId db ∧ R c'.trace db')) {} db := by
  refine wp_handleWebhook _ (fun _ _ _ _ => ⟨nofun, nofun⟩) (fun id row c' db' hs hid hrow _ => ?_)
    fun id db₁ hs hid hnone => ?_
  · obtain rfl : db' = db := hs.env
    exact ⟨fun _ => ⟨⟨id, row, hid, hrow⟩, rfl⟩, nofun⟩
  · obtain rfl : db₁ = db := hs.env
    have honly : Only anyStmt (recordAndApply req.body) 0 :=
      only_transaction (only_bind (only_exec trivial) fun _ => anyStmt_of_only (applyEvent_only _ _))
    have hpass : PassesOn (recordAndApply req.body) :=
      passes_transaction (passes_bind (passes_exec _) fun _ => applyEvent_passes _ _)
    refine Protocol.wp_mono _ (fun r c' db' hr => ?_) (wp_flawless honly hpass (happly _))
    cases r with
    | ok a => exact fun hflawless => ⟨nofun, fun _ => ⟨not_hasRecord hid hnone, hr.1 rfl hflawless⟩⟩
    | error e => exact fun hdup hflawless => (hr.2 e rfl hdup hflawless).elim

/-- The key of the credits that a purchase grants. -/
def purchaseCreditKey (transactionId : String) : String := "authorize_net_charge_" ++ transactionId

/-- The amount that is recorded for a charge. -/
def chargeCents (data : AuthorizeNetData) : Js :=
  (data.amountCents.coalesce data.amount).coalesce (.int 0)

/-- What the record of a charge adds. -/
def recordChargeEffect (data : AuthorizeNetData) : Effect locking Unit :=
  if data.transactionId.truthy && data.userId.truthy then
    chargeEffect Unit .AUTHORIZE_NET data.transactionId (chargeCents data)
  else .pure locking ()

theorem does_recordCharge {I : Data → Prop} {P : Protocol locking I} {past : List (Event Stmt Err)}
    (data : AuthorizeNetData) (plan : Js) :
    P.Does past (recordCharge data plan) (recordChargeEffect data) := by
  unfold recordCharge recordChargeEffect
  split
  · exact Protocol.does_map (does_chargeRecordUpsert _) fun _ _ _ h => h
  · exact Protocol.does_pure ()

theorem recordsCharge_recordChargeEffect (data : AuthorizeNetData) :
    RecordsCharge .AUTHORIZE_NET data.transactionId (chargeCents data) (recordChargeEffect data) := by
  unfold recordChargeEffect
  split
  · exact recordsCharge_effect _ _ _
  · exact recordsCharge_pure _ _ _

section Events

variable {config : AuthorizeNetConfig} {req : AuthorizeNetRequest} {data : AuthorizeNetData}
  {db : Data} {user : String} {n : Int}

/-- A purchase of credits. -/
theorem wp_purchase_alone (htype : req.body.type = .str "charge.approved")
    (hdata : req.body.data = some data) (huser : data.userId = .str user)
    (hpurchase : isCreditPurchase data = true) (hcredits : creditAmount data.contextRef = some n) :
    soloProtocol.wp (handleWebhook config req) (fun r c' db' => Flawless c'.trace →
      (r = .ok { skipped := true } → HasRecord req.body.eventId db ∧ db' = db) ∧
      (r = .ok {} → ¬HasRecord req.body.eventId db ∧
        ChargeHandled user (some (purchaseCreditKey data.transactionId.text, n)) req.body.eventId
          .AUTHORIZE_NET data.transactionId (chargeCents data) db db')) {} db := by
  have happly : applyEvent req.body.type req.body.data = (pure () >>= fun _ =>
      CreditsService.addCredits data.userId (.int n) .PURCHASE "Credit purchase via Authorize.net"
        (purchaseCreditKey data.transactionId.text)
        [("authorizeNetTransactionId", data.transactionId)] >>= fun _ => recordCharge data .undefined) := by
    have happroved : applyEvent req.body.type req.body.data = chargeApproved data := by
      rw [htype, hdata]
      rfl
    rw [happroved, chargeApproved, if_pos hpurchase, hcredits]
    rfl
  refine wp_handleWebhook_alone (R := fun _ db' => ChargeHandled _ _ _ _ _ _ db db') fun trace => ?_
  rw [recordAndApply, happly, huser]
  refine Protocol.wp_mono _ (fun r c' db' hr hok hflawless => ?_) (wp_recordFirst_alone
    (Y := fun _ => recordChargeEffect data)
    (M := fun r past db₁ => Flawless past → CreditsService.Granted (.str user) (.int n)
      (purchaseCreditKey data.transactionId.text) db db₁ ∧ ∀ a, r = .ok a → (Js.int n).le (.int 0) = false)
    (fun K past => does_pure_subscription ()) (anyStmt_of_only (CreditsService.grantCredits_only ..))
    (fun c₁ => Protocol.wp_mono _ (fun _ _ _ hr => ⟨fun _ _ => hr.1, hr.2⟩)
      CreditsService.wp_grantCredits_positive)
    (fun K b past => does_recordCharge data _) fun _ => recordsCharge_recordChargeEffect data)
  obtain ⟨b, past, db₁, hpast, hmid, hv, hhandled, hcharged⟩ := hr () hok
  obtain ⟨hgranted, hpos⟩ := hmid (hflawless.of_grows hpast)
  have hmoved := MovedOnce.of_granted hgranted (hpos b rfl)
  rw [Js.whole_int] at hmoved
  exact ⟨db₁, hmoved, hv, hhandled, hcharged⟩

/-- A subscription is activated, and then its charge is recorded. -/
theorem subscriptionActivated_parts (data : AuthorizeNetData) :
    ∃ (δ : Type) (p : Action δ) (plan : Js), subscriptionActivated data =
        (p >>= fun _ => pure () >>= fun _ => recordCharge data plan) ∧
      ∀ K past, (soloProtocol.knowing K).Does past p (subscriptionWrites δ) := by
  unfold subscriptionActivated
  split
  · next e _ => exact ⟨Unit, throw e, .undefined, rfl, fun _ _ => Protocol.does_throw e⟩
  · exact ⟨_, _, _, rfl, fun _ _ => does_createOrUpdateFromGateway _⟩

/-- An event of a subscription. -/
theorem wp_subscription_alone (user : String)
    (htype : req.body.type = .str "subscription.created" ∨ req.body.type = .str "subscription.renewed")
    (hdata : req.body.data = some data) :
    soloProtocol.wp (handleWebhook config req) (fun r c' db' => Flawless c'.trace →
      (r = .ok { skipped := true } → HasRecord req.body.eventId db ∧ db' = db) ∧
      (r = .ok {} → ¬HasRecord req.body.eventId db ∧ ChargeHandled user none req.body.eventId
        .AUTHORIZE_NET data.transactionId (chargeCents data) db db')) {} db := by
  have happly : applyEvent req.body.type req.body.data = subscriptionActivated data := by
    rw [hdata]
    cases htype with
    | inl h =>
        rw [h]
        rfl
    | inr h =>
        rw [h]
        rfl
  obtain ⟨δ, p, plan, hparts, hp⟩ := subscriptionActivated_parts data
  refine wp_handleWebhook_alone (R := fun _ db' => ChargeHandled _ _ _ _ _ _ db db') fun trace => ?_
  rw [recordAndApply, happly, hparts]
  refine Protocol.wp_mono _ (fun r c' db' hr hok _ => ?_) (wp_recordFirst_alone
    (Y := fun _ => recordChargeEffect data) (M := fun _ _ db₁ => db₁ = db) hp (only_pure _)
    (fun c₁ => ⟨fun _ _ => rfl, rfl⟩) (fun K b past => does_recordCharge data _)
    fun _ => recordsCharge_recordChargeEffect data)
  obtain ⟨b, past, db₁, hpast, hmid, hv, hhandled, hcharged⟩ := hr () hok
  exact ⟨db₁, hmid, hv, hhandled, hcharged⟩

end Events

end AuthorizeNetWebhookController

namespace SolanaConfirmationController

/-- A confirmation that is settled alone and without a failure. -/
theorem wp_handleConfirmation_alone {setting : Option String} {event : SolanaEvent}
    {data : SolanaData} {db : Data} {R : List (Event Stmt Err) → Data → Prop}
    (hdata : event.data = some data)
    (happly : ∀ trace, soloProtocol.wp (recordAndApply data)
      (fun r c' db' => r = .ok () → Flawless c'.trace → R c'.trace db') ⟨[], trace⟩ db) :
    soloProtocol.wp (handleConfirmation setting event) (fun r c' db' => Flawless c'.trace →
      (r = .ok { settled := true, skipped := true } → HasRecord data.txHash db ∧ db' = db) ∧
      (r = .ok { settled := true } → ¬HasRecord data.txHash db ∧ R c'.trace db')) {} db := by
  have hsome : ∀ {d}, event.data = some d → d = data := fun hd =>
    Option.some.inj (hd.symm.trans hdata)
  refine wp_handleConfirmation _ (fun _ _ _ _ => ⟨nofun, nofun⟩) (fun _ _ => ⟨nofun, nofun⟩)
    (fun d id row c' db' hs hd hid hrow _ => ?_) fun d id db₁ hd hs hid hnone => ?_
  · obtain rfl := hsome hd
    obtain rfl : db' = db := hs.env
    exact ⟨fun _ => ⟨⟨id, row, hid, hrow⟩, rfl⟩, nofun⟩
  · obtain rfl := hsome hd
    obtain rfl : db₁ = db := hs.env
    have honly : Only anyStmt (recordAndApply d) 0 :=
      only_transaction (only_bind (only_exec trivial) fun _ =>
        anyStmt_of_only (applyConfirmation_only _))
    have hpass : PassesOn (recordAndApply d) :=
      passes_transaction (passes_bind (passes_exec _) fun _ => applyConfirmation_passes _)
    refine Protocol.wp_mono _ (fun r c' db' hr => ?_) (wp_flawless honly hpass (happly _))
    cases r with
    | ok a => exact fun hflawless => ⟨nofun, fun _ => ⟨not_hasRecord hid hnone, hr.1 rfl hflawless⟩⟩
    | error e => exact fun hdup hflawless => (hr.2 e rfl hdup hflawless).elim

theorem does_activateFirst {I : Data → Prop} {P : Protocol locking I} {past : List (Event Stmt Err)}
    (data : SolanaData) : P.Does past (activateFirst data) (subscriptionWrites Unit) := by
  unfold activateFirst
  split
  · exact Protocol.does_map (does_createOrUpdateFromGateway _) fun _ _ _ h => h
  · exact does_pure_subscription ()

/-- A transaction that is settled. -/
theorem wp_settled_alone {setting : Option String} {event : SolanaEvent} {data : SolanaData}
    {db : Data} {user : String} (hdata : event.data = some data) (huser : data.userId = .str user) :
    soloProtocol.wp (handleConfirmation setting event) (fun r c' db' => Flawless c'.trace →
      (r = .ok { settled := true, skipped := true } → HasRecord data.txHash db ∧ db' = db) ∧
      (r = .ok { settled := true } → ¬HasRecord data.txHash db ∧
        ChargeHandled user (some (chargeKey data.txHash, data.amount.whole)) data.txHash .SOLANA
          data.txHash data.amount db db')) {} db := by
  refine wp_handleConfirmation_alone (R := fun _ db' => ChargeHandled _ _ _ _ _ _ db db') hdata
    fun trace => ?_
  rw [recordAndApply, applyConfirmation_first, creditPayment, huser]
  refine Protocol.wp_mono _ (fun r c' db' hr hok hflawless => ?_) (wp_recordFirst_alone
    (Y := fun _ => chargeEffect Unit .SOLANA data.txHash data.amount)
    (M := fun r past db₁ => Flawless past → CreditsService.Granted (.str user) data.amount
      (chargeKey data.txHash) db db₁ ∧ ∀ a, r = .ok a → data.amount.le (.int 0) = false)
    (fun _ _ => does_activateFirst data) (anyStmt_of_only (CreditsService.grantCredits_only ..))
    (fun c₁ => Protocol.wp_mono _ (fun _ _ _ hr => ⟨fun _ _ => hr.1, hr.2⟩)
      CreditsService.wp_grantCredits_positive)
    (fun K b past => Protocol.does_map (does_chargeRecordUpsert _) fun _ _ _ h => h)
    fun _ => recordsCharge_effect _ _ _)
  obtain ⟨b, past, db₁, hpast, hmid, hv, hhandled, hcharged⟩ := hr () hok
  obtain ⟨hgranted, hpos⟩ := hmid (hflawless.of_grows hpast)
  exact ⟨db₁, MovedOnce.of_granted hgranted (hpos b rfl), hv, hhandled, hcharged⟩

end SolanaConfirmationController

end PaymentBilling
