import PaymentBilling.Spec.CreditBooks
import PaymentBilling.Spec.Writes
import PaymentBilling.Transact.Once

/-!
# Spec.Deliveries

Deliveries of webhooks: the record of an event comes first.

Both controllers look the record up, and then insert it in the same
transaction as the side effects.  Whoever has inserted it keeps the other
deliveries of the event out, and so runs as if it were alone.
-/

namespace PaymentBilling

open Relational Transact

/-- The statement inserts the record of the event `id`. -/
def RecordsEvent (id : Js) : (β : Type) → Stmt β → Prop
  | _, .processedWebhookCreate x _ _ => x = id
  | _, _ => False

/-- The record of the event `id`. -/
def webhookRecord (id : Js) : Record locking where
  done db := ∃ i row, id = .str i ∧ schema.find .processedWebhooks i db = some row
  lock := .row .processedWebhooks (id.string?.getD "")
  write w := ∃ row : ProcessedWebhook, id = .str row.id ∧ w = .insert .processedWebhooks row
  inserts := RecordsEvent id
  done_le := by
    rintro db db' hle ⟨i, row, rfl, hrow⟩
    obtain ⟨row', hrow', -⟩ := hle _ _ _ hrow
    exact ⟨i, row', rfl, hrow'⟩
  done_apply := by
    rintro w db ⟨row, rfl, rfl⟩
    show ∃ i r, _ ∧ schema.find .processedWebhooks i
      (schema.apply (.insert .processedWebhooks row) db) = some r
    refine ⟨row.id, (schema.find .processedWebhooks row.id db).getD row, rfl, ?_⟩
    rw [Schema.find_insert]
    cases schema.find .processedWebhooks row.id db <;> simp [schema]
  fresh := by
    rintro w db ⟨row, rfl, rfl⟩ hfits ⟨i, row', hi, hrow'⟩
    obtain rfl : row.id = i := by simpa using hi
    have hnone : schema.find .processedWebhooks row.id db = none :=
      (Schema.accepts_insert.mp hfits).2.1
    rw [hnone] at hrow'
    cases hrow'
  locked := by
    rintro w ⟨row, rfl, rfl⟩
    exact .head _
  written := by
    intro β s env db b ws hs hx
    cases s with
    | processedWebhookCreate x source type =>
        obtain rfl : x = id := hs
        obtain ⟨i, type', rfl, -, rfl, hb⟩ := exec_processedWebhookCreate hx
        exact ⟨_, .head _, b, by rw [hb], rfl⟩
    | _ => exact hs.elim

/-- The event has a record. -/
def HasRecord (id : Js) (db : Data) : Prop :=
  ∃ i row, id = .str i ∧ schema.find .processedWebhooks i db = some row

theorem HasRecord.mono {id : Js} {db db' : Data} (h : HasRecord id db) (hle : locking.le db db') :
    HasRecord id db' := (webhookRecord id).done_le hle h

/-- A lookup writes nothing. -/
theorem reads_of_writes {β : Type} {s : Stmt β} (h : s.writes = none) (env : Env) (db : Data) (b : β)
    (ws : List RowWrite) (hx : postgres.exec s env db = .ok (b, ws)) : ws = [] :=
  List.eq_nil_iff_forall_not_mem.mpr fun w hw => by
    have htable := table_of_exec hx w hw
    rw [h] at htable
    cases htable

/-! ## The log of the credits, while nobody else is at work -/

/-- The write is not one of the credit log. -/
def OffLog (w : RowWrite) : Prop := w.table ≠ .creditTransactions

section Solo

variable {key : String} {c : LocalState} {db : Data}

/-- A client that runs alone while `key` is logged once at most. -/
abbrev soloLog (key : String) : Protocol locking (LoggedOnce key) := .solo locking (LoggedOnce key)

theorem loggedOnce_of_same {db' : Data} (h : db' .creditTransactions = db .creditTransactions)
    (honce : LoggedOnce key db) : LoggedOnce key db' := by
  rw [LoggedOnce, h]
  exact honce

theorem wp_grantCredits_solo {userId amount : Js} {type : CreditTransactionType}
    {description k : String} {metadata : Metadata} :
    (soloLog key).wp (CreditsService.grantCredits userId amount type description k metadata)
      (fun r c' db' => c'.stack = c.stack ∧ ∀ a, r = .ok a → CreditsService.Logged k db') c db := by
  refine CreditsService.wp_grantCredits _ (K := fun _ => True)
    (N := CreditsService.Unlogged k) (fun _ _ _ _ _ _ => trivial) trivial (fun _ _ h => h)
    (fun _ db₁ db₂ _ hs hu => ?_) (fun _ _ _ hc _ _ => ⟨hc, nofun⟩)
    (fun _ _ _ hc _ h => ⟨hc, fun _ _ => h⟩) ?_
  · have hsame : db₂ = db₁ := hs.env
    rw [hsame]
    exact hu
  · intro r t c' db₁ user n _ _ _ hstack _ hs _ hu hchange
    have hfits := hs.fits hstack
    refine ⟨⟨hchange.loggedOnce hfits (fun k' hk => ?_) hs.inv, trivial⟩, rfl, fun _ _ => ?_⟩
    · obtain rfl := Option.some.inj hk
      exact hu
    · exact hchange.logged_self hfits

theorem wp_deductCredits_solo {userId amount : Js} {description : String} {k : Option String}
    {metadata : Metadata} :
    (soloLog key).wp (CreditsService.deductCredits userId amount description k metadata)
      (fun _ c' _ => c'.stack = c.stack) c db := by
  refine CreditsService.wp_deductCredits _ (K := fun _ => True)
    (N := fun db => ∀ k', CreditsService.givenKey k = some k' → CreditsService.Unlogged k' db)
    (fun _ _ _ _ _ _ => trivial) trivial (fun k' hk _ _ hu k'' hk' => ?_)
    (fun _ _ _ db₁ db₂ _ hs hu => ?_) (fun _ _ _ hc _ _ => hc) (fun _ _ _ _ _ hc _ _ => hc) ?_
  · obtain rfl := Option.some.inj (hk.symm.trans hk')
    exact hu
  · have hsame : db₂ = db₁ := hs.env
    rw [hsame]
    exact hu
  · intro r t c' db₁ user n _ _ _ hstack hk hs _ hchange
    refine ⟨⟨hchange.loggedOnce (hs.fits hstack) (fun k' hk' => (hk k' hk').2 k' hk') hs.inv,
      trivial⟩, rfl⟩

/-- Alone, `p` keeps the log in order and adds nothing to the log in the
transaction that it runs in. -/
def KeepsLog {α : Type} (key : String) (p : Action α) : Prop :=
  ∀ c db, (soloLog key).wp p (fun _ c' _ => Grows OffLog c.stack c'.stack) c db

variable {α β : Type}

theorem keepsLog_pure (a : α) : KeepsLog key (pure a) := fun _ _ => .refl _ _

theorem keepsLog_throw (e : Err) : KeepsLog key (throw e : Action α) := fun _ _ => .refl _ _

theorem keepsLog_bind {p : Action α} {f : α → Action β} (hp : KeepsLog key p)
    (hf : ∀ a, KeepsLog key (f a)) : KeepsLog key (p >>= f) := by
  intro c db
  rw [Protocol.wp_bind]
  refine Protocol.wp_mono _ (fun r c₁ db₁ h₁ => ?_) (hp c db)
  cases r with
  | ok a => exact Protocol.wp_mono _ (fun _ _ _ h₂ => h₁.trans h₂) (hf a c₁ db₁)
  | error e => exact h₁

theorem keepsLog_tryCatch {p : Action α} {h : Err → Action α} (hp : KeepsLog key p)
    (hh : ∀ e, KeepsLog key (h e)) : KeepsLog key (tryCatch p h) := by
  intro c db
  rw [Protocol.wp_tryCatch]
  refine Protocol.wp_mono _ (fun r c₁ db₁ h₁ => ?_) (hp c db)
  cases r with
  | ok a => exact h₁
  | error e => exact Protocol.wp_mono _ (fun _ _ _ h₂ => h₁.trans h₂) (hh e c₁ db₁)

/-- What writes other tables only. -/
theorem keepsLog_of_only {key : String} {T : List Table} {p : Action α} (hT : .creditTransactions ∉ T)
    (hp : Only (WritesIn T) p 0) : KeepsLog key p := by
  intro c db
  refine Protocol.wp_mono _ (fun _ _ _ h => h.1) (Protocol.wp_only _ (W := OffLog)
    (fun β s hs env db b ws hx w hw => ?_) (fun c' db ws _ hw _ hi _ => ?_) hp)
  · exact fun he => hT (he ▸ table_mem_of_writesIn β s hs env db b ws hx w hw)
  · exact ⟨loggedOnce_of_same (applyAll_other hw) hi, trivial⟩

theorem keepsLog_grant {userId amount : Js} {type : CreditTransactionType} {description k : String}
    {metadata : Metadata} :
    KeepsLog key (CreditsService.grantCredits userId amount type description k metadata) := by
  intro c db
  refine Protocol.wp_mono _ (fun r c' db' h => ?_) wp_grantCredits_solo
  rw [h.1]
  exact .refl _ _

theorem keepsLog_deduct {userId amount : Js} {description : String} {k : Option String}
    {metadata : Metadata} :
    KeepsLog key (CreditsService.deductCredits userId amount description k metadata) := by
  intro c db
  refine Protocol.wp_mono _ (fun r c' db' h => ?_) wp_deductCredits_solo
  rw [h]
  exact .refl _ _

end Solo

/-! ## The transaction of a delivery -/

/-- A client has committed its outermost transaction just now. -/
def JustCommitted (c : LocalState) : Prop :=
  c.stack = [] ∧ ∃ trace, c.trace = .commit (.ok ()) :: trace

/-- The transaction of a delivery: once the record is inserted, the side effects
run as if they were alone. -/
theorem wp_recordFirst {α : Type} {key : String} {id type : Js} {source : String} {rest : Action α}
    {G : Data → Prop} {trace : List (Event Stmt Err)} {db : Data} (honly : Only anyStmt rest 0)
    (hrest : ∀ c db, c.stack ≠ [] → (soloLog key).wp rest
      (fun r c' db' => Grows OffLog c.stack c'.stack ∧ ∀ a, r = .ok a → G db') c db)
    (hG : ∀ db db', locking.valid db → locking.le db db' → G db → G db') :
    ((webhookRecord id).protocol (LoggedOnce key)).wp
      (transaction (query (.processedWebhookCreate id source type) >>= fun _ => rest))
      (fun r c' db' => ∀ a, r = .ok a → JustCommitted c' ∧ G db') ⟨[], trace⟩ db := by
  refine Protocol.wp_transaction _ fun db₁ hs₁ => ?_
  rw [Protocol.wp_bind]
  refine Protocol.wp_exec_tx _ (fun e _ _ _ _ => nofun) fun env row ws db₂ hs₂ hx => ?_
  obtain ⟨i, type', rfl, -, rfl, hrow⟩ := exec_processedWebhookCreate hx
  have hlock : (webhookRecord (.str i)).lock ∈
      postgres.needs (.processedWebhookCreate (.str i) source type) (postgres.view {} db₂)
        [.insert .processedWebhooks row] := by
    refine List.mem_append_right _ (List.mem_flatMap.mpr ⟨_, .head _, ?_⟩)
    rw [hrow]
    exact .head _
  refine Protocol.wp_mono _ (fun r c' db₃ hr => ?_) (Record.wp_of_solo honly
    (List.mem_append_left _ (List.mem_append_right _ hlock)) (hrest _ _ (List.cons_ne_nil _ _)))
  obtain ⟨⟨ws', held, hc', hoff⟩, hok⟩ := hr
  cases r with
  | error e => exact fun _ _ => nofun
  | ok a =>
      refine ⟨_, _, hc', fun db₄ hs₄ => ?_⟩
      -- nobody else has changed anything
      have hheld : (webhookRecord (.str i)).lock ∈ heldBy c'.stack := by
        rw [hc']
        exact List.mem_append_left _ (List.mem_append_left _ (List.mem_append_right _ hlock))
      obtain rfl := hs₄.env hheld
      have hkeep : LoggedOnce key (postgres.view ⟨([] ++ [.insert .processedWebhooks row]) ++ ws',
          ([] ++ postgres.needs (.processedWebhookCreate (.str i) source type)
            (postgres.view {} db₂) [.insert .processedWebhooks row]) ++ held⟩ db₄) := by
        refine loggedOnce_of_same (applyAll_other fun w hw => ?_) hs₄.inv
        rcases List.mem_append.mp hw with hw | hw
        · rw [List.mem_singleton.mp hw]
          exact (by decide : Table.processedWebhooks ≠ .creditTransactions)
        · exact hoff w hw
      refine ⟨⟨hkeep, .inr hheld⟩, fun _ _ => ⟨⟨rfl, _, rfl⟩, ?_⟩, fun _ => nofun⟩
      exact hG _ _ hs₄.valid (locking.le_applyAll _ _) (hok a rfl)

namespace AuthorizeNetWebhookController

theorem keepsLog_chargeApproved {key : String} (data : AuthorizeNetData) :
    KeepsLog key (chargeApproved data) := by
  have hrecord : KeepsLog key (recordCharge data .undefined) :=
    keepsLog_of_only (by decide) (recordCharge_only _ _)
  unfold chargeApproved
  split
  · split
    · exact keepsLog_pure _
    · exact keepsLog_bind keepsLog_grant fun _ => hrecord
  · exact hrecord

theorem keepsLog_chargeRefunded {key : String} (data : AuthorizeNetData) :
    KeepsLog key (chargeRefunded data) := by
  unfold chargeRefunded
  split
  · split
    · exact keepsLog_pure _
    · exact keepsLog_tryCatch (keepsLog_bind keepsLog_deduct fun _ => keepsLog_pure _)
        fun _ => keepsLog_pure _
  · exact keepsLog_pure _

theorem keepsLog_chargebackReceived {key : String} (data : AuthorizeNetData) :
    KeepsLog key (chargebackReceived data) := by
  refine keepsLog_bind (keepsLog_of_only (by decide) (DisputesService.createDispute_only _))
    fun dispute => ?_
  split
  · exact keepsLog_pure _
  · refine keepsLog_bind (keepsLog_of_only (by decide) (reverseCharge_only _ _)) fun _ => ?_
    exact keepsLog_tryCatch (keepsLog_bind keepsLog_deduct fun _ => keepsLog_pure _)
      fun _ => keepsLog_pure _

/-- The side effects of an event log a key once at most. -/
theorem keepsLog_applyEvent {key : String} (type : Js) (data : Option AuthorizeNetData) :
    KeepsLog key (applyEvent type data) := by
  have hcancel : ∀ userId, KeepsLog key (do
      let _ ← SubscriptionsService.cancelImmediately userId
      return ()) := fun userId =>
    keepsLog_bind (keepsLog_of_only (by decide) (SubscriptionsService.cancelImmediately_only _))
      fun _ => keepsLog_pure _
  have hactivated : ∀ data, KeepsLog key (subscriptionActivated data) := fun data =>
    keepsLog_of_only (by decide) (subscriptionActivated_only data)
  unfold applyEvent
  split
  · exact keepsLog_pure _
  · split
    · exact keepsLog_throw _
    · split
      · exact hactivated _
      · exact hactivated _
      · exact hcancel _
      · exact keepsLog_chargeApproved _
      · exact keepsLog_chargeRefunded _
      · exact hcancel _
      · exact keepsLog_chargebackReceived _
      · exact keepsLog_pure _

/-- A delivery inserts the record first. -/
theorem first_handleWebhook (config : AuthorizeNetConfig) (req : AuthorizeNetRequest) :
    (webhookRecord req.body.eventId).First (handleWebhook config req) := by
  unfold handleWebhook
  split
  · trivial
  split
  · trivial
  refine Record.first_exec_bind (reads_of_writes rfl) fun found => ?_
  cases found with
  | some _ => trivial
  | none =>
      refine Record.First.andThen (Record.First.andThen (Record.first_transaction rfl fun _ =>
        anyStmt_of_only (applyEvent_only _ _)) fun r => ?_) fun r => ?_
      · cases r <;> rfl
      · cases r with
        | ok _ => rfl
        | error err =>
            simp only
            split <;> rfl

/-- A delivery that is answered without `skipped` has committed. -/
theorem wp_handleWebhook_log (key : String) (config : AuthorizeNetConfig) (req : AuthorizeNetRequest)
    (db : Data) :
    ((webhookRecord req.body.eventId).protocol (LoggedOnce key)).wp (handleWebhook config req)
      (fun r c' _ => r = .ok {} → JustCommitted c') {} db := by
  unfold handleWebhook
  split
  · intro h
    cases h
  split
  · intro h
    cases h
  rw [Protocol.wp_bind]
  refine Protocol.wp_exec_auto _ (fun _ _ _ h => by cases h) fun env found ws db₁ hs₁ hx => ?_
  obtain rfl := reads_of_writes rfl env db₁ _ _ hx
  refine ⟨Protocol.keeps_refl _ hs₁.inv, ?_⟩
  cases found with
  | some _ =>
      intro h
      cases h
  | none =>
      simp only [Protocol.bindPost_ok]
      rw [Protocol.wp_tryCatch, Protocol.wp_bind]
      refine Protocol.wp_mono _ (fun r c' db' hr => ?_)
        (wp_recordFirst (G := fun _ => True) (anyStmt_of_only (applyEvent_only _ _)) (fun c db _ => ?_)
          fun _ _ _ _ _ => trivial)
      · cases r with
        | ok a => exact fun _ => (hr a rfl).1
        | error err =>
            simp only [Protocol.bindPost_error]
            split
            · intro h
              cases h
            · intro h
              cases h
      · exact Protocol.wp_mono _ (fun _ _ _ h => ⟨h, fun _ _ => trivial⟩) (keepsLog_applyEvent _ _ c db)

end AuthorizeNetWebhookController

namespace SolanaConfirmationController

/-- The key of the credits that a transaction pays for. -/
def chargeKey (txHash : Js) : String := "solana_charge_" ++ txHash.text

/-- The side effects log the key of the transaction, and end only when it is
logged. -/
theorem wp_creditPayment_solo {data : SolanaData} {c : LocalState} {db : Data} (hc : c.stack ≠ []) :
    (soloLog (chargeKey data.txHash)).wp (creditPayment data)
      (fun r c' db' => Grows OffLog c.stack c'.stack ∧
        ∀ a, r = .ok a → CreditsService.Logged (chargeKey data.txHash) db') c db := by
  unfold creditPayment
  rw [Protocol.wp_bind]
  refine Protocol.wp_mono _ (fun r c₁ db₁ hr => ?_) wp_grantCredits_solo
  obtain ⟨hc₁, hlogged⟩ := hr
  cases r with
  | error e =>
      refine ⟨?_, nofun⟩
      rw [hc₁]
      exact .refl _ _
  | ok a =>
      obtain ⟨t, ts, hstack⟩ := List.exists_cons_of_ne_nil (hc₁ ▸ hc)
      obtain ⟨stack, trace⟩ := c₁
      obtain rfl : stack = t :: ts := hstack
      have hgrow : KeepsLog (chargeKey data.txHash) (query (.chargeRecordUpsert
          { userId := data.userId, gatewayType := .SOLANA, gatewayTransactionId := data.txHash
            amountCents := data.amount, plan := data.plan })) :=
        keepsLog_of_only (T := [.chargeRecords]) (by decide) (writesIn_query (by simp [WritesIn, Stmt.writes]))
      rw [Protocol.bindPost_ok, Protocol.wp_bind]
      -- a statement in a transaction commits nothing
      have hsame : (soloLog (chargeKey data.txHash)).wp (query (.chargeRecordUpsert
          { userId := data.userId, gatewayType := .SOLANA, gatewayTransactionId := data.txHash
            amountCents := data.amount, plan := data.plan })) (fun _ _ db' => db' = db₁)
          ⟨t :: ts, trace⟩ db₁ :=
        Protocol.wp_exec_tx _ (fun _ _ hs => hs.env) fun _ _ _ _ hs _ => hs.env
      refine Protocol.wp_mono _ (fun r c₂ db₂ hr => ?_) (Protocol.wp_and _ (hgrow _ _) hsame)
      rw [hc₁] at hr
      cases r with
      | ok _ => exact ⟨hr.1, fun _ _ => hr.2 ▸ hlogged a rfl⟩
      | error e => exact ⟨hr.1, nofun⟩

theorem wp_applyConfirmation_solo {data : SolanaData} {c : LocalState} {db : Data}
    (hc : c.stack ≠ []) :
    (soloLog (chargeKey data.txHash)).wp (applyConfirmation data)
      (fun r c' db' => Grows OffLog c.stack c'.stack ∧
        ∀ a, r = .ok a → CreditsService.Logged (chargeKey data.txHash) db') c db := by
  rw [applyConfirmation_eq]
  split
  · rw [Protocol.wp_bind]
    refine Protocol.wp_mono _ (fun r c₁ db₁ h₁ => ?_) (keepsLog_of_only (by decide)
      (SubscriptionsService.createOrUpdateFromGateway_only _) c db)
    cases r with
    | error e => exact ⟨h₁, fun _ h => by cases h⟩
    | ok _ =>
        have hc₁ : c₁.stack ≠ [] := h₁.ne_nil hc
        exact Protocol.wp_mono _ (fun _ _ _ h₂ => ⟨h₁.trans h₂.1, h₂.2⟩) (wp_creditPayment_solo hc₁)
  · exact wp_creditPayment_solo hc

/-- A confirmation inserts the record first. -/
theorem first_handleConfirmation (setting : Option String) (event : SolanaEvent)
    (data : SolanaData) (hdata : event.data = some data) :
    (webhookRecord data.txHash).First (handleConfirmation setting event) := by
  unfold handleConfirmation
  rw [hdata]
  simp only
  split
  · trivial
  split
  · unfold waiting
    split <;> trivial
  · refine Record.first_exec_bind (reads_of_writes rfl) fun found => ?_
    cases found with
    | some _ => trivial
    | none =>
        refine Record.First.andThen (Record.First.andThen (Record.first_transaction rfl fun _ =>
          anyStmt_of_only (applyConfirmation_only _)) fun r => ?_) fun r => ?_
        · cases r <;> rfl
        · cases r with
          | ok _ => rfl
          | error err =>
              simp only
              split <;> rfl

/-- A confirmation that is answered as settled, without `skipped`, has committed
and its key is logged. -/
theorem wp_handleConfirmation_log (setting : Option String) {event : SolanaEvent}
    {data : SolanaData} (hdata : event.data = some data) (db : Data) :
    ((webhookRecord data.txHash).protocol (LoggedOnce (chargeKey data.txHash))).wp
      (handleConfirmation setting event)
      (fun r c' db' => ∀ a, r = .ok a → a.settled = true → a.skipped = false →
        JustCommitted c' ∧ CreditsService.Logged (chargeKey data.txHash) db') {} db := by
  unfold handleConfirmation
  rw [hdata]
  simp only
  split
  · intro a ha
    cases ha
  split
  · unfold waiting
    split
    · rintro a ha hsettled -
      cases ha
      cases hsettled
    · rintro a ha hsettled -
      cases ha
      cases hsettled
    · intro a ha
      cases ha
  · unfold settle
    rw [Protocol.wp_bind]
    refine Protocol.wp_exec_auto _ (fun _ _ _ _ h => by cases h) fun env found ws db₁ hs₁ hx => ?_
    obtain rfl := reads_of_writes rfl env db₁ _ _ hx
    refine ⟨Protocol.keeps_refl _ hs₁.inv, ?_⟩
    cases found with
    | some _ =>
        rintro a ha - hskipped
        cases ha
        cases hskipped
    | none =>
        simp only [Protocol.bindPost_ok]
        rw [Protocol.wp_tryCatch, Protocol.wp_bind]
        refine Protocol.wp_mono _ (fun r c' db' hr => ?_) (wp_recordFirst
          (anyStmt_of_only (applyConfirmation_only _)) (fun c db hc => wp_applyConfirmation_solo hc)
          fun db db' hv hle h => h.mono hv hle)
        cases r with
        | ok a =>
            rintro a' ha - -
            exact hr a rfl
        | error err =>
            simp only [Protocol.bindPost_error]
            split
            · rintro a ha - hskipped
              cases ha
              cases hskipped
            · intro a ha
              cases ha

end SolanaConfirmationController

end PaymentBilling
