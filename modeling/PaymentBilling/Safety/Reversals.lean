import PaymentBilling.Safety.Deliveries
import PaymentBilling.Spec.Reversals

/-!
# Safety.Reversals

One chargeback, one reversal: deliveries of chargebacks of one charge, any
number of them and interleaved, under any event identifiers.

The record of an event does not keep deliveries with different identifiers
apart; the dispute does.  Its unique name is locked by the delivery that
inserts it and its row by one that updates it, so at any time one of them at
most is about to take the credits back, and it does so while the lock is held.
-/

namespace PaymentBilling

open Relational Transact AuthorizeNetWebhookController

/-- The unique name of the dispute about a charge, as a lock. -/
def disputeLock (transactionId : String) : RowLock :=
  .key .disputes (.gatewayDisputeId (gatewayDisputeKey transactionId))

/-- The dispute about a charge. -/
def disputeOf (transactionId : String) (db : Data) : Option Dispute :=
  schema.findBy .disputes (.gatewayDisputeId (gatewayDisputeKey transactionId)) db

/-- The client holds the lock of the dispute: of its row, or of its name while
there is no row. -/
def DisputeLocked (transactionId : String) (c : LocalState) (db : Data) : Prop :=
  match disputeOf transactionId db with
  | some d => Lock.row .disputes d.id ∈ heldBy c.stack
  | none => disputeLock transactionId ∈ heldBy c.stack

section Locked

variable {transactionId : String} {db db' : Data} {c c' : LocalState} {d : Dispute}

theorem name_of_disputeOf (h : disputeOf transactionId db = some d) :
    d.gatewayDisputeId = gatewayDisputeKey transactionId := by
  have hk := Schema.key_of_findBy h
  simp only [schema, List.mem_singleton, UniqueKey.gatewayDisputeId.injEq] at hk
  exact hk.symm

theorem disputeOf_of_same (h : db' .disputes = db .disputes) :
    disputeOf transactionId db' = disputeOf transactionId db := by
  rw [disputeOf, Schema.findBy, h]
  rfl

theorem disputeOf_of_mem (hv : schema.Valid db) (h : d ∈ db .disputes)
    (hgate : d.gatewayDisputeId = gatewayDisputeKey transactionId) :
    disputeOf transactionId db = some d := hv.findBy_of_mem h (by simp [schema, hgate])

/-- The dispute about a charge stays the same one. -/
theorem disputeOf_mono (hv : schema.Valid db) (hv' : schema.Valid db') (hle : locking.le db db')
    (h : disputeOf transactionId db = some d) :
    ∃ d', disputeOf transactionId db' = some d' ∧ d'.id = d.id := by
  obtain ⟨d', hd', hsame⟩ := dispute_of_le hle (hv.find_of_mem (Schema.mem_of_findBy h))
  exact ⟨d', disputeOf_of_mem hv' (Schema.mem_of_find hd')
    (hsame.gatewayDisputeId.trans (name_of_disputeOf h)), hsame.id⟩

/-- The lock of the dispute is kept together with the other locks. -/
theorem DisputeLocked.mono (h : DisputeLocked transactionId c db) (hv : schema.Valid db)
    (hv' : schema.Valid db') (hle : locking.le db db')
    (hnone : disputeLock transactionId ∈ heldBy c.stack → disputeOf transactionId db = none →
      disputeOf transactionId db' = none)
    (hheld : ∀ l ∈ heldBy c.stack, l ∈ heldBy c'.stack) : DisputeLocked transactionId c' db' := by
  unfold DisputeLocked at h ⊢
  cases hd : disputeOf transactionId db with
  | some d =>
      rw [hd] at h
      obtain ⟨d', hd', hid⟩ := disputeOf_mono hv hv' hle hd
      rw [hd']
      simp only [hid]
      exact hheld _ h
  | none =>
      rw [hd] at h
      rw [hnone h hd]
      exact hheld _ h

/-- A lock on the name keeps the dispute from being opened. -/
theorem disputeOf_none_of_same (h : locking.same (disputeLock transactionId) db db')
    (hd : disputeOf transactionId db = none) : disputeOf transactionId db' = none := by
  have h : (disputeOf transactionId db).map (schema.id (t := .disputes)) =
      (disputeOf transactionId db').map (schema.id (t := .disputes)) := h
  rw [hd] at h
  exact Option.map_eq_none_iff.mp h.symm

/-- Two clients do not hold the lock of one dispute. -/
theorem DisputeLocked.exclusive (h : DisputeLocked transactionId c db)
    (h' : DisputeLocked transactionId c' db)
    (hlocks : ∀ l ∈ heldBy c.stack, l ∉ heldBy c'.stack) : False := by
  unfold DisputeLocked at h h'
  cases hd : disputeOf transactionId db with
  | some d =>
      rw [hd] at h h'
      exact hlocks _ h h'
  | none =>
      rw [hd] at h h'
      exact hlocks _ h h'

end Locked

/-- The dispute is opened under the lock of its name, and the deduction is
logged under the lock of the dispute. -/
def reversalProtocol (transactionId : String) :
    Protocol locking (fun db => schema.Valid db ∧ ReversedOnce transactionId db) where
  env c db db' := DisputeLocked transactionId c db → DisputeLocked transactionId c db' ∧
    (CreditsService.Unlogged (chargebackCreditKey transactionId) db →
      CreditsService.Unlogged (chargebackCreditKey transactionId) db')
  guar c db db' := (disputeLock transactionId ∉ heldBy c.stack →
      disputeOf transactionId db = none → disputeOf transactionId db' = none) ∧
    (¬DisputeLocked transactionId c db →
      CreditsService.Unlogged (chargebackCreditKey transactionId) db →
      CreditsService.Unlogged (chargebackCreditKey transactionId) db')
  env_refl _ _ h := ⟨h, id⟩
  env_trans h h' hl := ⟨(h' (h hl).1).1, fun hu => (h' (h hl).1).2 ((h hl).2 hu)⟩
  guar_refl _ _ := ⟨fun _ h => h, fun _ h => h⟩

def reversalContract (transactionId : String) (ι : Type) :
    Contract locking (fun db => schema.Valid db ∧ ReversedOnce transactionId db) ι where
  proto _ := reversalProtocol transactionId
  apart _ _ _ _ := True
  apart_symm _ := trivial
  compat _ _ hlocks hle hi hi' hguar hl :=
    ⟨hl.mono hi.1 hi'.1 hle (fun hheld => hguar.1 fun hin => hlocks _ hin hheld) fun _ h => h,
      hguar.2 fun hl' => hl'.exclusive hl hlocks⟩

section Calls

variable {transactionId : String} {data : AuthorizeNetData} {c : LocalState} {db : Data}
  {t : Tx RowWrite RowLock} {ts : List (Tx RowWrite RowLock)} {r : Option Dispute}

/-- A delivery that is about to take the credits back has locked the dispute. -/
theorem disputeLocked_of_rel {d : Dispute} (hstack : c.stack = t :: ts) (hv : schema.Valid db)
    (hok : locking.StackOk c.stack db) (htext : data.transactionId.text = transactionId)
    (hx : (deliveryEffect data).rel (some d) t.writes db) : DisputeLocked transactionId c db := by
  rw [hstack] at hok
  have hcovered := hok.covered t (.head _)
  have hfits := hok.fits t (.head _)
  obtain ⟨_, ws₀, ws', hws, hrecord, d₁, ws₁, rest, rfl, ⟨hgate, hopened⟩, hrest⟩ := hx
  have hrecord : ∀ w ∈ ws₀, w.table = .processedWebhooks := hrecord
  rw [htext] at hgate
  have hdisputes : postgres.applyAll ws₀ db .disputes = db .disputes :=
    applyAll_other fun w hw he => nomatch (he ▸ hrecord w hw : Table.disputes = .processedWebhooks)
  have hheld : ∀ w ∈ ws₁ ++ rest, ∀ l ∈ postgres.locks w, l ∈ heldBy c.stack := by
    intro w hw l hl
    rw [hstack]
    refine List.mem_append_left _ (hcovered w ?_ l hl)
    rw [hws]
    exact List.mem_append_right _ hw
  unfold DisputeLocked
  rcases hopened with ⟨rfl, d', hfind, hsame⟩ | ⟨rfl, hnew⟩
  · -- the row has been updated
    have hmem : d' ∈ db .disputes := hdisputes ▸ Schema.mem_of_find hfind
    rw [disputeOf_of_mem hv hmem (hsame.gatewayDisputeId.trans hgate)]
    beta_reduce at hrest
    split at hrest
    · obtain ⟨h, -⟩ := hrest
      cases h
    · obtain ⟨response, ws₂, _, rfl, -, -, rfl⟩ := hrest
      refine hheld _ (List.mem_append_right _ (List.mem_append_right _ (.head _))) _ ?_
      rw [show d'.id = d₁.id from hsame.id]
      exact .head _
  · -- the row has been inserted
    have hnone : disputeOf transactionId db = none := by
      rw [hws, locking.fitsAll_append] at hfits
      have hfree := (Schema.accepts_insert.mp hfits.2.1).2.2.1
        (.gatewayDisputeId d₁.gatewayDisputeId) (by simp [schema])
      rw [hgate, Schema.findBy, hdisputes] at hfree
      exact hfree
    rw [hnone]
    refine hheld (.insert .disputes d₁) (.head _) _ (.tail _ ?_)
    rw [disputeLock, ← hgate]
    exact .head _

/-- The lock of the dispute is held by whoever holds more. -/
theorem DisputeLocked.within (h : DisputeLocked transactionId c db) {c' : LocalState}
    (hc : CreditsService.Within c c') : DisputeLocked transactionId c' db := by
  have hheld : ∀ l ∈ heldBy c.stack, l ∈ heldBy c'.stack := by
    intro l hl
    rcases hc with hc | ⟨t, hc⟩
    · rw [hc]
      exact hl
    · rw [hc]
      exact List.mem_append_right _ hl
  unfold DisputeLocked at h ⊢
  split
  · next d hd =>
    rw [hd] at h
    exact hheld _ h
  · next hd =>
    rw [hd] at h
    exact hheld _ h

/-- The credits of a chargeback are taken back at most once. -/
theorem wp_takeBack (htext : data.transactionId.text = transactionId) (hv : schema.Valid db)
    (hlocked : ∀ d, r = some d → DisputeLocked transactionId c db) :
    (reversalProtocol transactionId).wp (takeBack data r)
      (fun r' c' _ => ∀ b, r' = .ok b → c'.stack = c.stack) c db := by
  cases r with
  | none => exact fun _ _ => rfl
  | some d =>
    have hkey : CreditsService.givenKey (some ("chargeback_" ++ data.transactionId.text)) =
        some (chargebackCreditKey transactionId) := by
      rw [htext]
      exact CreditsService.givenKey_append (by decide)
    -- the lock of the dispute is held all the time
    have hK : ∀ c' db₁ db₂, CreditsService.Within c c' →
        (reversalProtocol transactionId).Sees c' db₁ db₂ →
        schema.Valid db₁ ∧ DisputeLocked transactionId c db₁ →
        schema.Valid db₂ ∧ DisputeLocked transactionId c db₂ := by
      intro c' db₁ db₂ hc hs hk
      refine ⟨hs.valid, hk.2.mono hk.1 hs.valid hs.le (fun hheld => ?_) fun _ h => h⟩
      refine disputeOf_none_of_same (hs.same _ ?_)
      rcases hc with hc | ⟨t, hc⟩
      · rw [hc]
        exact hheld
      · rw [hc]
        exact List.mem_append_right _ hheld
    rw [takeBack, deductDisputed, Protocol.wp_tryCatch, Protocol.wp_bind]
    refine CreditsService.wp_deductCredits _
      (K := fun db => schema.Valid db ∧ DisputeLocked transactionId c db)
      (N := fun db => (schema.Valid db ∧ DisputeLocked transactionId c db) ∧
        CreditsService.Unlogged (chargebackCreditKey transactionId) db)
      hK ⟨hv, hlocked d rfl⟩ (fun k hk db' hknown hu => ⟨hknown, ?_⟩)
      (fun k hk c' db₁ db₂ hc hs hn => ?_) (fun e c' db' hc _ _ _ _ => hc)
      (fun a c' db' k _ hc _ _ _ _ => hc)
      fun a t c' db₁ user n _ _ _ hstack hn hs hk hchange => ⟨⟨?_, fun _ => ?_, fun hnot => ?_⟩, fun _ _ => rfl⟩
    · rw [hkey] at hk
      rwa [Option.some.inj hk]
    · have hwithin : CreditsService.Within c c' := .inr hc.stack
      exact ⟨hK _ _ _ hwithin hs hn.1, (hs.env (hn.1.2.within hwithin)).2 hn.2⟩
    · have hfits := hs.fits hstack
      refine ⟨locking.valid_applyAll hfits hs.valid,
        hs.inv.2.deduct hfits (fun k hk => ?_) hchange⟩
      have hu := (hn k hk).2.2
      rw [hkey] at hk
      rwa [Option.some.inj hk] at hu
    · rw [Engine.view, disputeOf_of_same (hchange.other (by decide) (by decide))]
      exact fun h => h
    · exact (hnot (hk.2.within (.inr ⟨t, hstack⟩))).elim

/-- The request reports a chargeback of a charge. -/
def DisputesCharge (transactionId : String) (req : AuthorizeNetRequest) : Prop :=
  req.body.type = .str "chargeback.received" ∧
    ∃ data, req.body.data = some data ∧ data.transactionId.text = transactionId

/-- A delivery opens the dispute and reverses the charge in one commit. -/
theorem wp_handleWebhook_reversal {config : AuthorizeNetConfig} {req : AuthorizeNetRequest}
    (hreq : DisputesCharge transactionId req) :
    (reversalProtocol transactionId).wp (handleWebhook config req) (fun _ _ _ => True) {} db := by
  obtain ⟨htype, data, hdata, htext⟩ := hreq
  refine wp_deliverChargeback _ (K := fun _ => True) (R := fun _ _ _ => True) htype hdata
    (fun _ _ _ _ _ _ => trivial) trivial (fun _ _ _ _ _ _ _ _ => trivial) (fun _ _ => trivial)
    (fun _ _ _ => trivial) (fun r t c₁ db₁ hstack _ hv hok hx _ => ?_)
    fun r t c₁ c' db' hstack _ hs hfits hx _ =>
      ⟨⟨?_, fun hfree hnone => ?_, fun _ hu => ?_⟩, trivial⟩
  · refine Protocol.wp_mono _ (fun _ _ _ hr => ⟨hr, trivial⟩)
      (wp_takeBack htext hv fun d hd => ?_)
    subst hd
    exact disputeLocked_of_rel hstack hv hok htext hx
  · exact ⟨locking.valid_applyAll hfits hs.valid, hs.inv.2.deliver hs.valid hfits htext hx⟩
  · -- whoever opens the dispute has locked its name
    rw [Engine.view]
    cases hd : r with
    | some d =>
        subst hd
        have hlocked := disputeLocked_of_rel hstack hs.valid hs.stack htext hx
        rw [DisputeLocked, hnone] at hlocked
        exact (hfree hlocked).elim
    | none =>
        subst hd
        rw [disputeOf_of_same (delivery_unopened hx (by decide))]
        exact hnone
  · rw [CreditsService.Unlogged, Engine.view, delivery_other hx (by decide)]
    exact hu

end Calls

/-! ## The results -/

/-- A charge that nobody has disputed. -/
theorem reversedOnce_of_undisputed {transactionId : String} {db : Data}
    (hcredits : CreditsService.Unlogged (chargebackCreditKey transactionId) db)
    (hunbooked : Unbooked (reversalKey transactionId) db)
    (hnone : ∀ d ∈ db .disputes, d.gatewayDisputeId ≠ gatewayDisputeKey transactionId) :
    ReversedOnce transactionId db where
  credits := loggedOnce_of_unlogged hcredits
  reversed d hd hgate := (hnone d hd hgate).elim
  unreversed _ := hunbooked

/-- In every run of chargebacks of one charge, whatever their events are called
and wherever they fail, there is one dispute at most, one reversal and one
deduction, and the dispute points to the reversal of its amount. -/
theorem chargeback_reversedOnce {ι : Type} [DecidableEq ι] (transactionId : String) (db : Database)
    (config : ι → AuthorizeNetConfig) (reqs : ι → AuthorizeNetRequest)
    (hreqs : ∀ i, DisputesCharge transactionId (reqs i))
    (hstart : ReversedOnce transactionId db.rows)
    (s : Sys Stmt Data RowWrite RowLock Err WebhookResponse ι)
    (h : Runs postgres AnyStep (deliverySystem db config reqs) s) :
    ((s.db .disputes).filter
        (·.gatewayDisputeId = gatewayDisputeKey transactionId)).length ≤ 1 ∧
      ((s.db .ledgerTransactions).filter
        (·.idempotencyKey = some (reversalKey transactionId))).length ≤ 1 ∧
      LoggedOnce (chargebackCreditKey transactionId) s.db ∧
      ∀ d ∈ s.db .disputes, d.gatewayDisputeId = gatewayDisputeKey transactionId →
        HasReversal transactionId d s.db := by
  have hsafe : (reversalContract transactionId ι).Safe (fun _ _ _ _ => True)
      (deliverySystem db config reqs) :=
    .start db.valid ⟨db.valid, hstart⟩ (fun _ _ _ => trivial) fun i =>
      wp_handleWebhook_reversal (hreqs i)
  have hruns : Runs postgres (reversalContract transactionId ι).Clean
      (deliverySystem db config reqs) s := h.mono fun _ _ _ _ _ _ _ _ => trivial
  obtain ⟨hs, -⟩ := hsafe.runs (T := fun _ _ => True) (fun _ _ _ _ _ _ _ _ hq => hq)
    (fun _ => trivial) (fun _ _ => trivial) (fun _ _ _ _ => trivial) hruns
  obtain ⟨hv, hbooks⟩ := hs.inv
  refine ⟨?_, ?_, hbooks.credits, hbooks.reversed⟩
  · refine hv.length_filter_le_one (t := .disputes)
      (k := .gatewayDisputeId (gatewayDisputeKey transactionId)) fun d hd => ?_
    simp [schema, of_decide_eq_true hd]
  · refine hv.length_filter_le_one (t := .ledgerTransactions)
      (k := .idempotencyKey (reversalKey transactionId)) fun txn htxn => ?_
    simp [schema, of_decide_eq_true htxn]

/-- A chargeback of 100 cents, under this event identifier. -/
def chargebackUnder (eventId : String) : AuthorizeNetRequest where
  rawBody := []
  signature := some "01"
  body :=
    { eventId := .str eventId, type := .str "chargeback.received"
      data := some
        { userId := .str "user", transactionId := .str "charge_1", amount := .int 100
          contextType := .str "credit_purchase", contextRef := .str "100_credits" } }

/-- Both deliveries record their events before one of them opens the dispute. -/
def disputeTwice : List (Fin 2 × Choice Env) :=
  (List.replicate 3 [(0, .go (.ordinary "a")), (1, .go (.ordinary "b"))]).flatten ++
    List.replicate 19 (0, .go (.ordinary "a")) ++ List.replicate 2 (1, .go (.ordinary "b"))

/-- So many disputes. -/
def disputedTimes (n : Nat) (db : Data) : Bool := (db .disputes).length = n

/-- Two chargebacks of a charge under two identifiers reverse it once. -/
theorem disputeTwice_once :
    ∃ s, Runs postgres AnyStep (deliverySystem twoUsers (fun _ : Fin 2 => constantHmac)
        fun i => chargebackUnder (if i = 0 then "event_1" else "event_2")) s ∧
      (s.db .disputes).length = 1 ∧
      ((s.db .disputes).filter (·.gatewayDisputeId = gatewayDisputeKey "charge_1")).length ≤ 1 ∧
      ((s.db .ledgerTransactions).filter
        (·.idempotencyKey = some (reversalKey "charge_1"))).length ≤ 1 ∧
      LoggedOnce (chargebackCreditKey "charge_1") s.db ∧
      ∀ d ∈ s.db .disputes, d.gatewayDisputeId = gatewayDisputeKey "charge_1" →
        HasReversal "charge_1" d s.db := by
  have hplay : (replay postgres anyTime disputeTwice
      (deliverySystem twoUsers (fun _ => constantHmac)
        fun i => chargebackUnder (if i = 0 then "event_1" else "event_2"))).any
      (fun s => disputedTimes 1 s.db) = true := by decide +kernel
  obtain ⟨s, hs, hdisputed⟩ := exists_run hplay
  have hreqs : ∀ i : Fin 2, DisputesCharge "charge_1"
      (chargebackUnder (if i = 0 then "event_1" else "event_2")) :=
    fun _ => ⟨rfl, _, rfl, rfl⟩
  have hstart : ReversedOnce "charge_1" twoUsers.rows := by
    refine reversedOnce_of_undisputed ?_ ?_ ?_ <;> intro row hrow <;> cases hrow
  exact ⟨s, hs, of_decide_eq_true hdisputed, chargeback_reversedOnce "charge_1" twoUsers
    (fun _ => constantHmac) _ hreqs hstart s hs⟩

end PaymentBilling
