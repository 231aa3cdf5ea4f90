import PaymentBilling.Safety.SubscriptionAccess

/-!
# Safety.PendingCancellation

A cancellation that waits for the end of the period, and the renewals that
arrive meanwhile.

A renewal is written by the same statement as a new subscription, which takes
the mark of the cancellation away.  Whether it also goes on with the
subscription is told by the end of the period that it brings.
-/

namespace PaymentBilling

open Relational Transact

/-- A renewal of the user's subscription. -/
def Operation.Renews (op : Operation) (user : String) : Prop :=
  ∃ config req data, op = card config req ∧
    EventType.ofJs req.body.type = .subscriptionRenewed ∧ req.body.data = some data ∧
    data.userId = .str user

/-- What takes a cancellation back: the user's own call, or a new subscription
of the user. -/
def Operation.Restores (op : Operation) (user : String) : Prop :=
  op = reactivate (.str user) ∨ ∃ config req data, op = card config req ∧
    EventType.ofJs req.body.type = .subscriptionCreated ∧ req.body.data = some data ∧
    data.userId = .str user

/-- The end is later than that of the subscription's period. -/
def LaterThan (row : Subscription) (periodEnd : Int) : Prop :=
  ∀ e, row.currentPeriodEnd = some e → e < periodEnd

/-- The subscription of the user goes on, with no cancellation pending, to a
later end. -/
def Extended (user : String) (db db' : Data) : Prop :=
  ∃ row row' e, subscriptionOf user db = some row ∧ subscriptionOf user db' = some row' ∧
    row'.status = .ACTIVE ∧ row'.cancelAtPeriodEnd = false ∧ row'.currentPeriodEnd = some e ∧
    LaterThan row e

/-- A transaction is open in which the subscription of the user gets a later
end. -/
def BringsLaterEnd (user : String) (c : LocalState) (db : Data) : Prop :=
  ∃ t row e, c.stack = [t] ∧ subscriptionOf user db = some row ∧ PendingEnd t.writes e ∧ LaterThan row e

/-- A renewal of the user is processed, and the subscription goes on. -/
def Operation.Prolongs (op : Operation) (user : String) (db db' : Data) : Prop :=
  op.Renews user ∧ (∃ id, op.Processes id db db') ∧ Extended user db db'

/-- A renewal of the user is processed that brings a later end. -/
def Operation.BillsAgain (op : Operation) (user : String) (c : LocalState) (db db' : Data) : Prop :=
  op.Renews user ∧ (∃ id, op.Processes id db db') ∧ BringsLaterEnd user c db

section Steps

variable {op : Operation} {c : LocalState} {db db' : Data} {user id : String}

theorem Operation.Renews.activates (h : op.Renews user) : op.activates = some (.str user) := by
  obtain ⟨config, req, data, rfl, htype, hdata, huser⟩ := h
  simp [Operation.activates, htype, hdata, huser]

theorem Operation.Restores.activates (h : op.Restores user) :
    op = .reactivate (.str user) ∨ op.activates = some (.str user) := by
  refine h.imp_right ?_
  rintro ⟨config, req, data, rfl, htype, hdata, huser⟩
  simp [Operation.activates, htype, hdata, huser]

theorem Operation.Renews.cancels (h : op.Renews user) : op.cancels = none := by
  obtain ⟨config, req, data, rfl, htype, hdata, huser⟩ := h
  simp [Operation.cancels, htype]

/-- A renewal that is processed extends the subscription exactly if it brings a
later end. -/
theorem SubscriptionStep.extended_iff (h : SubscriptionStep op c db db') (hop : op.Renews user)
    (hid : op.Processes id db db') (hrow : ∃ row, subscriptionOf user db = some row) :
    Extended user db db' ↔ BringsLaterEnd user c db := by
  obtain ⟨row, hrow⟩ := hrow
  cases h with
  | elsewhere subscriptions records => exact (hid.records_ne records).elim
  | called other p patches changes records => exact (hid.records_ne records).elim
  | canceled other id' canceledAt cancels processes changes =>
      rw [hop.cancels] at cancels
      cases cancels
  | processed id' activates processes subscriptions =>
      rw [hop.activates] at activates
      cases activates
  | activated other id' plan periodStart periodEnd activates processes changes pending =>
      rw [hop.activates] at activates
      obtain rfl := Js.str.inj (Option.some.inj activates)
      obtain ⟨t, hstack, hpending⟩ := pending
      have hnew : subscriptionOf user db' =
          some ((SubscriptionPatch.activate plan periodStart periodEnd).apply row) := by
        cases changes.own with
        | inl hown =>
            obtain ⟨old, hold, hnew⟩ := hown
            rw [hrow] at hold
            rw [hnew, Option.some.inj hold]
        | inr hcreated =>
            rw [hrow] at hcreated
            cases hcreated.1
      constructor
      · rintro ⟨old, new, e, hold, hnew', -, -, hend, hlater⟩
        rw [hnew] at hnew'
        obtain rfl := Option.some.inj hnew'
        obtain rfl : periodEnd = e := Option.some.inj hend
        exact ⟨t, old, periodEnd, hstack, hold, (hpending old hold periodEnd).mpr rfl, hlater⟩
      · rintro ⟨t', old, e, hstack', hold, hend, hlater⟩
        rw [hstack] at hstack'
        obtain rfl := (List.cons.inj hstack').1
        obtain rfl := (hpending old hold e).mp hend
        exact ⟨old, _, e, hold, hnew, rfl, rfl, rfl, hlater⟩

end Steps

/-! ## Runs -/

/-- Who could cancel at the end of the period has a subscription. -/
theorem hasSubscription_of_cancelAtPeriodEnd {ι : Type} [DecidableEq ι] {db : Database}
    {ops : ι → Operation} {user : String} {s : Sys Stmt Data RowWrite RowLock Err Unit ι} {i : ι}
    (hruns : Runs postgres AnyStep (operations db ops) s)
    (hop : ops i = .cancelAtPeriodEnd (.str user)) (hdone : (s.clients i).prog = .ret (.ok ())) :
    HasSubscription user s.db := by
  let P : Protocol locking (fun _ => True) := .any locking (fun _ _ _ => True) fun _ _ => trivial
  have hwp : P.wp (ops i).run (fun r _ db => r = .ok () → HasSubscription user db) {} db.rows := by
    rw [hop]
    show P.wp (SubscriptionsService.cancelAtPeriodEnd (.str user) >>= fun _ => pure ()) _ _ _
    unfold SubscriptionsService.cancelAtPeriodEnd
    rw [P.wp_bind, P.wp_bind]
    refine P.wp_exec_auto (fun e _ _ h => by cases h) fun env found ws db' hs hx => ⟨⟨trivial, trivial⟩, ?_⟩
    obtain ⟨_, huser, rfl, rfl⟩ := exec_subscriptionFindUnique hx
    obtain rfl := Js.str.inj huser
    have hle : locking.le db' (postgres.applyAll [] db') := locking.le_applyAll [] db'
    cases hfound : schema.findBy .subscriptions (.userId user) db' with
    | none => exact fun h => by cases h
    | some sub =>
        have hhas := (hasSubscription_of_some hs.valid hfound).mono hle
        simp only [Protocol.bindPost_ok]
        split
        · exact fun h => by cases h
        · exact P.wp_exec_auto (fun e _ _ h => by cases h) fun env row ws db₁ hs₁ hx =>
            ⟨⟨trivial, trivial⟩, fun _ => (hhas.mono hs₁.le).mono (locking.le_applyAll ws db₁)⟩
  have hpost := post_of_runs (Q := fun r _ db => r = .ok () → HasSubscription user db)
    (fun r _ _ _ hle h hr => (h hr).mono hle) db.valid (by exact hwp) hruns hdone
  exact hpost rfl

/-- After a cancellation at the end of the period that succeeded, and as long as
the user neither reactivates nor subscribes anew: no renewal that is processed
makes the subscription go on, in exactly those runs in which none brings a later
end. -/
theorem cancellation_survives {ι : Type} [DecidableEq ι] (db : Database) (ops : ι → Operation)
    (user : String) (s₀ s : Sys Stmt Data RowWrite RowLock Err Unit ι) (k : ι)
    (hruns : Runs postgres AnyStep (operations db ops) s₀)
    (hop : ops k = .cancelAtPeriodEnd (.str user)) (hdone : (s₀.clients k).prog = .ret (.ok ())) :
    Runs postgres (fun s i s' => ¬(ops i).Restores user ∧ ¬(ops i).Prolongs user s.db s'.db) s₀ s ↔
      Runs postgres (fun s i s' => ¬(ops i).Restores user ∧
        ¬(ops i).BillsAgain user (s.clients i).loc s.db s'.db) s₀ s := by
  have hhas := hasSubscription_of_cancelAtPeriodEnd hruns hop hdone
  have hstep : ∀ s s' i, Runs postgres AnyStep s₀ s → Step postgres s i s' →
      ((ops i).Prolongs user s.db s'.db ↔ (ops i).BillsAgain user (s.clients i).loc s.db s'.db) := by
    intro s s' i hafter hstep
    obtain ⟨hsys, hle⟩ := ((Discipline.SysOk.start locking db.valid _).runs hruns).1.runs hafter
    have hrow := (hhas.mono hle).exists_subscriptionOf hsys.valid
    have h := subscriptionStep_of_runs (hruns.trans hafter) hstep
    constructor
    · rintro ⟨hrenews, ⟨id, hid⟩, hextended⟩
      exact ⟨hrenews, ⟨id, hid⟩, (h.extended_iff hrenews hid hrow).mp hextended⟩
    · rintro ⟨hrenews, ⟨id, hid⟩, hlater⟩
      exact ⟨hrenews, ⟨id, hid⟩, (h.extended_iff hrenews hid hrow).mpr hlater⟩
  exact Runs.congr fun s s' i hafter hs => and_congr_right fun _ => not_congr (hstep s s' i hafter hs)

/-! ## A renewal after the cancellation -/

/-- The call of the client has succeeded. -/
def succeeded {n : Nat} (i : Fin n) (s : Sys Stmt Data RowWrite RowLock Err Unit (Fin n)) : Bool :=
  match (s.clients i).prog with
  | .ret (.ok _) => true
  | _ => false

theorem of_succeeded {n : Nat} {i : Fin n} {s : Sys Stmt Data RowWrite RowLock Err Unit (Fin n)}
    (h : succeeded i s = true) : (s.clients i).prog = .ret (.ok ()) := by
  unfold succeeded at h
  split at h
  · assumption
  · cases h

/-- Some event has been recorded. -/
def recordsEvent (db : Data) : Bool := !(db .processedWebhooks).isEmpty

/-- The user cancels at the end of the period, and a charge fails. -/
def cancelThenFail : Fin 2 → Operation
  | 0 => .cancelAtPeriodEnd (.str "user")
  | 1 => failedCharge 0

theorem cancelThenFail_survives :
    ∃ s₀ s, Runs postgres AnyStep (operations premiumUser cancelThenFail) s₀ ∧
      (s₀.clients 0).prog = .ret (.ok ()) ∧ recordsEvent s.db = true ∧
      Runs postgres (fun s i s' => ¬(cancelThenFail i).Restores "user" ∧
        ¬(cancelThenFail i).BillsAgain "user" (s.clients i).loc s.db s'.db) s₀ s := by
  have hplay : (replay postgres anyTime (List.replicate 2 (0, .go (.ordinary "a")))
      (operations premiumUser cancelThenFail)).any (fun s₀ => succeeded 0 s₀ &&
        (replay postgres anyTime (List.replicate 6 (1, .go (.ordinary "b"))) s₀).any
          fun s => recordsEvent s.db) = true := by decide +kernel
  obtain ⟨s₀, hruns, hgoal⟩ := exists_runs_of_replay (fun _ _ _ _ => trivial) hplay
  obtain ⟨hdone, hplay'⟩ := Bool.and_eq_true_iff.mp hgoal
  have hop : ∀ i, (cancelThenFail i).activates = none ∧ cancelThenFail i ≠ .reactivate (.str "user") := by
    intro i
    match i with
    | 0 => exact ⟨rfl, nofun⟩
    | 1 => exact ⟨rfl, nofun⟩
  have hclean : ∀ i db db', ¬(cancelThenFail i).Restores "user" ∧
      ¬(cancelThenFail i).Prolongs "user" db db' := by
    intro i db db'
    obtain ⟨hnone, hcall⟩ := hop i
    refine ⟨fun h => h.activates.elim hcall fun hsome => ?_, fun h => ?_⟩
    · rw [hnone] at hsome
      cases hsome
    · have hsome := h.1.activates
      rw [hnone] at hsome
      cases hsome
  obtain ⟨s, hafter, hrecorded⟩ := exists_run_of_replay (fun s i s' _ => hclean i s.db s'.db) hplay'
  exact ⟨s₀, s, hruns, of_succeeded hdone, hrecorded,
    (cancellation_survives premiumUser cancelThenFail "user" s₀ s 0 hruns rfl (of_succeeded hdone)).mp hafter⟩

/-- The user cancels at the end of the period, and the card is charged for the
next one. -/
def cancelThenRenew : Fin 2 → Operation
  | 0 => .cancelAtPeriodEnd (.str "user")
  | 1 => .card constantHmac
      { rawBody := [], signature := some "01"
        body := { eventId := .str "event_1", type := .str "subscription.renewed"
                  data := some { userId := .str "user", plan := .str "premium"
                                 arbSubscriptionId := .str "arb_1"
                                 customerId := .str "customer_1" } } }

/-- The step extends the subscription of the user. -/
def extendsNow (s : Sys Stmt Data RowWrite RowLock Err Unit (Fin 2) ×
    Sys Stmt Data RowWrite RowLock Err Unit (Fin 2)) : Bool :=
  (schema.find .processedWebhooks "event_1" s.1.db).isNone &&
    (schema.find .processedWebhooks "event_1" s.2.db).isSome &&
    (subscriptionOf "user" s.1.db).any (fun row => row.cancelAtPeriodEnd && row.currentPeriodEnd = some 100) &&
    (subscriptionOf "user" s.2.db).any fun row =>
      row.status = .ACTIVE && !row.cancelAtPeriodEnd && row.currentPeriodEnd = some 2592000000

theorem cancelThenRenew_extends :
    ∃ s₀ s s', Runs postgres AnyStep (operations premiumUser cancelThenRenew) s₀ ∧
      (s₀.clients 0).prog = .ret (.ok ()) ∧
      Runs postgres (fun _ i _ => ¬(cancelThenRenew i).Restores "user") s₀ s ∧
      Step postgres s 1 s' ∧ (cancelThenRenew 1).Prolongs "user" s.db s'.db := by
  have hplay : (replay postgres anyTime (List.replicate 2 (0, .go (.ordinary "a")))
      (operations premiumUser cancelThenRenew)).any (fun s₀ => succeeded 0 s₀ &&
        (replayStep postgres (List.replicate 5 (1, .go (.ordinary "b"))) 1 (.go (.ordinary "b")) s₀).any
          extendsNow) = true := by decide +kernel
  obtain ⟨s₀, hruns, hgoal⟩ := exists_runs_of_replay (fun _ _ _ _ => trivial) hplay
  obtain ⟨hdone, hplay'⟩ := Bool.and_eq_true_iff.mp hgoal
  have hclean : ∀ i, ¬(cancelThenRenew i).Restores "user" := by
    intro i
    match i with
    | 0 => exact fun h => h.activates.elim nofun nofun
    | 1 =>
        rintro (h | ⟨_, _, _, h, htype, -⟩)
        · cases h
        · cases h
          exact absurd htype (by decide)
  obtain ⟨s, s', hafter, hstep, hextends⟩ := exists_step_of_replay hplay'
  refine ⟨s₀, s, s', hruns, of_succeeded hdone, hafter.mono fun _ i _ _ => hclean i, hstep, ?_⟩
  unfold extendsNow at hextends
  simp only [Bool.and_eq_true, Option.any_eq_true, decide_eq_true_eq, Bool.not_eq_true',
    Option.isNone_iff_eq_none, Option.isSome_iff_exists] at hextends
  obtain ⟨⟨⟨hbefore, hafter⟩, row, hrow, -, hend⟩, row', hrow', ⟨hstatus, hmark⟩, hend'⟩ := hextends
  refine ⟨⟨_, _, _, rfl, by decide, rfl, rfl⟩, ⟨"event_1", rfl, hbefore, hafter⟩, row, row', 2592000000,
    hrow, hrow', hstatus, hmark, hend', fun e he => ?_⟩
  rw [hend] at he
  obtain rfl := Option.some.inj he
  decide

end PaymentBilling
