import PaymentBilling.Spec.Subscriptions
import PaymentBilling.Transact.Replay
import PaymentBilling.Safety.DisputeBooks

/-!
# Safety.SubscriptionAccess

Access after a cancellation, and what gives it back.

An event that cancels finds the subscription of its user and changes it in the
commit that records it.  From then on only an activation restores access, and
only in the commit that records it for the first time.
-/

namespace PaymentBilling

open Relational Transact

/-- The user has no access: the subscription is canceled, and the plan is the
basic one. -/
def Inactive (user : String) (db : Data) : Prop :=
  ∃ row, subscriptionOf user db = some row ∧ row.status = .CANCELED ∧ row.plan = .BASIC

section Steps

variable {op : Operation} {c : LocalState} {db db' : Data} {user : String} {p : SubscriptionPatch}

theorem Inactive.of_same (h : Inactive user db) (hsame : subscriptionOf user db' = subscriptionOf user db) :
    Inactive user db' := by
  obtain ⟨row, hrow, hstatus⟩ := h
  exact ⟨row, hsame.trans hrow, hstatus⟩

/-- A change that is no activation leaves no access where there was none. -/
theorem Inactive.of_changes {other : String} (h : Inactive user db) (hchanges : p.Changes other db db')
    (hp : other = user → ¬SubscriptionsService.IsActivation p) : Inactive user db' := by
  by_cases hother : user = other
  · subst hother
    obtain ⟨row, hrow, hstatus, hplan⟩ := h
    cases hchanges.own with
    | inl hchanged =>
        obtain ⟨old, hold, hnew⟩ := hchanged
        rw [hrow] at hold
        obtain rfl := Option.some.inj hold
        refine ⟨p.apply row, hnew, ?_⟩
        cases p with
        | activate plan periodStart periodEnd => exact (hp rfl ⟨plan, periodStart, periodEnd, rfl⟩).elim
        | cancel canceledAt => exact ⟨rfl, rfl⟩
        | cancelAtPeriodEnd value => exact ⟨hstatus, hplan⟩
    | inr hcreated =>
        rw [hrow] at hcreated
        cases hcreated.1
  · exact h.of_same (hchanges.others user hother)

/-- A cancellation leaves no access. -/
theorem inactive_of_cancel {canceledAt : Int}
    (hchanges : (SubscriptionPatch.cancel canceledAt).Changes user db db') : Inactive user db' := by
  cases hchanges.own with
  | inl hchanged =>
      obtain ⟨old, -, hnew⟩ := hchanged
      exact ⟨_, hnew, rfl, rfl⟩
  | inr hcreated =>
      obtain ⟨-, _, _, _, _, hp, -⟩ := hcreated
      cases hp

/-- The calls of users are no activations. -/
theorem not_activation_of_patches {named : Js} (h : op.Patches named p) :
    ¬SubscriptionsService.IsActivation p := by
  rintro ⟨plan, periodStart, periodEnd, rfl⟩
  cases op with
  | cancelAtPeriodEnd userId => cases h.2
  | cancelImmediately userId =>
      obtain ⟨-, _, hp⟩ := h
      cases hp
  | reactivate userId => cases h.2
  | _ => exact h

/-- The step commits an activation of the user whose event had no record. -/
def Reactivates (op : Operation) (user : String) (db db' : Data) : Prop :=
  op.activates = some (.str user) ∧ ∃ id, op.Processes id db db'

/-- Nothing else gives access back. -/
theorem SubscriptionStep.inactive (h : SubscriptionStep op c db db') (hinactive : Inactive user db)
    (hno : ¬Reactivates op user db db') : Inactive user db' := by
  cases h with
  | elsewhere subscriptions records => exact hinactive.of_same (subscriptionOf_of_same subscriptions)
  | called other p patches changes records =>
      exact hinactive.of_changes changes fun _ => not_activation_of_patches patches
  | activated other id plan periodStart periodEnd activates processes changes pending =>
      refine hinactive.of_changes changes fun hother => ?_
      subst hother
      exact (hno ⟨activates, id, processes⟩).elim
  | canceled other id canceledAt cancels processes changes =>
      refine hinactive.of_changes changes fun _ => ?_
      rintro ⟨_, _, _, hp⟩
      cases hp
  | processed id activates processes subscriptions =>
      exact hinactive.of_same (subscriptionOf_of_same subscriptions)

end Steps

/-! ## The commit of a cancellation -/

/-- The step records no event, or leaves the user without access. -/
def CancelsInCommit (user : String) (_ : LocalState) (db db' : Data) : Prop :=
  db' .processedWebhooks = db .processedWebhooks ∨ Inactive user db'

/-- A client that only records an event when it cancels the subscription of the
user. -/
def canceling (user : String) : Protocol locking (fun _ => True) :=
  .any locking (CancelsInCommit user) fun _ _ => .inl rfl

/-- The side effects of an event that cancels. -/
theorem applyEvent_of_cancels {config : AuthorizeNetConfig} {req : AuthorizeNetRequest} {named : Js}
    (hop : Operation.cancels (.card config req) = some named) :
    AuthorizeNetWebhookController.applyEvent req.body.type req.body.data = do
      let _ ← SubscriptionsService.cancelImmediately named
      return () := by
  unfold AuthorizeNetWebhookController.applyEvent
  simp only [Operation.cancels] at hop
  cases htype : EventType.ofJs req.body.type <;> rw [htype] at hop <;>
    simp only [Option.map_eq_some_iff, reduceCtorEq] at hop
  all_goals
    obtain ⟨data, hdata, rfl⟩ := hop
    rw [hdata]

/-- An event that cancels, for a user who has a subscription. -/
theorem returns_canceling {op : Operation} {user : String} (hop : op.cancels = some (.str user)) :
    ((canceling user).knowing (HasSubscription user)).Returns [] op.run := by
  cases op with
  | card config req =>
      refine Protocol.returns_bind (AuthorizeNetWebhookController.returns_handleWebhook ?_)
        fun _ => Protocol.returns_pure _
      unfold AuthorizeNetWebhookController.recordAndApply
      rw [applyEvent_of_cancels hop]
      refine Protocol.returns_transaction (fun past => Protocol.does_bind
        (does_eventRecord _ req.body.eventId "authorize_net" req.body.type) fun _ =>
          does_bind_change (SubscriptionsService.does_cancelImmediately_known fun _ hi => hi.2)
            fun _ => does_pure_off ()) ?_
      rintro _ _ c db hv hi hfits ⟨row, ws₁, ws₂, rfl, ⟨rfl, -, -⟩, hchange⟩
      refine ⟨⟨trivial, hi.2.mono (locking.le_applyAll _ db)⟩, .inr ?_⟩
      have hoff : ∀ w ∈ [(.insert .processedWebhooks row : RowWrite)], w.table ≠ .subscriptions := by
        intro w hw
        rw [List.mem_singleton.mp hw]
        exact nofun
      obtain ⟨named, _, hnamed, ⟨canceledAt, rfl⟩, hchanges, -⟩ :=
        changes_of_rel hv hfits (changeEffect_append hoff hchange)
      obtain rfl := Js.str.inj hnamed
      exact inactive_of_cancel hchanges
  | _ => cases hop

/-! ## Runs -/

section Runs

variable {ι : Type} [DecidableEq ι] {db : Database} {ops : ι → Operation} {user : String} {i : ι}
  {s₀ s s' : Sys Stmt Data RowWrite RowLock Err Unit ι}

/-- The delivery of an event that cancels starts when the user has a
subscription: its commit leaves the user without access. -/
theorem inactive_of_delivery (hstart : Runs postgres AnyStep (operations db ops) s₀)
    (hnew : (s₀.clients i).loc.trace = []) (hhas : HasSubscription user s₀.db)
    (hruns : Runs postgres AnyStep s₀ s) (hstep : Step postgres s i s')
    (hop : (ops i).cancels = some (.str user)) {id : String} (hid : (ops i).Processes id s.db s'.db) :
    Inactive user s'.db := by
  have hok : locking.SysOk s₀ := ((Discipline.SysOk.start locking db.valid _).runs hstart).1
  have hclient : s₀.clients i = ⟨(ops i).run, {}⟩ := hstart.of_trace_nil hnew
  have hwp : (canceling user).wp (s₀.clients i).prog (fun _ _ _ => True) (s₀.clients i).loc s₀.db := by
    rw [hclient]
    exact Protocol.wp_mono _ (fun _ _ _ _ => trivial) (Protocol.wp_of_returns_knowing
      (fun _ _ hle h => h.mono hle) hhas (returns_canceling hop))
  have hguar : CancelsInCommit user (s.clients i).loc s.db s'.db :=
    (guar_of_runs_from hok (by exact hwp) hruns hstep).1
  cases hguar with
  | inl hrecords => exact (hid.records_ne hrecords).elim
  | inr hinactive => exact hinactive

/-- Without access the user stays, as long as no activation is committed. -/
theorem Inactive.runs (hstart : Runs postgres AnyStep (operations db ops) s)
    (hruns : Runs postgres (fun s j s' => ¬Reactivates (ops j) user s.db s'.db) s s')
    (h : Inactive user s.db) : Inactive user s'.db := by
  induction hruns with
  | refl => exact h
  | step hruns hstep hno ih =>
      have hbefore := hstart.trans (hruns.mono fun _ _ _ _ => trivial)
      exact (subscriptionStep_of_runs hbefore hstep).inactive ih hno

end Runs

/-- In every run of operations: when a failed charge or the end of a
subscription is delivered to a user with a subscription, the commit of the
delivery leaves the user without access until an activation of the user is
committed whose event had no record; and no other step ever gives access back. -/
theorem canceled_untilActivated {ι : Type} [DecidableEq ι] (db : Database) (ops : ι → Operation)
    (user : String) :
    (∀ s₀ s s' i id, Runs postgres AnyStep (operations db ops) s₀ → (s₀.clients i).loc.trace = [] →
        HasSubscription user s₀.db → Runs postgres AnyStep s₀ s → Step postgres s i s' →
        (ops i).cancels = some (.str user) → (ops i).Processes id s.db s'.db →
        ∀ s'', Runs postgres (fun s j s' => ¬Reactivates (ops j) user s.db s'.db) s' s'' →
          Inactive user s''.db) ∧
      ∀ s s' i, Runs postgres AnyStep (operations db ops) s → Step postgres s i s' →
        Inactive user s.db → ¬Inactive user s'.db → Reactivates (ops i) user s.db s'.db := by
  constructor
  · intro s₀ s s' i id hstart hnew hhas hruns hstep hop hid s'' hafter
    have hcommit := inactive_of_delivery hstart hnew hhas hruns hstep hop hid
    exact hcommit.runs ((hstart.trans hruns).step hstep trivial) hafter
  · intro s s' i hruns hstep hbefore hafter
    by_contra hno
    exact hafter ((subscriptionStep_of_runs hruns hstep).inactive hbefore hno)

/-! ## A failed charge -/

/-- A user has a subscription of the premium plan. -/
def premiumUser : Database :=
  .ofWrites [.insert .users ⟨"user"⟩,
    .insert .subscriptions (newSubscription "subscription_1" "user" .PREMIUM 0 100)] (by decide)

/-- An event of the card gateway for that user. -/
def subscriptionEvent (eventId type : String) : AuthorizeNetRequest where
  rawBody := []
  signature := some "01"
  body := { eventId := .str eventId, type := .str type, data := some { userId := .str "user" } }

/-- A charge of that user fails. -/
def failedCharge (_ : Fin 1) : Operation :=
  .card constantHmac (subscriptionEvent "event_1" "charge.failed")

/-- The commit of the delivery. -/
def recordsFailure (s : Sys Stmt Data RowWrite RowLock Err Unit (Fin 1) ×
    Sys Stmt Data RowWrite RowLock Err Unit (Fin 1)) : Bool :=
  (schema.find .processedWebhooks "event_1" s.1.db).isNone &&
    (schema.find .processedWebhooks "event_1" s.2.db).isSome

theorem failedCharge_cancels :
    ∃ s s', Runs postgres AnyStep (operations premiumUser failedCharge) s ∧ Step postgres s 0 s' ∧
      Inactive "user" s'.db := by
  have hplay : (replayStep postgres (List.replicate 5 (0, .go (.ordinary "a"))) 0 (.go (.ordinary "a"))
      (operations premiumUser failedCharge)).any recordsFailure = true := by decide +kernel
  obtain ⟨s, s', hruns, hstep, hgoal⟩ := exists_step_of_replay hplay
  obtain ⟨hbefore, hafter⟩ := Bool.and_eq_true_iff.mp hgoal
  have hhas : HasSubscription "user" (operations premiumUser failedCharge).db :=
    ⟨"subscription_1", _, rfl, rfl⟩
  refine ⟨s, s', hruns, hstep, (canceled_untilActivated premiumUser failedCharge "user").1
    (operations premiumUser failedCharge) s s' 0 "event_1" .refl rfl hhas hruns hstep rfl
    ⟨rfl, Option.isNone_iff_eq_none.mp hbefore, Option.isSome_iff_exists.mp hafter⟩ s' .refl⟩

end PaymentBilling
