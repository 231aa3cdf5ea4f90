import PaymentBilling.Safety.SubscriptionAccess

/-!
# Safety.SubscriptionState

Which combinations of fields a subscription can have.

Every write but one leaves a row consistent whatever it finds.  A cancellation
at the end of the period sets its mark without looking at the row again, so it
has to reach the row before the cancellation of somebody else does.
-/

namespace PaymentBilling

open Relational Transact

/-- A canceled subscription is a basic one, with the time of its cancellation
and no cancellation pending; an active one was never canceled. -/
def Subscription.Consistent (row : Subscription) : Prop :=
  (row.status = .CANCELED →
      row.plan = .BASIC ∧ row.canceledAt.isSome ∧ row.cancelAtPeriodEnd = false) ∧
    (row.status = .ACTIVE → row.canceledAt = none)

instance : DecidablePred Subscription.Consistent := fun _ => inferInstanceAs (Decidable (_ ∧ _))

/-- Every subscription is consistent. -/
def SubscriptionsConsistent (db : Data) : Prop := ∀ row ∈ db .subscriptions, row.Consistent

/-! ## Calls -/

/-- A call of the service; two of them may run in a transaction of the caller. -/
inductive SubscriptionCall
  | createOrUpdateFromGateway (params : GatewayActivation) (tx : Bool)
  | cancelAtPeriodEnd (userId : Js)
  | cancelImmediately (userId : Js) (tx : Bool)
  | reactivate (userId : Js)

namespace SubscriptionCall

/-- A program in a transaction of the caller, if there is one. -/
def within {α : Type} (tx : Bool) (p : Action α) : Action α := if tx then transaction p else p

/-- The program of a call, without its answer. -/
def run : SubscriptionCall → Action Unit
  | createOrUpdateFromGateway params tx => do
    let _ ← within tx (SubscriptionsService.createOrUpdateFromGateway params)
  | cancelAtPeriodEnd userId => do
    let _ ← SubscriptionsService.cancelAtPeriodEnd userId
  | cancelImmediately userId tx => do
    let _ ← within tx (SubscriptionsService.cancelImmediately userId)
  | reactivate userId => do
    let _ ← SubscriptionsService.reactivate userId

/-- The patches that a call makes to the subscription of a user. -/
def Patches : SubscriptionCall → String → SubscriptionPatch → Prop
  | createOrUpdateFromGateway params _, user, p =>
    params.userId = .str user ∧ SubscriptionsService.IsActivation p
  | cancelAtPeriodEnd userId, user, p => userId = .str user ∧ p = .cancelAtPeriodEnd true
  | cancelImmediately userId _, user, p =>
    userId = .str user ∧ SubscriptionsService.IsCancellation p
  | reactivate userId, user, p => userId = .str user ∧ p = .cancelAtPeriodEnd false

/-- What a step of a call can do to subscriptions. -/
def StepOk (call : SubscriptionCall) (_ : LocalState) (db db' : Data) : Prop :=
  db' .subscriptions = db .subscriptions ∨ ∃ user p, call.Patches user p ∧ p.Changes user db db'

/-- A client that makes a call. -/
def protocol (call : SubscriptionCall) : Protocol locking (fun _ => True) :=
  .any locking call.StepOk fun _ _ => .inl rfl

/-- The call marks a subscription that has been canceled since it was looked
up. -/
def Overtaken (call : SubscriptionCall) (db db' : Data) : Prop :=
  ∃ user row, call = cancelAtPeriodEnd (.str user) ∧ subscriptionOf user db = some row ∧
    row.status = .CANCELED ∧ db' .subscriptions ≠ db .subscriptions

end SubscriptionCall

/-- The calls together. -/
def subscriptionCalls {ι : Type} (db : Database) (calls : ι → SubscriptionCall) :
    Sys Stmt Data RowWrite RowLock Err Unit ι :=
  .start db.rows fun i => (calls i).run

section Steps

variable {call : SubscriptionCall} {c : LocalState} {db db' : Data} {user : String} {p : SubscriptionPatch}

namespace SubscriptionCall

/-- A statement that patches the subscription of a user. -/
theorem returns_change {α : Type} {s : Stmt α} {A : SubscriptionPatch → Prop} {named : Js}
    (hs : ∀ env r ws db, schema.Valid db → postgres.exec s env db = .ok (r, ws) →
      (changeEffect α named A).rel r ws db)
    (hA : ∀ user p, named = .str user → A p → call.Patches user p) :
    call.protocol.Returns [] (query s) := by
  refine Protocol.returns_exec fun trace env r ws db hv _ hx => ⟨trivial, ?_⟩
  obtain ⟨user, p, huser, hp, hchanges, -⟩ :=
    changes_of_rel hv (locking.fitsAll_of_exec hv hx) (hs env r ws db hv hx)
  exact .inr ⟨user, p, hA user p huser hp, hchanges⟩

/-- A statement that writes another table. -/
theorem returns_other {α : Type} {s : Stmt α} (h : s.writes ≠ some .subscriptions) :
    call.protocol.Returns [] (query s) :=
  Protocol.returns_exec fun _ _ _ _ _ _ _ hx =>
    ⟨trivial, .inl (applyAll_other fun w hw he => h (he ▸ table_of_exec hx w hw))⟩

/-- The same statements in a transaction of the caller. -/
theorem returns_inTransaction {α : Type} {body : Action α} {A : SubscriptionPatch → Prop} {named : Js}
    (hbody : ∀ past, call.protocol.Does past body ((offSubscriptions α).or (changeEffect α named A)))
    (hA : ∀ user p, named = .str user → A p → call.Patches user p) :
    call.protocol.Returns [] (transaction body) := by
  refine Protocol.returns_transaction (X := (offSubscriptions α).or (changeEffect α named A)) hbody
    fun a ws c db hv _ hfits hx => ⟨trivial, ?_⟩
  cases hx with
  | inl hoff => exact .inl (applyAll_other hoff)
  | inr hchange =>
      obtain ⟨user, p, huser, hp, hchanges, -⟩ := changes_of_rel hv hfits hchange
      exact .inr ⟨user, p, hA user p huser hp, hchanges⟩

open SubscriptionsService in
/-- Every step of a call is one of these. -/
theorem returns_run (call : SubscriptionCall) : call.protocol.Returns [] call.run := by
  cases call with
  | createOrUpdateFromGateway params tx =>
      refine Protocol.returns_bind ?_ fun _ => Protocol.returns_pure _
      cases tx with
      | true =>
          exact returns_inTransaction (fun past => Protocol.does_weaken
            (SubscriptionsService.does_createOrUpdateFromGateway params) fun _ _ _ h => .inr h)
            fun user p hu hp => ⟨hu, hp⟩
      | false =>
          refine Protocol.returns_bind (returns_change (fun _ _ _ _ => change_of_upsert)
            fun user p hu hp => ⟨hu, hp⟩) fun _ => ?_
          exact Protocol.returns_bind (returns_other (by simp [Stmt.writes])) fun _ =>
            Protocol.returns_pure _
  | cancelAtPeriodEnd userId =>
      refine Protocol.returns_bind (Protocol.returns_bind (returns_other fun h => by cases h) fun found => ?_)
        fun _ => Protocol.returns_pure _
      cases found with
      | none => exact Protocol.returns_throw _
      | some sub =>
          simp only
          split
          · exact Protocol.returns_throw _
          · exact returns_change (fun _ _ _ _ => change_of_cancelAtPeriodEnd)
              fun user p hu hp => ⟨hu, hp⟩
  | cancelImmediately userId tx =>
      refine Protocol.returns_bind ?_ fun _ => Protocol.returns_pure _
      cases tx with
      | true =>
          exact returns_inTransaction (fun past => does_cancelImmediately userId)
            fun user p hu hp => ⟨hu, hp⟩
      | false =>
          refine Protocol.returns_bind (returns_other fun h => by cases h) fun found => ?_
          cases found with
          | none => exact Protocol.returns_pure _
          | some sub =>
              exact Protocol.returns_bind (returns_change (fun _ _ _ _ => change_of_cancel)
                fun user p hu hp => ⟨hu, hp⟩) fun _ => Protocol.returns_pure _
  | reactivate userId =>
      refine Protocol.returns_bind (Protocol.returns_bind (returns_other fun h => by cases h) fun found => ?_)
        fun _ => Protocol.returns_pure _
      cases found with
      | none => exact Protocol.returns_throw _
      | some sub =>
          simp only
          split
          · exact Protocol.returns_throw _
          split
          · exact Protocol.returns_throw _
          · exact returns_change (fun _ _ _ _ => change_of_cancelAtPeriodEnd)
              fun user p hu hp => ⟨hu, hp⟩

end SubscriptionCall

theorem subscriptionsConsistent_iff (hv : schema.Valid db) : SubscriptionsConsistent db ↔
    ∀ user row, subscriptionOf user db = some row → row.Consistent := by
  constructor
  · exact fun h user row hrow => h row (Schema.mem_of_findBy hrow)
  · exact fun h row hrow => h row.userId row (hv.findBy_of_mem hrow (mem_keys_subscription.mpr rfl))

/-- Only the mark of a pending cancellation depends on what is there. -/
theorem SubscriptionPatch.consistent_apply {row : Subscription} (h : row.Consistent)
    (hmark : p = .cancelAtPeriodEnd true → row.status ≠ .CANCELED) : (p.apply row).Consistent := by
  obtain ⟨hcanceled, hactive⟩ := h
  cases p with
  | activate plan periodStart periodEnd => exact ⟨nofun, fun _ => rfl⟩
  | cancel canceledAt => exact ⟨fun _ => ⟨rfl, rfl, rfl⟩, nofun⟩
  | cancelAtPeriodEnd value =>
      refine ⟨fun hstatus => ?_, hactive⟩
      obtain ⟨hplan, htime, -⟩ := hcanceled hstatus
      cases value with
      | false => exact ⟨hplan, htime, rfl⟩
      | true => exact (hmark rfl hstatus).elim

/-- A marked subscription that was canceled is inconsistent. -/
theorem SubscriptionPatch.not_consistent_mark {row : Subscription} (h : row.status = .CANCELED) :
    ¬((SubscriptionPatch.cancelAtPeriodEnd true).apply row).Consistent := by
  intro hc
  have hmark := (hc.1 h).2.2
  cases hmark

theorem SubscriptionPatch.Changes.consistent (h : p.Changes user db db') (hv : schema.Valid db)
    (hv' : schema.Valid db') (hok : SubscriptionsConsistent db)
    (hmark : ∀ row, p = .cancelAtPeriodEnd true → subscriptionOf user db = some row →
      row.status ≠ .CANCELED) : SubscriptionsConsistent db' := by
  rw [subscriptionsConsistent_iff hv] at hok
  rw [subscriptionsConsistent_iff hv']
  intro other row hrow
  by_cases hother : other = user
  · subst hother
    cases h.own with
    | inl hchanged =>
        obtain ⟨old, hold, hnew⟩ := hchanged
        rw [hnew] at hrow
        obtain rfl := Option.some.inj hrow
        exact SubscriptionPatch.consistent_apply (hok _ _ hold) fun hp => hmark old hp hold
    | inr hcreated =>
        obtain ⟨-, id, plan, periodStart, periodEnd, -, hnew⟩ := hcreated
        rw [hnew] at hrow
        obtain rfl := Option.some.inj hrow
        exact ⟨nofun, fun _ => rfl⟩
  · rw [h.others other hother] at hrow
    exact hok _ _ hrow

/-- Only one call marks a subscription. -/
theorem SubscriptionCall.eq_of_marks (call : SubscriptionCall)
    (h : call.Patches user (.cancelAtPeriodEnd true)) : call = .cancelAtPeriodEnd (.str user) := by
  cases call with
  | createOrUpdateFromGateway params tx =>
      obtain ⟨-, _, _, _, hp⟩ := h
      cases hp
  | cancelAtPeriodEnd userId =>
      obtain ⟨rfl, -⟩ := h
      rfl
  | cancelImmediately userId tx =>
      obtain ⟨-, _, hp⟩ := h
      cases hp
  | reactivate userId => cases h.2

/-- A step keeps subscriptions consistent exactly if it is not overtaken. -/
theorem SubscriptionCall.StepOk.consistent_iff (h : call.StepOk c db db') (hv : schema.Valid db)
    (hv' : schema.Valid db') (hok : SubscriptionsConsistent db) :
    SubscriptionsConsistent db' ↔ ¬call.Overtaken db db' := by
  constructor
  · rintro hok' ⟨user, row, rfl, hrow, hstatus, hchanged⟩
    cases h with
    | inl hsame => exact hchanged hsame
    | inr hchange =>
        obtain ⟨other, _, ⟨hother, rfl⟩, hchanges⟩ := hchange
        obtain rfl := Js.str.inj hother
        cases hchanges.own with
        | inl hown =>
            obtain ⟨old, hold, hnew⟩ := hown
            rw [hrow] at hold
            obtain rfl := Option.some.inj hold
            exact SubscriptionPatch.not_consistent_mark hstatus (hok' _ (Schema.mem_of_findBy hnew))
        | inr hcreated =>
            rw [hrow] at hcreated
            cases hcreated.1
  · intro hno
    cases h with
    | inl hsame =>
        intro row hrow
        rw [hsame] at hrow
        exact hok row hrow
    | inr hchange =>
        obtain ⟨user, p, hpatch, hchanges⟩ := hchange
        refine hchanges.consistent hv hv' hok fun row hp hrow hstatus => hno ?_
        subst hp
        refine ⟨user, row, call.eq_of_marks hpatch, hrow, hstatus, fun hsame => ?_⟩
        -- the mark was not there before
        have hbefore := hok row (Schema.mem_of_findBy hrow)
        have hafter := SubscriptionPatch.not_consistent_mark hstatus
        cases hchanges.own with
        | inl hown =>
            obtain ⟨old, hold, hnew⟩ := hown
            rw [subscriptionOf_of_same hsame, hrow] at hnew
            rw [hrow] at hold
            obtain rfl := Option.some.inj hold
            rw [← Option.some.inj hnew] at hafter
            exact hafter hbefore
        | inr hcreated =>
            rw [hrow] at hcreated
            cases hcreated.1

end Steps

/-! ## Runs -/

section Runs

variable {ι : Type} [DecidableEq ι] {db : Database} {calls : ι → SubscriptionCall} {i : ι}
  {s s' : Sys Stmt Data RowWrite RowLock Err Unit ι}

theorem stepOk_of_runs (hruns : Runs postgres AnyStep (subscriptionCalls db calls) s)
    (hstep : Step postgres s i s') : (calls i).StepOk (s.clients i).loc s.db s'.db := by
  have hwp : (calls i).protocol.wp (calls i).run (fun _ _ _ => True) {} db.rows :=
    Protocol.wp_mono _ (fun _ _ _ _ => trivial) (SubscriptionCall.returns_run (calls i) [] db.rows)
  exact (guar_of_runs (i := i) (D := locking) db.valid (by exact hwp) hruns hstep).1

/-- A step of the calls keeps subscriptions consistent exactly if it is not
overtaken. -/
theorem consistent_iff_of_step (hruns : Runs postgres AnyStep (subscriptionCalls db calls) s)
    (hstep : Step postgres s i s') (hok : SubscriptionsConsistent s.db) :
    SubscriptionsConsistent s'.db ↔ ¬(calls i).Overtaken s.db s'.db := by
  have hsys : locking.SysOk s := ((Discipline.SysOk.start locking db.valid _).runs hruns).1
  exact (stepOk_of_runs hruns hstep).consistent_iff hsys.valid (hsys.step hstep).valid hok

end Runs

/-- Subscriptions that are consistent stay so in every run of calls in which no
cancellation at the end of the period marks a subscription that was canceled
since the call looked at it; and such a mark makes the subscription
inconsistent. -/
theorem subscriptions_consistent {ι : Type} [DecidableEq ι] (db : Database)
    (calls : ι → SubscriptionCall) (hok : SubscriptionsConsistent db.rows) :
    ∀ s, Runs postgres (fun s i s' => ¬(calls i).Overtaken s.db s'.db) (subscriptionCalls db calls) s →
      SubscriptionsConsistent s.db ∧ ∀ i s', Step postgres s i s' →
        (calls i).Overtaken s.db s'.db → ¬SubscriptionsConsistent s'.db := by
  intro s hruns
  have hkept : SubscriptionsConsistent s.db :=
    (Runs.inv_iff (A := fun s => SubscriptionsConsistent s.db) hok
      fun s s' i hruns hok hstep => consistent_iff_of_step hruns hstep hok).2 hruns
  refine ⟨hkept, fun i s' hstep hover hok' => ?_⟩
  exact (consistent_iff_of_step (hruns.mono fun _ _ _ _ => trivial) hstep hkept).mp hok' hover

/-! ## A failed charge while the user cancels -/

/-- The user's card is charged for a new period, and then no longer. -/
def activateThenCancel : Fin 2 → SubscriptionCall
  | 0 => .createOrUpdateFromGateway
      { userId := .str "user", plan := .str "STANDARD", gatewayType := .AUTHORIZE_NET
        gatewaySubscriptionId := .str "arb_1", gatewayCustomerId := .str "customer_1"
        gatewayData := [] } true
  | 1 => .cancelImmediately (.str "user") true

/-- The subscription of the user is canceled. -/
def canceledNow (db : Data) : Bool := (db .subscriptions).any fun row => row.status = .CANCELED

theorem activateThenCancel_consistent :
    ∃ s, Runs postgres (fun s i s' => ¬(activateThenCancel i).Overtaken s.db s'.db)
        (subscriptionCalls premiumUser activateThenCancel) s ∧
      canceledNow s.db = true ∧ SubscriptionsConsistent s.db := by
  have hplay : (replay postgres anyTime
      (List.replicate 4 (0, .go (.ordinary "a")) ++ List.replicate 4 (1, .go (.ordinary "b")))
      (subscriptionCalls premiumUser activateThenCancel)).any
        (fun s => canceledNow s.db) = true := by decide +kernel
  have hclean : ∀ i db db', ¬(activateThenCancel i).Overtaken db db' := by
    rintro i db db' ⟨_, _, hcall, -⟩
    match i with
    | 0 => cases hcall
    | 1 => cases hcall
  obtain ⟨s, hruns, hgoal⟩ := exists_run_of_replay (fun s i s' _ => hclean i s.db s'.db) hplay
  have hstart : SubscriptionsConsistent premiumUser.rows := by
    unfold SubscriptionsConsistent
    decide +kernel
  exact ⟨s, hruns, hgoal, (subscriptions_consistent premiumUser activateThenCancel hstart s hruns).1⟩

/-- Some subscription is inconsistent. -/
def inconsistentNow (db : Data) : Bool := (db .subscriptions).any fun row => !decide row.Consistent

/-- The user cancels at the end of the period while a charge fails. -/
def cancelTwice : Fin 2 → SubscriptionCall
  | 0 => .cancelAtPeriodEnd (.str "user")
  | 1 => .cancelImmediately (.str "user") true

theorem cancelTwice_inconsistent :
    SubscriptionsConsistent premiumUser.rows ∧
      ∃ s, Runs postgres AnyStep (subscriptionCalls premiumUser cancelTwice) s ∧
        ¬SubscriptionsConsistent s.db := by
  have hplay : (replay postgres anyTime ((0, .go (.ordinary "a")) ::
      List.replicate 4 (1, .go (.ordinary "b")) ++ [(0, .go (.ordinary "a"))])
      (subscriptionCalls premiumUser cancelTwice)).any
        (fun s => inconsistentNow s.db) = true := by decide +kernel
  obtain ⟨s, hruns, hgoal⟩ := exists_run hplay
  refine ⟨by unfold SubscriptionsConsistent; decide +kernel, s, hruns, fun hok => ?_⟩
  obtain ⟨row, hrow, hnot⟩ := List.any_eq_true.mp hgoal
  exact of_decide_eq_false (Bool.not_eq_true' _ ▸ hnot) (hok row hrow)

end PaymentBilling
