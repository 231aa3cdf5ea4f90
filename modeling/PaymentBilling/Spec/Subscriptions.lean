import PaymentBilling.Spec.Handlers
import PaymentBilling.Spec.Operations
import PaymentBilling.Transact.Nested

/-!
# Spec.Subscriptions

What a step of an operation can do to subscriptions.

A user has one subscription at most.  A step changes the subscription of one
user at most, and by one patch: an event of a gateway in the commit that also
records it, a call of the user in a statement of its own.
-/

namespace PaymentBilling

open Relational Transact

/-! ## The subscription of a user -/

/-- The subscription of a user. -/
def subscriptionOf (user : String) (db : Data) : Option Subscription :=
  schema.findBy .subscriptions (.userId user) db

/-- The user has one. -/
def HasSubscription (user : String) (db : Data) : Prop :=
  ∃ id row, schema.find .subscriptions id db = some row ∧ row.userId = user

/-- A new subscription. -/
def newSubscription (id user : String) (plan : SubscriptionPlan) (periodStart periodEnd : Int) :
    Subscription :=
  ⟨id, user, .ACTIVE, plan, some periodStart, some periodEnd, false, none⟩

/-- The subscription of the user is changed, or created by an activation; those
of the others are not. -/
structure SubscriptionPatch.Changes (p : SubscriptionPatch) (user : String) (db db' : Data) : Prop where
  own : (∃ row, subscriptionOf user db = some row ∧ subscriptionOf user db' = some (p.apply row)) ∨
    subscriptionOf user db = none ∧ ∃ id plan periodStart periodEnd,
      p = .activate plan periodStart periodEnd ∧
        subscriptionOf user db' = some (newSubscription id user plan periodStart periodEnd)
  others : ∀ other, other ≠ user → subscriptionOf other db' = subscriptionOf other db

/-- The write makes this change to the subscription of the user. -/
def SubscriptionPatch.MadeBy (p : SubscriptionPatch) (user : String) (w : RowWrite) (db : Data) : Prop :=
  (∃ id row, w = .update .subscriptions id p ∧ schema.find .subscriptions id db = some row ∧
      row.userId = user) ∨
    ∃ id plan periodStart periodEnd, p = .activate plan periodStart periodEnd ∧
      w = .insert .subscriptions (newSubscription id user plan periodStart periodEnd)

section Rows

variable {db db' : Data} {user : String} {p : SubscriptionPatch} {w : RowWrite}

theorem mem_keys_subscription {row : Subscription} :
    UniqueKey.userId user ∈ schema.keys (t := .subscriptions) row ↔ row.userId = user := by
  show UniqueKey.userId user ∈ [UniqueKey.userId row.userId] ↔ _
  rw [List.mem_singleton, UniqueKey.userId.injEq]
  exact eq_comm

theorem subscriptionOf_of_same (h : db' .subscriptions = db .subscriptions) :
    subscriptionOf user db' = subscriptionOf user db := by
  rw [subscriptionOf, subscriptionOf, Schema.findBy, h, Schema.findBy]

theorem userId_of_fixed {row row' : Subscription}
    (h : schema.fixed (t := .subscriptions) row' = schema.fixed (t := .subscriptions) row) :
    row'.userId = row.userId := by
  have hsame := congrArg Subscription.userId h
  exact hsame

theorem userId_of_subscriptionOf {row : Subscription} (h : subscriptionOf user db = some row) :
    row.userId = user := mem_keys_subscription.mp (Schema.key_of_findBy h)

/-- Subscriptions stay. -/
theorem HasSubscription.mono (h : HasSubscription user db) (hle : schema.le db db') :
    HasSubscription user db' := by
  obtain ⟨id, row, hrow, huser⟩ := h
  obtain ⟨row', hrow', hfix⟩ := hle _ _ _ hrow
  exact ⟨id, row', hrow', (userId_of_fixed hfix).trans huser⟩

theorem HasSubscription.exists_subscriptionOf (h : HasSubscription user db) (hv : schema.Valid db) :
    ∃ row, subscriptionOf user db = some row := by
  obtain ⟨id, row, hrow, huser⟩ := h
  exact ⟨row, hv.findBy_of_mem (Schema.mem_of_find hrow) (mem_keys_subscription.mpr huser)⟩

theorem hasSubscription_of_some {row : Subscription} (hv : schema.Valid db)
    (h : subscriptionOf user db = some row) : HasSubscription user db :=
  ⟨row.id, row, hv.find_of_mem (Schema.mem_of_findBy h), userId_of_subscriptionOf h⟩

theorem SubscriptionPatch.MadeBy.mono (h : p.MadeBy user w db) (hle : schema.le db db') :
    p.MadeBy user w db' := by
  cases h with
  | inl hupdate =>
      obtain ⟨id, row, hw, hrow, huser⟩ := hupdate
      obtain ⟨row', hrow', hfix⟩ := hle _ _ _ hrow
      exact .inl ⟨id, row', hw, hrow', (userId_of_fixed hfix).trans huser⟩
  | inr hinsert => exact .inr hinsert

theorem SubscriptionPatch.MadeBy.table (h : p.MadeBy user w db) : w.table = .subscriptions := by
  cases h with
  | inl hupdate =>
      obtain ⟨_, _, rfl, -⟩ := hupdate
      rfl
  | inr hinsert =>
      obtain ⟨_, _, _, _, -, rfl⟩ := hinsert
      rfl

/-- The write changes the subscription of its user alone. -/
theorem SubscriptionPatch.MadeBy.changes (h : p.MadeBy user w db) (hv : schema.Valid db)
    (haccepts : schema.accepts w db) : p.Changes user db (schema.apply w db) := by
  cases h with
  | inl hupdate =>
      obtain ⟨id, row, rfl, hrow, rfl⟩ := hupdate
      have hid : row.id = id := Schema.id_of_find hrow
      have hfound : subscriptionOf row.userId db = some row :=
        hv.findBy_of_mem (Schema.mem_of_find hrow) (mem_keys_subscription.mpr rfl)
      refine ⟨.inl ⟨row, hfound, ?_⟩, fun other hother => ?_⟩
      · have hrevise : schema.revise (t := .subscriptions) id p row = p.apply row := if_pos hid
        rw [subscriptionOf] at hfound
        rw [subscriptionOf, Schema.findBy_update, hfound, Option.map_some, hrevise]
      · rw [subscriptionOf, Schema.findBy_update, subscriptionOf]
        cases hf : schema.findBy .subscriptions (.userId other) db with
        | none => rfl
        | some row' =>
            have hne : schema.id (t := .subscriptions) row' ≠ id := by
              intro he
              have hsame : row' = row := hv.eq_of_id (Schema.mem_of_findBy hf) (Schema.mem_of_find hrow)
                (he.trans hid.symm)
              exact hother ((userId_of_subscriptionOf hf).symm.trans (congrArg Subscription.userId hsame))
            rw [Option.map_some, Schema.revise_of_ne hne]
  | inr hinsert =>
      obtain ⟨id, plan, periodStart, periodEnd, rfl, rfl⟩ := hinsert
      have hnone : subscriptionOf user db = none :=
        (Schema.accepts_insert.mp haccepts).2.2.1 _ (mem_keys_subscription.mpr rfl)
      have hown : UniqueKey.userId user ∈ schema.keys (t := .subscriptions)
          (newSubscription id user plan periodStart periodEnd) := mem_keys_subscription.mpr rfl
      refine ⟨.inr ⟨hnone, id, plan, periodStart, periodEnd, rfl, ?_⟩, fun other hother => ?_⟩
      · rw [subscriptionOf] at hnone
        rw [subscriptionOf, Schema.findBy_insert, hnone, Option.none_or, if_pos hown]
      · have hkey : UniqueKey.userId other ∉ schema.keys (t := .subscriptions)
            (newSubscription id user plan periodStart periodEnd) := fun hk =>
          hother (mem_keys_subscription.mp hk).symm
        rw [subscriptionOf, Schema.findBy_insert, if_neg hkey, Option.or_none, subscriptionOf]

end Rows

/-! ## Parts of transactions -/

/-- Subscriptions are not written. -/
abbrev offSubscriptions (α : Type) : Effect locking α := .writes locking (·.table ≠ .subscriptions)

/-- Exactly one write is to subscriptions; it changes that of the user who is
named by a patch in `A`. -/
def changeEffect (α : Type) (named : Js) (A : SubscriptionPatch → Prop) : Effect locking α where
  rel _ ws db := ∃ user ws₁ w ws₂ p, named = .str user ∧ ws = ws₁ ++ w :: ws₂ ∧
    (∀ w' ∈ ws₁ ++ ws₂, w'.table ≠ .subscriptions) ∧ A p ∧ p.MadeBy user w db
  stable := by
    rintro a ws db db' - - hle ⟨user, ws₁, w, ws₂, p, huser, hws, hoff, hA, hmade⟩
    exact ⟨user, ws₁, w, ws₂, p, huser, hws, hoff, hA, hmade.mono hle⟩

/-- A row is found. -/
def foundEffect (α : Type) : Effect locking (Option α) where
  rel found ws _ := (∃ row, found = some row) ∧ ws = []
  stable _ _ _ h := h

section Parts

variable {I : Data → Prop} {P : Protocol locking I} {past : List (Event Stmt Err)} {α β : Type}
  {named : Js} {user : String} {A : SubscriptionPatch → Prop}

theorem does_pure_off (a : α) : P.Does past (pure a) (offSubscriptions α) := by
  refine Protocol.does_weaken (Protocol.does_pure a) ?_
  rintro _ _ _ ⟨-, rfl⟩ w hw
  cases hw

theorem does_query_off {s : Stmt α} (h : s.writes ≠ some .subscriptions) :
    P.Does past (query s) (offSubscriptions α) :=
  Protocol.does_exec fun _ _ _ _ _ hx w hw he => h (he ▸ table_of_exec hx w hw)

theorem does_bind_off {p : Action α} {f : α → Action β} (hp : P.Does past p (offSubscriptions α))
    (hf : ∀ a, P.Does past (f a) (offSubscriptions β)) : P.Does past (p >>= f) (offSubscriptions β) := by
  refine Protocol.does_weaken (Protocol.does_bind hp hf) ?_
  rintro b _ db ⟨a, ws₁, ws₂, rfl, h₁, h₂⟩ w hw
  exact (List.mem_append.mp hw).elim (h₁ w) (h₂ w)

/-- The change comes first. -/
theorem does_bind_change {p : Action α} {f : α → Action β}
    (hp : P.Does past p (changeEffect α named A)) (hf : ∀ a, P.Does past (f a) (offSubscriptions β)) :
    P.Does past (p >>= f) (changeEffect β named A) := by
  refine Protocol.does_weaken (Protocol.does_bind hp hf) ?_
  rintro b _ db ⟨a, _, ws', rfl, ⟨user, ws₁, w, ws₂, p, huser, rfl, hoff, hA, hmade⟩, hoff'⟩
  refine ⟨user, ws₁, w, ws₂ ++ ws', p, huser, by simp, fun w' hw' => ?_, hA, hmade⟩
  rw [← List.append_assoc] at hw'
  exact (List.mem_append.mp hw').elim (hoff w') (hoff' w')

theorem changeEffect_single {w : RowWrite} {p : SubscriptionPatch} {db : Data} {a : α}
    (huser : named = .str user) (hA : A p) (h : p.MadeBy user w db) :
    (changeEffect α named A).rel a [w] db :=
  ⟨user, [], w, [], p, huser, rfl, List.forall_mem_nil _, hA, h⟩

/-- Other writes may come before. -/
theorem changeEffect_append {ws₁ ws₂ : List RowWrite} {db : Data} {a : α}
    (hoff₁ : ∀ w ∈ ws₁, w.table ≠ .subscriptions)
    (h : (changeEffect α named A).rel a ws₂ (postgres.applyAll ws₁ db)) :
    (changeEffect α named A).rel a (ws₁ ++ ws₂) db := by
  obtain ⟨user, ws, w, ws', p, huser, rfl, hoff, hA, hmade⟩ := h
  refine ⟨user, ws₁ ++ ws, w, ws', p, huser, by simp, ?_, hA, ?_⟩
  · rw [List.append_assoc]
    exact fun w' hw' => (List.mem_append.mp hw').elim (hoff₁ w') (hoff w')
  · cases hmade with
    | inl hupdate =>
        obtain ⟨id, row, hw, hrow, huser⟩ := hupdate
        rw [Schema.find, applyAll_other hoff₁, ← Schema.find] at hrow
        exact .inl ⟨id, row, hw, hrow, huser⟩
    | inr hinsert => exact .inr hinsert

/-- The period end that is about to be written to a subscription. -/
def PendingEnd (writes : List RowWrite) (periodEnd : Int) : Prop :=
  ∃ id plan periodStart, .update .subscriptions id (.activate plan periodStart periodEnd) ∈ writes

/-- The change that is committed. -/
theorem changes_of_rel {ws : List RowWrite} {db : Data} {a : α} (hv : schema.Valid db)
    (hfits : locking.fitsAll ws db) (h : (changeEffect α named A).rel a ws db) :
    ∃ user p, named = .str user ∧ A p ∧ p.Changes user db (postgres.applyAll ws db) ∧
      ∀ plan periodStart periodEnd row, p = .activate plan periodStart periodEnd →
        subscriptionOf user db = some row → ∀ e, PendingEnd ws e ↔ e = periodEnd := by
  obtain ⟨user, ws₁, w, ws₂, p, huser, rfl, hoff, hA, hmade⟩ := h
  have hcons : w :: ws₂ = [w] ++ ws₂ := rfl
  rw [hcons, locking.fitsAll_append, locking.fitsAll_append] at hfits
  obtain ⟨hfits₁, ⟨haccepts, -⟩, -⟩ := hfits
  have hbefore : (postgres.applyAll ws₁ db) .subscriptions = db .subscriptions :=
    applyAll_other fun w' hw' => hoff w' (List.mem_append_left _ hw')
  have hafter : (postgres.applyAll (ws₁ ++ w :: ws₂) db) .subscriptions =
      schema.apply w (postgres.applyAll ws₁ db) .subscriptions := by
    rw [hcons, postgres.applyAll_append, postgres.applyAll_append, applyAll_single]
    exact applyAll_other fun w' hw' => hoff w' (List.mem_append_right _ hw')
  have hchange := (hmade.mono (locking.le_applyAll ws₁ db)).changes
    (locking.valid_applyAll hfits₁ hv) haccepts
  obtain ⟨hown, hothers⟩ := hchange
  rw [subscriptionOf_of_same hbefore, ← subscriptionOf_of_same hafter] at hown
  refine ⟨user, p, huser, hA, ⟨hown, fun other hother => ?_⟩, ?_⟩
  · rw [subscriptionOf_of_same hafter, hothers other hother, subscriptionOf_of_same hbefore]
  · rintro plan periodStart periodEnd row rfl hrow e
    cases hmade with
    | inr hinsert =>
        obtain ⟨id, plan', periodStart', periodEnd', -, rfl⟩ := hinsert
        have hnone : subscriptionOf user (postgres.applyAll ws₁ db) = none :=
          (Schema.accepts_insert.mp haccepts).2.2.1 _ (mem_keys_subscription.mpr rfl)
        rw [subscriptionOf_of_same hbefore, hrow] at hnone
        cases hnone
    | inl hupdate =>
        obtain ⟨id, _, rfl, -, -⟩ := hupdate
        constructor
        · rintro ⟨id', plan', periodStart', hmem⟩
          cases List.mem_append.mp hmem with
          | inl hmem => exact (hoff _ (List.mem_append_left _ hmem) rfl).elim
          | inr hmem =>
              cases List.mem_cons.mp hmem with
              | inl he =>
                  cases he
                  rfl
              | inr hmem => exact (hoff _ (List.mem_append_right _ hmem) rfl).elim
        · rintro rfl
          exact ⟨id, plan, periodStart, List.mem_append_right _ (.head _)⟩

/-- A program that writes other tables only. -/
theorem does_off_of_only (hkeeps : ∀ c db ws, schema.Valid db → I db → locking.fitsAll ws db →
      (∀ w ∈ ws, w.table ≠ .subscriptions ∧ w.table ≠ .processedWebhooks) →
      P.Keeps c db (postgres.applyAll ws db))
    {T : List Table} (hT : .subscriptions ∉ T) (hT' : .processedWebhooks ∉ T) {p : Action α}
    (hp : Only (WritesIn T) p 0) : P.Does past p (offSubscriptions α) := by
  refine Protocol.does_weaken (Protocol.does_only (W := fun w => w.table ≠ .subscriptions ∧
    w.table ≠ .processedWebhooks) (fun β s hs env db b ws hx w hw => ?_)
    (fun c db ws _ hw hv hi hfits => hkeeps c db ws hv hi hfits hw) hp) fun _ _ _ h w hw => (h w hw).1
  have htable := hs _ (table_of_exec hx w hw)
  exact ⟨fun he => hT (he ▸ htable), fun he => hT' (he ▸ htable)⟩

namespace SubscriptionsService

/-- The patches of an activation. -/
def IsActivation (p : SubscriptionPatch) : Prop :=
  ∃ plan periodStart periodEnd, p = .activate plan periodStart periodEnd

/-- The patches of a cancellation. -/
def IsCancellation (p : SubscriptionPatch) : Prop := ∃ canceledAt, p = .cancel canceledAt

theorem change_of_upsert {env : Env} {data : SubscriptionUpsert} {row : Subscription}
    {ws : List RowWrite} {db : Data} (hv : schema.Valid db)
    (hx : postgres.exec (.subscriptionUpsert data) env db = .ok (row, ws)) :
    (changeEffect Subscription data.userId IsActivation).rel row ws db := by
  obtain ⟨user, plan, periodStart, periodEnd, huser, -, -, -, hrow⟩ := exec_subscriptionUpsert hx
  cases hrow with
  | inl hupdate =>
      obtain ⟨old, hf, -, rfl⟩ := hupdate
      have hfind := hv.find_of_mem (Schema.mem_of_findBy hf)
      exact changeEffect_single huser ⟨plan, periodStart, periodEnd, rfl⟩
        (.inl ⟨old.id, old, rfl, hfind, userId_of_subscriptionOf hf⟩)
  | inr hinsert =>
      obtain ⟨rfl, hr⟩ := hinsert
      exact changeEffect_single huser ⟨plan, periodStart, periodEnd, rfl⟩
        (.inr ⟨row.id, plan, periodStart, periodEnd, rfl, congrArg (Write.insert Table.subscriptions) hr⟩)

theorem change_of_cancel {env : Env} {userId : Js} {row : Subscription} {ws : List RowWrite} {db : Data}
    (hv : schema.Valid db) (hx : postgres.exec (.subscriptionCancel userId) env db = .ok (row, ws)) :
    (changeEffect Subscription userId IsCancellation).rel row ws db := by
  obtain ⟨user, old, huser, hf, rfl⟩ := exec_subscriptionCancel hx
  have hfind := hv.find_of_mem (Schema.mem_of_findBy hf)
  exact changeEffect_single huser ⟨env.now, rfl⟩
    (.inl ⟨old.id, old, rfl, hfind, userId_of_subscriptionOf hf⟩)

theorem change_of_cancelAtPeriodEnd {env : Env} {userId : Js} {value : Bool} {row : Subscription}
    {ws : List RowWrite} {db : Data} (hv : schema.Valid db)
    (hx : postgres.exec (.subscriptionCancelAtPeriodEnd userId value) env db = .ok (row, ws)) :
    (changeEffect Subscription userId (· = .cancelAtPeriodEnd value)).rel row ws db := by
  obtain ⟨user, old, huser, hf, rfl⟩ := exec_subscriptionCancelAtPeriodEnd hx
  have hfind := hv.find_of_mem (Schema.mem_of_findBy hf)
  exact changeEffect_single huser rfl (.inl ⟨old.id, old, rfl, hfind, userId_of_subscriptionOf hf⟩)

theorem does_createOrUpdateFromGateway (params : GatewayActivation) :
    P.Does past (createOrUpdateFromGateway params)
      (changeEffect Subscription params.userId IsActivation) :=
  does_bind_change (Protocol.does_exec fun _ _ _ _ hv hx => change_of_upsert hv hx) fun _ =>
    does_bind_off (does_query_off (by simp [Stmt.writes])) fun _ => does_pure_off _

theorem does_subscriptionCancel (userId : Js) :
    P.Does past (query (.subscriptionCancel userId)) (changeEffect Subscription userId IsCancellation) :=
  Protocol.does_exec fun _ _ _ _ hv hx => change_of_cancel hv hx

theorem does_cancelImmediately (userId : Js) :
    P.Does past (cancelImmediately userId)
      ((offSubscriptions _).or (changeEffect (Option Subscription) userId IsCancellation)) := by
  refine Protocol.does_weaken (Protocol.does_bind (does_query_off (by simp [Stmt.writes]))
    (Y := fun _ => (offSubscriptions _).or (changeEffect _ userId IsCancellation)) fun found => ?_) ?_
  · cases found with
    | none => exact Protocol.does_weaken (does_pure_off none) fun _ _ _ h => .inl h
    | some _ =>
        exact Protocol.does_weaken (does_bind_change (does_subscriptionCancel userId) fun _ =>
          does_pure_off _) fun _ _ _ h => .inr h
  · rintro r _ db ⟨_, ws₁, ws₂, rfl, hoff, hrest⟩
    refine hrest.imp (fun hoff' w hw => ?_) (changeEffect_append hoff)
    exact (List.mem_append.mp hw).elim (hoff w) (hoff' w)

/-- A subscription that is known to be there is canceled. -/
theorem does_cancelImmediately_known (hI : ∀ db, I db → HasSubscription user db) :
    P.Does past (cancelImmediately (.str user))
      (changeEffect (Option Subscription) (.str user) IsCancellation) := by
  have hfind : P.Does past (query (.subscriptionFindUnique (.str user))) (foundEffect Subscription) := by
    refine Protocol.does_exec_knowing hI (fun _ _ hle h => h.mono hle) fun env db found ws hv hhas hx => ?_
    obtain ⟨_, hu, rfl, rfl⟩ := exec_subscriptionFindUnique hx
    obtain rfl := Js.str.inj hu
    exact ⟨hhas.exists_subscriptionOf hv, rfl⟩
  refine Protocol.does_weaken (Protocol.does_bind hfind (Y := fun found =>
    { rel := fun r ws db => (∃ row, found = some row) →
        (changeEffect (Option Subscription) (.str user) IsCancellation).rel r ws db
      stable := fun hf hf' hle h hfound => (changeEffect _ _ _).stable hf hf' hle (h hfound) })
    fun found => ?_) ?_
  · cases found with
    | none => exact Protocol.does_weaken (Protocol.does_pure none) fun _ _ _ _ ⟨_, hfound⟩ => nomatch hfound
    | some _ =>
        exact Protocol.does_weaken (does_bind_change (does_subscriptionCancel (.str user)) fun _ =>
          does_pure_off _) fun _ _ _ h _ => h
  · rintro r _ db ⟨found, _, ws₂, rfl, ⟨hfound, rfl⟩, hrest⟩
    exact hrest hfound

end SubscriptionsService

end Parts

/-! ## Steps -/

namespace Operation

/-- The identifier of the event of an operation. -/
def eventId : Operation → Option Js
  | card _ req => some req.body.eventId
  | chain _ event => event.data.map (·.txHash)
  | _ => none

/-- The user of an activation: a card event of a new or renewed subscription,
or a payment for a plan on the chain. -/
def activates : Operation → Option Js
  | card _ req =>
    match EventType.ofJs req.body.type with
    | .subscriptionCreated => req.body.data.map (·.userId)
    | .subscriptionRenewed => req.body.data.map (·.userId)
    | _ => none
  | chain _ event => (event.data.filter (·.plan.truthy)).map (·.userId)
  | _ => none

/-- The user of an event that cancels: a failed charge, or the end of the
subscription. -/
def cancels : Operation → Option Js
  | card _ req =>
    match EventType.ofJs req.body.type with
    | .subscriptionCanceled => req.body.data.map (·.userId)
    | .chargeFailed => req.body.data.map (·.userId)
    | _ => none
  | _ => none

/-- The patches that a call of a user makes to the user's subscription. -/
def Patches : Operation → Js → SubscriptionPatch → Prop
  | cancelAtPeriodEnd userId, named, p => userId = named ∧ p = .cancelAtPeriodEnd true
  | cancelImmediately userId, named, p => userId = named ∧ SubscriptionsService.IsCancellation p
  | reactivate userId, named, p => userId = named ∧ p = .cancelAtPeriodEnd false
  | _, _, _ => False

/-- The event of the operation is recorded, and was not before. -/
structure Processes (op : Operation) (id : String) (db db' : Data) : Prop where
  event : op.eventId = some (.str id)
  before : schema.find .processedWebhooks id db = none
  after : ∃ row, schema.find .processedWebhooks id db' = some row

/-- What is recorded is recorded by a change of the records. -/
theorem Processes.records_ne {op : Operation} {id : String} {db db' : Data}
    (h : op.Processes id db db') : db' .processedWebhooks ≠ db .processedWebhooks := by
  intro hsame
  obtain ⟨row, hafter⟩ := h.after
  rw [Schema.find, hsame, ← Schema.find, h.before] at hafter
  cases hafter

end Operation

/-- What a step of an operation can do to subscriptions, and to the records of
events. -/
inductive SubscriptionStep (op : Operation) (c : LocalState) (db db' : Data) : Prop
  | elsewhere (subscriptions : db' .subscriptions = db .subscriptions)
      (records : db' .processedWebhooks = db .processedWebhooks)
  | called (user : String) (p : SubscriptionPatch) (patches : op.Patches (.str user) p)
      (changes : p.Changes user db db') (records : db' .processedWebhooks = db .processedWebhooks)
  | activated (user id : String) (plan : SubscriptionPlan) (periodStart periodEnd : Int)
      (activates : op.activates = some (.str user)) (processes : op.Processes id db db')
      (changes : (SubscriptionPatch.activate plan periodStart periodEnd).Changes user db db')
      (pending : ∃ t, c.stack = [t] ∧ ∀ row, subscriptionOf user db = some row →
        ∀ e, PendingEnd t.writes e ↔ e = periodEnd)
  | canceled (user id : String) (canceledAt : Int) (cancels : op.cancels = some (.str user))
      (processes : op.Processes id db db')
      (changes : (SubscriptionPatch.cancel canceledAt).Changes user db db')
  | processed (id : String) (activates : op.activates = none) (processes : op.Processes id db db')
      (subscriptions : db' .subscriptions = db .subscriptions)

theorem SubscriptionStep.refl (op : Operation) (c : LocalState) (db : Data) : SubscriptionStep op c db db :=
  .elsewhere rfl rfl

/-- A client does to subscriptions what its operation may do. -/
def subscriber (op : Operation) : Protocol locking (fun _ => True) :=
  .any locking (SubscriptionStep op) (SubscriptionStep.refl op)

section Steps

variable {op : Operation}

/-- Programs that write other tables. -/
theorem returns_elsewhere {α : Type} {T : List Table} (hT : .subscriptions ∉ T)
    (hT' : .processedWebhooks ∉ T) {p : Action α} (hp : Only (WritesIn T) p 0) :
    (subscriber op).Returns [] p := by
  intro trace db
  have hkeeps : ∀ c db (ws : List RowWrite), (∀ w ∈ ws, w.table ∈ T) →
      (subscriber op).Keeps c db (postgres.applyAll ws db) := fun c db ws hw =>
    ⟨trivial, SubscriptionStep.elsewhere (applyAll_other fun w hin he => hT (he ▸ hw w hin))
      (applyAll_other fun w hin he => hT' (he ▸ hw w hin))⟩
  exact Protocol.wp_mono _ (fun r c' db' h => h.1) (Protocol.wp_only _ (W := (·.table ∈ T))
    table_mem_of_writesIn (fun c' db ws _ hw _ _ _ => hkeeps c' db ws hw) hp)

/-- What an event does to subscriptions besides its record. -/
def eventEffect (op : Operation) : Effect locking Unit where
  rel a ws db := (op.activates = none ∧ ∀ w ∈ ws, w.table ≠ .subscriptions) ∨
    (∃ named, op.activates = some named ∧
      (changeEffect Unit named SubscriptionsService.IsActivation).rel a ws db) ∨
    ∃ named, op.activates = none ∧ op.cancels = some named ∧
      (changeEffect Unit named SubscriptionsService.IsCancellation).rel a ws db
  stable := by
    rintro a ws db db' hf hf' hle (h | ⟨named, hop, h⟩ | ⟨named, hnot, hop, h⟩)
    · exact .inl h
    · exact .inr (.inl ⟨named, hop, (changeEffect ..).stable hf hf' hle h⟩)
    · exact .inr (.inr ⟨named, hnot, hop, (changeEffect ..).stable hf hf' hle h⟩)

/-- The record of an event is new. -/
theorem processes_of_rel {id : Js} {source : String} {row : ProcessedWebhook} {ws ws' : List RowWrite}
    {db : Data} (hid : op.eventId = some id)
    (hrecord : (eventRecordEffect id source).rel row ws db) (hfits : locking.fitsAll (ws ++ ws') db) :
    op.Processes row.id db (postgres.applyAll (ws ++ ws') db) := by
  obtain ⟨rfl, rfl, -⟩ := hrecord
  rw [locking.fitsAll_append] at hfits
  obtain ⟨⟨haccepts, -⟩, -⟩ := hfits
  have hnone : schema.find .processedWebhooks row.id db = none :=
    (Schema.accepts_insert.mp haccepts).2.1
  refine ⟨hid, hnone, ?_⟩
  have hinserted : schema.find .processedWebhooks row.id
      (schema.apply (.insert .processedWebhooks row) db) = some row := by
    rw [Schema.find_insert, hnone, Option.none_or]
    exact if_pos rfl
  rw [postgres.applyAll_append, applyAll_single]
  obtain ⟨row', hrow', -⟩ := locking.le_applyAll ws' _ _ _ _ hinserted
  exact ⟨row', hrow'⟩

/-- The commit of an event. -/
theorem step_of_event {id : Js} {source : String} {t : Tx RowWrite RowLock} {c : LocalState} {db : Data}
    (hid : op.eventId = some id) (hstack : c.stack = [t]) (hv : schema.Valid db)
    (hfits : locking.fitsAll t.writes db)
    (h : ((eventRecordEffect id source).bind fun _ => eventEffect op).rel () t.writes db) :
    SubscriptionStep op c db (postgres.applyAll t.writes db) := by
  obtain ⟨row, ws₁, ws₂, hws, hrecord, hevent⟩ := h
  rw [hws] at hfits
  have hprocesses := processes_of_rel hid hrecord hfits
  have hoff : ∀ w ∈ ws₁, w.table ≠ .subscriptions := by
    obtain ⟨rfl, -, -⟩ := hrecord
    rintro w hw
    rw [List.mem_singleton.mp hw]
    exact nofun
  rw [← hws] at hfits hprocesses
  cases hevent with
  | inl hother =>
      refine .processed row.id hother.1 hprocesses (applyAll_other fun w hw => ?_)
      rw [hws] at hw
      exact (List.mem_append.mp hw).elim (hoff w) (hother.2 w)
  | inr hchange =>
      cases hchange with
      | inl hactivated =>
          obtain ⟨named, hop, hrel⟩ := hactivated
          have hrel := changeEffect_append hoff hrel
          rw [← hws] at hrel
          obtain ⟨user, _, rfl, ⟨plan, periodStart, periodEnd, rfl⟩, hchanges, hpending⟩ :=
            changes_of_rel hv hfits hrel
          exact .activated user row.id plan periodStart periodEnd hop hprocesses hchanges
            ⟨t, hstack, fun old hold => hpending _ _ _ old rfl hold⟩
      | inr hcanceled =>
          obtain ⟨named, -, hop, hrel⟩ := hcanceled
          have hrel := changeEffect_append hoff hrel
          rw [← hws] at hrel
          obtain ⟨user, _, rfl, ⟨canceledAt, rfl⟩, hchanges, -⟩ := changes_of_rel hv hfits hrel
          exact .canceled user row.id canceledAt hop hprocesses hchanges

/-- The transaction of an event. -/
theorem returns_event {id type : Js} {source : String} {rest : Action Unit}
    (hid : op.eventId = some id) (hrest : ∀ past, (subscriber op).Does past rest (eventEffect op)) :
    (subscriber op).Returns [] (transaction do
      let _ ← query (.processedWebhookCreate id source type)
      rest) := by
  intro trace db
  refine Protocol.wp_transaction_of_does (X := (eventRecordEffect id source).bind fun _ => eventEffect op)
    (Protocol.does_bind (does_eventRecord _ id source type) fun _ => hrest _) (fun _ _ _ hc => hc)
    fun a t c' db' hstack _ _ hs hfits hx => ⟨⟨trivial, ?_⟩, rfl⟩
  exact step_of_event hid hstack hs.valid hfits hx

/-- Other events leave subscriptions alone. -/
theorem does_eventEffect_of_only {T : List Table} (hop : op.activates = none)
    (hT : .subscriptions ∉ T) (hT' : .processedWebhooks ∉ T) {past : List (Event Stmt Err)}
    {p : Action Unit} (hp : Only (WritesIn T) p 0) : (subscriber op).Does past p (eventEffect op) := by
  refine Protocol.does_weaken (does_off_of_only (fun c db ws _ _ _ hw => ⟨trivial, ?_⟩) hT hT' hp)
    fun _ _ _ h => .inl ⟨hop, h⟩
  exact SubscriptionStep.elsewhere (applyAll_other fun w hin => (hw w hin).1)
    (applyAll_other fun w hin => (hw w hin).2)

theorem does_activation {past : List (Event Stmt Err)} {params : GatewayActivation}
    {rest : Subscription → Action Unit} (hop : op.activates = some params.userId)
    (hrest : ∀ row, (subscriber op).Does past (rest row) (offSubscriptions Unit)) :
    (subscriber op).Does past (SubscriptionsService.createOrUpdateFromGateway params >>= rest)
      (eventEffect op) :=
  Protocol.does_weaken (does_bind_change (SubscriptionsService.does_createOrUpdateFromGateway params)
    hrest) fun _ _ _ h => .inr (.inl ⟨_, hop, h⟩)

theorem does_cancellation {past : List (Event Stmt Err)} {userId : Js} (hnot : op.activates = none)
    (hop : op.cancels = some userId) : (subscriber op).Does past (do
      let _ ← SubscriptionsService.cancelImmediately userId
      return ()) (eventEffect op) := by
  refine Protocol.does_map (f := fun _ => ())
    (SubscriptionsService.does_cancelImmediately userId) fun _ _ _ h => ?_
  cases h with
  | inl hoff => exact .inl ⟨hnot, hoff⟩
  | inr hchange => exact .inr (.inr ⟨userId, hnot, hop, hchange⟩)

namespace AuthorizeNetWebhookController

theorem does_recordCharge_off {past : List (Event Stmt Err)} (data : AuthorizeNetData) (plan : Js) :
    (subscriber op).Does past (recordCharge data plan) (offSubscriptions Unit) := by
  unfold recordCharge
  split
  · exact does_bind_off (does_query_off (by simp [Stmt.writes])) fun _ => does_pure_off _
  · exact does_pure_off _

theorem does_subscriptionActivated {past : List (Event Stmt Err)} {data : AuthorizeNetData}
    (hop : op.activates = some data.userId) :
    (subscriber op).Does past (subscriptionActivated data) (eventEffect op) := by
  unfold subscriptionActivated
  split
  · exact Protocol.does_throw _
  · exact does_activation hop fun _ => does_recordCharge_off _ _

/-- The side effects of an event. -/
theorem does_applyEvent {past : List (Event Stmt Err)} (config : AuthorizeNetConfig)
    (req : AuthorizeNetRequest) : (subscriber (.card config req)).Does past
      (applyEvent req.body.type req.body.data) (eventEffect (.card config req)) := by
  unfold applyEvent
  cases htype : EventType.ofJs req.body.type with
  | unhandled =>
      exact does_eventEffect_of_only (T := []) (by simp [Operation.activates, htype]) (by decide)
        (by decide) (only_pure _)
  | _ =>
      cases hdata : req.body.data with
      | none => exact Protocol.does_throw _
      | some data =>
          first
            | exact does_subscriptionActivated (by simp [Operation.activates, htype, hdata])
            | exact does_cancellation (by simp [Operation.activates, htype])
                (by simp [Operation.cancels, htype, hdata])
            | exact does_eventEffect_of_only (by simp [Operation.activates, htype]) (by decide)
                (by decide) (chargeApproved_only data)
            | exact does_eventEffect_of_only (by simp [Operation.activates, htype]) (by decide)
                (by decide) (chargeRefunded_only data)
            | exact does_eventEffect_of_only (by simp [Operation.activates, htype]) (by decide)
                (by decide) (chargebackReceived_only data)

end AuthorizeNetWebhookController

namespace SolanaConfirmationController

/-- The side effects of a settled transaction. -/
theorem does_applyConfirmation {past : List (Event Stmt Err)} {setting : Option String}
    {event : SolanaEvent} {data : SolanaData} (hdata : event.data = some data) :
    (subscriber (.chain setting event)).Does past (applyConfirmation data)
      (eventEffect (.chain setting event)) := by
  have hpayment : ∀ T, .subscriptions ∉ T → .processedWebhooks ∉ T → Only (WritesIn T) (creditPayment data) 0 →
      (subscriber (.chain setting event)).Does past (creditPayment data) (offSubscriptions Unit) :=
    fun T hT hT' h => does_off_of_only (fun c db ws _ _ _ hw => ⟨trivial, SubscriptionStep.elsewhere
      (applyAll_other fun w hin => (hw w hin).1) (applyAll_other fun w hin => (hw w hin).2)⟩) hT hT' h
  rw [applyConfirmation_eq]
  split
  · next hplan =>
    have hop : Operation.activates (.chain setting event) = some (activation data).userId := by
      simp [Operation.activates, hdata, hplan, activation]
    exact does_activation hop fun _ => hpayment _ (by decide) (by decide) (creditPayment_only data)
  · next hplan =>
    have hop : Operation.activates (.chain setting event) = none := by
      simp [Operation.activates, hdata, hplan]
    exact does_eventEffect_of_only hop (by decide) (by decide) (creditPayment_only data)

end SolanaConfirmationController

/-- A statement that patches the subscription of a user and nothing else. -/
theorem returns_patch {α : Type} {named : Js} {s : Stmt α} {A : SubscriptionPatch → Prop}
    (hwrites : s.writes = some .subscriptions)
    (hs : ∀ env r ws db, schema.Valid db → postgres.exec s env db = .ok (r, ws) →
      (changeEffect α named A).rel r ws db) (hop : ∀ p, A p → op.Patches named p) :
    (subscriber op).Returns [] (query s) := by
  refine Protocol.returns_exec fun trace env r ws db hv _ hx => ⟨trivial, ?_⟩
  obtain ⟨user, p, rfl, hA, hchanges, -⟩ :=
    changes_of_rel hv (locking.fitsAll_of_exec hv hx) (hs env r ws db hv hx)
  refine SubscriptionStep.called user p (hop p hA) hchanges (applyAll_other fun w hw he => ?_)
  have htable := table_of_exec hx w hw
  rw [hwrites, he] at htable
  cases htable

/-- Every step of an operation is one of these. -/
theorem returns_subscriber (op : Operation) : (subscriber op).Returns [] op.run := by
  cases op with
  | card config req =>
      refine Protocol.returns_bind (AuthorizeNetWebhookController.returns_handleWebhook ?_)
        fun _ => Protocol.returns_pure _
      exact returns_event rfl fun past => AuthorizeNetWebhookController.does_applyEvent config req
  | chain setting event =>
      refine Protocol.returns_bind (SolanaConfirmationController.returns_handleConfirmation
        fun data hdata => ?_) fun _ => Protocol.returns_pure _
      refine returns_event ?_ fun past => SolanaConfirmationController.does_applyConfirmation hdata
      simp [Operation.eventId, hdata]
  | createRefund userId data =>
      exact returns_elsewhere (T := [.refundRequests]) (by decide) (by decide)
        (Operation.run_only (.createRefund userId data))
  | refund id call =>
      exact returns_elsewhere (T := RefundsService.requestTables) (by decide) (by decide)
        (Operation.run_only (.refund id call))
  | dispute id call =>
      exact returns_elsewhere (T := DisputesService.disputeTables) (by decide) (by decide)
        (Operation.run_only (.dispute id call))
  | cancelAtPeriodEnd userId =>
      refine Protocol.returns_bind (Protocol.returns_bind (returns_reading rfl) fun found => ?_)
        fun _ => Protocol.returns_pure _
      cases found with
      | none => exact Protocol.returns_throw _
      | some sub =>
          simp only
          split
          · exact Protocol.returns_throw _
          · exact returns_patch rfl (fun _ _ _ _ hv hx =>
              SubscriptionsService.change_of_cancelAtPeriodEnd hv hx) fun _ hp => ⟨rfl, hp⟩
  | cancelImmediately userId =>
      refine Protocol.returns_bind (Protocol.returns_bind (returns_reading rfl) fun found => ?_)
        fun _ => Protocol.returns_pure _
      cases found with
      | none => exact Protocol.returns_pure _
      | some sub =>
          refine Protocol.returns_bind (returns_patch rfl (fun _ _ _ _ hv hx =>
            SubscriptionsService.change_of_cancel hv hx) fun _ hp => ⟨rfl, hp⟩) fun _ => Protocol.returns_pure _
  | reactivate userId =>
      refine Protocol.returns_bind (Protocol.returns_bind (returns_reading rfl) fun found => ?_)
        fun _ => Protocol.returns_pure _
      cases found with
      | none => exact Protocol.returns_throw _
      | some sub =>
          simp only
          split
          · exact Protocol.returns_throw _
          split
          · exact Protocol.returns_throw _
          · exact returns_patch rfl (fun _ _ _ _ hv hx =>
              SubscriptionsService.change_of_cancelAtPeriodEnd hv hx) fun _ hp => ⟨rfl, hp⟩

/-- In every run of operations, so is every step. -/
theorem subscriptionStep_of_runs {ι : Type} [DecidableEq ι] {db : Database} {ops : ι → Operation}
    {s s' : Sys Stmt Data RowWrite RowLock Err Unit ι} {i : ι}
    (hruns : Runs postgres AnyStep (operations db ops) s) (hstep : Step postgres s i s') :
    SubscriptionStep (ops i) (s.clients i).loc s.db s'.db := by
  have hwp : (subscriber (ops i)).wp (ops i).run (fun _ _ _ => True) {} db.rows :=
    Protocol.wp_mono _ (fun _ _ _ _ => trivial) (returns_subscriber (ops i) [] db.rows)
  exact (guar_of_runs (i := i) (D := locking) db.valid (by exact hwp) hruns hstep).1

end Steps

end PaymentBilling
