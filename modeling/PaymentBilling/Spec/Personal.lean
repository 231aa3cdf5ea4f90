import PaymentBilling.Spec.Handlers
import PaymentBilling.Spec.Ownership

/-!
# Spec.Personal

What the services write for a user, under any protocol that permits it.

Credits and subscriptions are looked up by the user, so whatever is written of
them is the user's.
-/

namespace PaymentBilling

open Relational Transact

/-- Writes for the users in `U` may be committed at any time. -/
def Permits {I : Data → Prop} (P : Protocol locking I) (U : String → Prop) : Prop :=
  ∀ c db ws, schema.Valid db → I db → locking.fitsAll ws db → Personal U ws db →
    P.Keeps c db (postgres.applyAll ws db)

section Rules

variable {I : Data → Prop} {P : Protocol locking I} {U : String → Prop}
  {stack : List (Tx RowWrite RowLock)} {past : List (Event Stmt Err)} {userId amount : Js}

/-! ## Credits -/

namespace CreditsService

theorem returns_grantCredits (hP : Permits P U) (hU : ∀ user, userId = .str user → U user)
    {type : CreditTransactionType} {description key : String} {metadata : Metadata} :
    P.Returns stack (grantCredits userId amount type description key metadata) := by
  intro trace db
  refine wp_grantCredits P (K := fun _ => True) (N := fun _ => True) (fun _ _ _ _ _ _ => trivial)
    trivial (fun _ _ _ => trivial) (fun _ _ _ _ _ _ => trivial) (fun _ _ _ hc _ _ => hc)
    (fun _ _ _ hc _ _ => hc) ?_
  intro r t c' db₁ user n huser _ _ hstack _ hs _ _ hchange
  have hfits := hs.fits hstack
  exact ⟨hP _ _ _ hs.valid hs.inv hfits (hchange.personal hfits (hU user huser)), rfl⟩

theorem returns_deductCredits (hP : Permits P U) (hU : ∀ user, userId = .str user → U user)
    {description : String} {key : Option String} {metadata : Metadata} :
    P.Returns stack (deductCredits userId amount description key metadata) := by
  intro trace db
  refine wp_deductCredits P (K := fun _ => True) (N := fun _ => True) (fun _ _ _ _ _ _ => trivial)
    trivial (fun _ _ _ _ _ => trivial) (fun _ _ _ _ _ _ _ _ => trivial) (fun _ _ _ hc _ _ => hc)
    (fun _ _ _ _ _ hc _ _ => hc) ?_
  intro r t c' db₁ user n huser _ _ hstack _ hs _ hchange
  have hfits := hs.fits hstack
  exact ⟨hP _ _ _ hs.valid hs.inv hfits (hchange.personal hfits (hU user huser)), rfl⟩

end CreditsService

/-- A change of credits whose failure is only logged. -/
theorem returns_logged {p : Action CreditsResult} (hp : P.Returns stack p) :
    P.Returns stack (tryCatch (do let _ ← p; return ()) fun _ => return ()) :=
  Protocol.returns_tryCatch (Protocol.returns_bind hp fun _ => Protocol.returns_pure ())
    fun _ => Protocol.returns_pure ()

/-! ## Bodies -/

theorem does_pure_personal {α : Type} (a : α) : P.Does past (pure a) (personalEffect U α) := by
  refine Protocol.does_weaken (Protocol.does_pure a) ?_
  rintro _ ws db ⟨-, rfl⟩
  exact Personal.nil

theorem does_bind_personal {α β : Type} {p : Action α} {f : α → Action β}
    (hp : P.Does past p (personalEffect U α)) (hf : ∀ a, P.Does past (f a) (personalEffect U β)) :
    P.Does past (p >>= f) (personalEffect U β) := by
  refine Protocol.does_weaken (Protocol.does_bind hp hf) ?_
  rintro b ws db ⟨a, ws₁, ws₂, rfl, h₁, h₂⟩
  exact Personal.append h₁ h₂

/-- A statement that writes a table of nobody's, or none. -/
theorem does_query_personal {α : Type} {s : Stmt α}
    (h : ∀ t, s.writes = some t → t ∉ .disputes :: ledgerTables ++ ownedTables) :
    P.Does past (query s) (personalEffect U α) :=
  Protocol.does_exec fun _ _ _ _ _ hx => personal_of_table fun w hw => h _ (table_of_exec hx w hw)

/-- A transaction of credits inside the transaction adds nothing to it. -/
theorem does_returns_personal {α : Type} {p : Action α} (hp : Only anyStmt p 0)
    (h : ∀ stack, P.Returns stack p) : P.Does past p (personalEffect U α) := by
  refine Protocol.does_weaken (Protocol.does_of_returns hp h) fun _ ws _ hws => ?_
  obtain rfl : ws = [] := hws
  exact Personal.nil

/-- The subscription of a user. -/
theorem personal_subscription {old : Subscription} {p : SubscriptionPatch} {user : String} {db : Data}
    (hv : schema.Valid db) (hf : schema.findBy .subscriptions (.userId user) db = some old)
    (hU : U user) : Personal U [.update .subscriptions old.id p] db := by
  have huser : old.userId = user := by
    have hk := Schema.key_of_findBy hf
    simp only [schema, List.mem_singleton, UniqueKey.userId.injEq] at hk
    exact hk.symm
  refine List.forall_mem_singleton.mpr ⟨?_, (by decide : Table.subscriptions ∉ .disputes :: ledgerTables)⟩
  have hconcerns : Concerns U db (.update .subscriptions old.id p) := fun _ =>
    ⟨old, hv.find_of_mem (Schema.mem_of_findBy hf), user, congrArg some huser, hU⟩
  exact hconcerns.mono (locking.le_applyAll _ db)

namespace SubscriptionsService

theorem does_createOrUpdate_personal {params : GatewayActivation}
    (hU : ∀ user, params.userId = .str user → U user) :
    P.Does past (createOrUpdateFromGateway params) (personalEffect U Subscription) := by
  refine does_bind_personal (Protocol.does_exec fun env db row ws hv hx => ?_) fun _ =>
    does_bind_personal (does_query_personal (by simp [Stmt.writes, ledgerTables, ownedTables]))
      fun _ => does_pure_personal _
  obtain ⟨user, _, _, _, huser, -, -, -, hrow⟩ := exec_subscriptionUpsert hx
  rcases hrow with ⟨old, hf, -, rfl⟩ | ⟨rfl, hr⟩
  · exact personal_subscription hv hf (hU user huser)
  · refine List.forall_mem_singleton.mpr ⟨fun _ => ⟨user, by rw [hr]; rfl, hU user huser⟩,
      (by decide : Table.subscriptions ∉ .disputes :: ledgerTables)⟩

theorem does_cancelImmediately_personal (hU : ∀ user, userId = .str user → U user) :
    P.Does past (cancelImmediately userId) (personalEffect U (Option Subscription)) := by
  refine does_bind_personal (does_query_personal nofun) fun found => ?_
  cases found with
  | none => exact does_pure_personal _
  | some _ =>
      refine does_bind_personal (Protocol.does_exec fun env db row ws hv hx => ?_) fun _ =>
        does_pure_personal _
      obtain ⟨user, old, huser, hf, rfl⟩ := exec_subscriptionCancel hx
      exact personal_subscription hv hf (hU user huser)

end SubscriptionsService

namespace AuthorizeNetWebhookController

theorem does_recordCharge_personal (data : AuthorizeNetData) (plan : Js) :
    P.Does past (recordCharge data plan) (personalEffect U Unit) := by
  unfold recordCharge
  split
  · exact does_bind_personal (does_query_personal (by simp [Stmt.writes, ledgerTables, ownedTables]))
      fun _ => does_pure_personal ()
  · exact does_pure_personal ()

/-- What an event makes of the rows of its user, unless it is a chargeback. -/
theorem does_applyEvent_personal (hP : Permits P U) {type : Js} {data : Option AuthorizeNetData}
    (hU : ∀ d user, data = some d → d.userId = .str user → U user)
    (htype : EventType.ofJs type ≠ .chargebackReceived) :
    P.Does past (applyEvent type data) (personalEffect U Unit) := by
  have hcancel : ∀ d, data = some d → P.Does past
      (do let _ ← SubscriptionsService.cancelImmediately d.userId; return ()) (personalEffect U Unit) :=
    fun d hd => does_bind_personal (SubscriptionsService.does_cancelImmediately_personal
      fun user => hU d user hd) fun _ => does_pure_personal ()
  have hactivated : ∀ d, data = some d → P.Does past (subscriptionActivated d) (personalEffect U Unit) := by
    intro d hd
    unfold subscriptionActivated
    split
    · exact Protocol.does_throw _
    · exact does_bind_personal (SubscriptionsService.does_createOrUpdate_personal
        fun user => hU d user hd) fun _ => does_recordCharge_personal d _
  unfold applyEvent
  split
  · exact does_pure_personal ()
  · split
    · exact Protocol.does_throw _
    · next d =>
      split
      · exact hactivated d rfl
      · exact hactivated d rfl
      · exact hcancel d rfl
      · unfold chargeApproved
        split
        · split
          · exact does_pure_personal ()
          · exact does_bind_personal (does_returns_personal
              (anyStmt_of_only (CreditsService.grantCredits_only ..)) fun _ =>
                CreditsService.returns_grantCredits hP fun user => hU d user rfl) fun _ =>
              does_recordCharge_personal d _
        · exact does_recordCharge_personal d _
      · refine does_returns_personal (anyStmt_of_only (chargeRefunded_only d)) fun stack => ?_
        unfold chargeRefunded
        split
        · split
          · exact Protocol.returns_pure ()
          · exact returns_logged (CreditsService.returns_deductCredits hP fun user => hU d user rfl)
        · exact Protocol.returns_pure ()
      · exact hcancel d rfl
      · next h => exact (htype h).elim
      · exact does_pure_personal ()

end AuthorizeNetWebhookController

/-- What a settled transaction makes of the rows of its user. -/
theorem does_applyConfirmation_personal (hP : Permits P U) {data : SolanaData}
    (hU : ∀ user, data.userId = .str user → U user) :
    P.Does past (SolanaConfirmationController.applyConfirmation data) (personalEffect U Unit) := by
  have hpayment : P.Does past (SolanaConfirmationController.creditPayment data)
      (personalEffect U Unit) :=
    does_bind_personal (does_returns_personal (anyStmt_of_only (CreditsService.grantCredits_only ..))
      fun _ => CreditsService.returns_grantCredits hP hU) fun _ =>
      does_bind_personal (does_query_personal (by simp [Stmt.writes, ledgerTables, ownedTables]))
        fun _ => does_pure_personal ()
  rw [SolanaConfirmationController.applyConfirmation_eq]
  split
  · exact does_bind_personal (SubscriptionsService.does_createOrUpdate_personal hU) fun _ => hpayment
  · exact hpayment

end Rules

end PaymentBilling
