import PaymentBilling.Safety.CreditKeys
import PaymentBilling.Spec.Refunds

/-!
# Safety.CreditRefund

Any number of calls that process one refund of credits: how much they grant.

Every call that has read the request as approved grants its amount under the
same key.  The grant finds the key of an earlier one, unless both looked it up
before either committed.
-/

namespace PaymentBilling

open Relational Transact

/-- The money of a refund of credits that is processed on `db₀`. -/
structure CreditRefundKept (db₀ : Data) (request : RefundRequest) (db : Data) : Prop where
  le : schema.le db₀ db
  money : (CreditsService.Unlogged (refundKey request.id) db ∧
      balanceOf request.userId db = balanceOf request.userId db₀) ∨
    (CreditsService.Logged (refundKey request.id) db ∧
      balanceOf request.userId db = balanceOf request.userId db₀ + request.amount)
  processed : ∀ r, schema.find .refundRequests request.id db = some r → r.status = .PROCESSED →
    CreditsService.Logged (refundKey request.id) db

section Steps

variable {db₀ db : Data} {request : RefundRequest}

/-- The grant raises the balance once. -/
theorem CreditRefundKept.grant {ws : List RowWrite} (h : CreditRefundKept db₀ request db)
    (hv : locking.valid db) (hfits : locking.fitsAll ws db)
    (hu : CreditsService.Unlogged (refundKey request.id) db)
    (hchange : CreditChange request.userId request.amount (some (refundKey request.id)) ws db) :
    CreditRefundKept db₀ request (postgres.applyAll ws db) := by
  have hlogged := hchange.logged_self hfits
  refine ⟨schema.le_trans h.le (locking.le_applyAll ws db), .inr ⟨hlogged, ?_⟩, fun _ _ _ => hlogged⟩
  have hold : balanceOf request.userId db = balanceOf request.userId db₀ := by
    rcases h.money with ⟨-, hbal⟩ | ⟨⟨row, hrow, hk⟩, -⟩
    · exact hbal
    · exact (hu row hrow hk).elim
  rw [hchange.balanceOf hv hfits, if_pos rfl, hold]

/-- The row of the request is processed only after the grant. -/
theorem CreditRefundKept.update {p : RefundPatch} (h : CreditRefundKept db₀ request db)
    (hp : ∀ old, (p.apply old).status = .PROCESSED → old.status ≠ .PROCESSED →
      CreditsService.Logged (refundKey request.id) db) :
    CreditRefundKept db₀ request (schema.apply (.update .refundRequests request.id p) db) := by
  have hlog : schema.apply (.update .refundRequests request.id p) db .creditTransactions =
      db .creditTransactions := Schema.apply_of_ne (by simp [Write.table])
  have hlogged : CreditsService.Logged (refundKey request.id)
        (schema.apply (.update .refundRequests request.id p) db) ↔
      CreditsService.Logged (refundKey request.id) db := by
    rw [CreditsService.Logged, hlog, CreditsService.Logged]
  have hunlogged : CreditsService.Unlogged (refundKey request.id)
        (schema.apply (.update .refundRequests request.id p) db) ↔
      CreditsService.Unlogged (refundKey request.id) db := by
    rw [CreditsService.Unlogged, hlog, CreditsService.Unlogged]
  have hbal : balanceOf request.userId (schema.apply (.update .refundRequests request.id p) db) =
      balanceOf request.userId db := by
    rw [balanceOf, Schema.findBy_apply_of_ne (by simp [Write.table]), balanceOf]
  refine ⟨schema.le_trans h.le (schema.le_apply _ _), ?_, fun r hr hs => ?_⟩
  · rw [hunlogged, hlogged, hbal]
    exact h.money
  · obtain ⟨old, hold, rfl⟩ := find_refundUpdate hr
    rw [hlogged]
    by_cases hwas : old.status = .PROCESSED
    · exact h.processed old hold hwas
    · exact hp old hs hwas

end Steps

/-- Every call keeps the money of the request. -/
theorem wp_processRefund_credits {db₀ : Data} {request : RefundRequest}
    (hrequest : schema.find .refundRequests request.id db₀ = some request)
    (htype : request.type = .CREDITS) (db : Data) :
    (keyProtocol (CreditRefundKept db₀ request)).wp (RefundsService.processRefund request.id)
      (fun _ _ _ => True) {} db := by
  refine RefundsService.wp_processRefund _
    (G := fun _ _ db => CreditsService.Logged (refundKey request.id) db) (fun _ _ _ => trivial)
    (fun seen db₁ hs₁ hseen _ => ?_) (fun seen message now events db₁ db₂ _ hs₂ => ?_)
    (fun seen r now events db₁ db₂ _ hv₁ hg hs₂ => ⟨?_, trivial⟩)
  · -- the request still asks for what it asked for
    have hsame := sameRequest_of_le hs₁.inv.le hrequest hseen
    have hdispatch : RefundsService.dispatch seen = RefundsService.processCreditRefund seen := by
      unfold RefundsService.dispatch
      rw [hsame.type, htype]
    rw [hdispatch]
    unfold RefundsService.processCreditRefund CreditsService.refundCredits
    rw [hsame.id, hsame.userId, hsame.amount, Protocol.wp_bind]
    refine Protocol.wp_mono _ (fun r c' db' hr => ?_) (wp_grantCredits_keys ?_)
    · cases r with
      | ok a => exact fun _ _ => hr a rfl
      | error e => exact nofun
    · intro db ws user n hv hi hfits hu huser hamount hchange
      obtain rfl : request.userId = user := by simpa using huser
      obtain rfl : request.amount = n := by simpa using hamount
      exact hi.grant hv hfits hu hchange
  · refine ⟨hs₂.inv.update fun old hs hne => (hne hs).elim, fun k _ hu => ?_⟩
    rw [CreditsService.Unlogged, Schema.apply_of_ne (by simp [Write.table])]
    exact hu
  · refine ⟨hs₂.inv.update fun _ _ _ => hg.mono hv₁ hs₂.le, fun k _ hu => ?_⟩
    rw [CreditsService.Unlogged, Schema.apply_of_ne (by simp [Write.table])]
    exact hu

/-- In every run of calls that process an approved refund of credits, in which
no two open transactions have missed the same key, the balance of the user is
raised by the amount of the refund at most, and by exactly that amount once the
refund is processed. -/
theorem creditRefund_once {ι : Type} [DecidableEq ι] (db : Database) (request : RefundRequest)
    (hrequest : schema.find .refundRequests request.id db.rows = some request)
    (htype : request.type = .CREDITS) (hstatus : request.status = .APPROVED)
    (hamount : 0 < request.amount)
    (hkey : CreditsService.Unlogged (refundKey request.id) db.rows)
    (s : Sys Stmt Data RowWrite RowLock Err RefundRequest ι)
    (h : Runs postgres NoSharedMiss (refundSystem db request.id fun _ => .process) s) :
    balanceOf request.userId s.db ≤ balanceOf request.userId db.rows + request.amount ∧
      ∀ r, schema.find .refundRequests request.id s.db = some r → r.status = .PROCESSED →
        balanceOf request.userId s.db = balanceOf request.userId db.rows + request.amount := by
  have hstart : CreditRefundKept db.rows request db.rows := by
    refine ⟨Schema.le_refl _, .inl ⟨hkey, rfl⟩, fun r hr hs => ?_⟩
    rw [hrequest] at hr
    obtain rfl := Option.some.inj hr
    rw [hstatus] at hs
    cases hs
  have hsafe : (keyContract (CreditRefundKept db.rows request) ι).Safe (fun _ _ _ _ => True)
      (refundSystem db request.id fun _ => .process) :=
    .start db.valid hstart (fun _ _ _ _ hmiss => (hmiss.1 rfl).elim)
      fun _ => wp_processRefund_credits hrequest htype _
  have hclean : Runs postgres (keyContract (CreditRefundKept db.rows request) ι).Clean
      (refundSystem db request.id fun _ => .process) s :=
    h.mono fun _ _ _ hmiss _ j hj _ key => hmiss j hj key
  have hkept := (hsafe.runs (T := fun _ _ => True) (fun _ _ _ _ _ _ _ _ h => h) (fun _ => trivial)
    (fun _ _ => trivial) (fun _ _ _ _ => trivial) hclean).1.inv
  rcases hkept.money with ⟨hu, hbal⟩ | ⟨-, hbal⟩
  · refine ⟨by omega, fun r hr hs => ?_⟩
    obtain ⟨row, hrow, hk⟩ := hkept.processed r hr hs
    exact (hu row hrow hk).elim
  · exact ⟨by omega, fun _ _ _ => hbal⟩

/-! ## Two calls for one request -/

/-- A request for 50 credits. -/
def fiftyCredits : RefundRequest where
  id := "r1"
  userId := "user"
  type := .CREDITS
  amount := 50
  reason := "unused"
  status := .APPROVED
  reviewedBy := some "test-admin-1"
  reviewedAt := some 0
  reviewNotes := none
  paymentRefundId := none
  gatewayType := none
  originalGatewayTransactionId := none
  processAttempts := 0
  lastProcessError := none

/-- A database in which it has been approved. -/
def approvedCredits : Database :=
  .ofWrites [.insert .users ⟨"user"⟩, .insert .users ⟨"test-admin-1"⟩,
    .insert .refundRequests fiftyCredits] (by decide)

/-- The second call begins when the first is done with the credits. -/
def processInTurn : List (Fin 2 × Choice Env) :=
  (["a", "a", "a", "c1", "t1", "a", "a"].map fun id => (0, .go (.ordinary id))) ++
    [(1, .go (.ordinary "b"))]

/-- Both calls look the key up before either commits. -/
def processAtOnce : List (Fin 2 × Choice Env) :=
  (["a", "a", "a"].map fun id => (0, .go (.ordinary id))) ++
    (["b", "b", "b"].map fun id => (1, .go (.ordinary id))) ++
    (["c1", "t1", "a", "a"].map fun id => (0, .go (.ordinary id))) ++
    (["c2", "t2", "b", "b"].map fun id => (1, .go (.ordinary id)))

/-- Calls that follow each other grant the credits once. -/
theorem processInTurn_once :
    ∃ s, Runs postgres NoSharedMiss
        (refundSystem approvedCredits fiftyCredits.id fun _ : Fin 2 => .process) s ∧
      hasBalance "user" 50 s.db = true ∧
      balanceOf "user" s.db ≤ balanceOf "user" approvedCredits.rows + 50 ∧
      ∀ r, schema.find .refundRequests "r1" s.db = some r → r.status = .PROCESSED →
        balanceOf "user" s.db = balanceOf "user" approvedCredits.rows + 50 := by
  have hplay : (replay postgres alone processInTurn
      (refundSystem approvedCredits fiftyCredits.id fun _ => .process)).any
      (fun s => hasBalance "user" 50 s.db) = true := by decide +kernel
  obtain ⟨s, hs, hbal⟩ := exists_run_of_replay noSharedMiss_of_alone hplay
  exact ⟨s, hs, hbal, creditRefund_once approvedCredits fiftyCredits rfl rfl rfl (by decide)
    (by intro row hrow; cases hrow) s hs⟩

/-- Some interleaving of two calls grants the credits twice. -/
theorem processAtOnce_twice :
    ∃ s, Runs postgres AnyStep
        (refundSystem approvedCredits fiftyCredits.id fun _ : Fin 2 => .process) s ∧
      ¬balanceOf "user" s.db ≤ balanceOf "user" approvedCredits.rows + 50 := by
  have hplay : (replay postgres anyTime processAtOnce
      (refundSystem approvedCredits fiftyCredits.id fun _ => .process)).any
      (fun s => hasBalance "user" 100 s.db) = true := by decide +kernel
  obtain ⟨s, hs, hbal⟩ := exists_run hplay
  have hstart : balanceOf "user" approvedCredits.rows = 0 := by decide
  have hend : balanceOf "user" s.db = 100 := of_decide_eq_true hbal
  exact ⟨s, hs, by omega⟩

end PaymentBilling
