import PaymentBilling.Safety.CreditRefund
import PaymentBilling.Transact.Checked

/-!
# Safety.RefundStatus

Any number of calls on one refund request: the statuses it goes through.

Each call compares the status and writes another one in a later statement that
asks for the row only.  While no two calls have passed their checks with
different goals, the statuses follow the intended order, and money is only
moved under a request that is approved.
-/

namespace PaymentBilling

open Relational Transact

/-- The statuses that may follow a status. -/
def RefundStatus.next : RefundStatus → List RefundStatus
  | PENDING => [APPROVED, DENIED]
  | APPROVED => [PROCESSED]
  | DENIED => []
  | PROCESSED => []

/-- The status that a call sets. -/
def RefundCall.goal : RefundCall → RefundStatus
  | approve .. => .APPROVED
  | deny .. => .DENIED
  | process => .PROCESSED

/-- The status of the request `id`, and the reads that check it. -/
def refundCheck (id : String) : Check Stmt Err Data RefundStatus where
  status db := (schema.find .refundRequests id db).map (·.status)
  reads e current := ∃ r, e = RefundsService.readEvent id r ∧ r.status = current
  passes current goal := goal ∈ current.next

/-- No money has been moved for the request: the gateway has not refunded, and
neither the ledger nor the credits know of it. -/
structure Unmoved (id : String) (db : Data) : Prop where
  gateway : schema.find .gatewayRefunds (refundKey id) db = none
  ledger : ∀ t ∈ db .ledgerTransactions, t.idempotencyKey ≠ some (refundLedgerKey id)
  credits : CreditsService.Unlogged (refundKey id) db

/-- Money is only moved for a request that has been approved. -/
def MovedWhenApproved (id : String) (db : Data) : Prop :=
  ∀ r, schema.find .refundRequests id db = some r → r.status = .PENDING ∨ r.status = .DENIED →
    Unmoved id db

section Calls

variable {id : String} {db : Data} {c : LocalState}

/-- A client that has read the request has passed its check. -/
theorem passed_of_read (id : String) {call : RefundCall} {seen : RefundRequest}
    (stack : List (Tx RowWrite RowLock)) (events trace : List (Event Stmt Err))
    (h : call.goal ∈ seen.status.next) :
    (refundCheck id).Passed call.goal
      ⟨stack, events ++ RefundsService.readEvent id seen :: trace⟩ :=
  ⟨_, List.mem_append_right _ (.head _), _, ⟨seen, rfl, rfl⟩, h⟩

theorem allows_of_find {call : RefundCall} {seen : RefundRequest}
    (hseen : schema.find .refundRequests id db = some seen) (h : call.goal ∈ seen.status.next) :
    (refundCheck id).Allows call.goal db := by
  intro current hcur
  have hcur : (schema.find .refundRequests id db).map (·.status) = some current := hcur
  rw [hseen] at hcur
  exact .inl (Option.some.inj hcur ▸ h)

/-- A request that may be denied is pending or denied. -/
theorem open_of_allows {status : RefundStatus} (ha : (refundCheck id).Allows .DENIED db)
    (h : (refundCheck id).status db = some status) : status = .PENDING ∨ status = .DENIED := by
  rcases ha status h with hpass | rfl
  · cases status <;> simp [refundCheck, RefundStatus.next] at hpass ⊢
  · exact .inr rfl

/-- A request that may be processed is approved or processed. -/
theorem approved_of_allows {status : RefundStatus} (ha : (refundCheck id).Allows .PROCESSED db)
    (h : (refundCheck id).status db = some status) : status = .APPROVED ∨ status = .PROCESSED := by
  rcases ha status h with hpass | rfl
  · cases status <;> simp [refundCheck, RefundStatus.next] at hpass ⊢
  · exact .inr rfl

/-- An update of a request changes the request only. -/
theorem Unmoved.update {p : RefundPatch} (h : Unmoved id db) :
    Unmoved id (schema.apply (.update .refundRequests id p) db) := by
  constructor
  · rw [Schema.find, apply_update_other (by decide)]
    exact h.gateway
  · rw [apply_update_other (by decide)]
    exact h.ledger
  · rw [CreditsService.Unlogged, apply_update_other (by decide)]
    exact h.credits

/-- An update that sets the goal of the client. -/
theorem keeps_goal {call : RefundCall} {p : RefundPatch} (hp : (refundCheck id).Passed call.goal c)
    (ha : (refundCheck id).Allows call.goal db) (hi : MovedWhenApproved id db)
    (hfound : ∃ r, schema.find .refundRequests id db = some r)
    (hset : ∀ r, (p.apply r).status = call.goal) :
    ((refundCheck id).protocol locking (MovedWhenApproved id) call.goal).Keeps c db
      (schema.apply (.update .refundRequests id p) db) := by
  obtain ⟨r, hr⟩ := hfound
  refine Check.keeps_of_set hp ha (fun r' hr' hopen => ?_) ?_
  · -- a request that is now denied was pending or denied before
    obtain ⟨old, hold, rfl⟩ := find_refundUpdate hr'
    rw [hset] at hopen
    refine (hi old hold ?_).update
    have hcur : (refundCheck id).status db = some old.status := by simp [refundCheck, hold]
    cases call with
    | approve => rcases hopen with h | h <;> cases h
    | process => rcases hopen with h | h <;> cases h
    | deny => exact open_of_allows ha hcur
  · show (schema.find .refundRequests id _).map (·.status) = _
    rw [find_refundPatch, hr, Option.map_some, Option.map_some, hset]

/-- An update that leaves the status alone. -/
theorem keeps_status {call : RefundCall} {p : RefundPatch} (hi : MovedWhenApproved id db)
    (hsame : ∀ r, (p.apply r).status = r.status) :
    ((refundCheck id).protocol locking (MovedWhenApproved id) call.goal).Keeps c db
      (schema.apply (.update .refundRequests id p) db) := by
  refine Check.keeps_of_same (fun r' hr' hopen => ?_) ?_
  · obtain ⟨old, hold, rfl⟩ := find_refundUpdate hr'
    rw [hsame] at hopen
    exact (hi old hold hopen).update
  · show (schema.find .refundRequests id _).map (·.status) =
      (schema.find .refundRequests id db).map (·.status)
    rw [find_refundPatch, Option.map_map]
    exact congrFun (congrArg Option.map (funext hsame)) _

/-- The writes that move the money leave the status alone. -/
theorem status_of_keepsStatus {ws : List RowWrite} (h : ∀ w ∈ ws, RefundsService.KeepsStatus w) :
    (refundCheck id).status (postgres.applyAll ws db) = (refundCheck id).status db := by
  induction ws generalizing db with
  | nil => rfl
  | cons w ws ih =>
      rw [List.forall_mem_cons] at h
      rw [Engine.applyAll_cons, ih h.2]
      show (schema.find .refundRequests id (schema.apply w db)).map (·.status) =
        (schema.find .refundRequests id db).map (·.status)
      rcases h.1 with hother | ⟨id', gid, rfl⟩
      · rw [Schema.find_apply_of_ne hother.symm]
      · rw [Schema.find_update, Option.map_map]
        refine congrFun (congrArg Option.map (funext fun r => ?_)) _
        by_cases hid : schema.id (t := .refundRequests) r = id'
        · subst hid
          have hrev : schema.revise (t := .refundRequests) (schema.id (t := .refundRequests) r)
              (RefundPatch.paymentRefundId gid) r =
                schema.patch (t := .refundRequests) (RefundPatch.paymentRefundId gid) r :=
            Schema.revise_self
          exact (congrArg RefundRequest.status hrev).trans rfl
        · exact congrArg RefundRequest.status (Schema.revise_of_ne hid)

/-- Every call changes the status only after its check, and moves money only
after the check as well. -/
theorem wp_refundCall_status (call : RefundCall) (db : Data) :
    ((refundCheck id).protocol locking (MovedWhenApproved id) call.goal).wp (call.run id)
      (fun _ _ _ => True) {} db := by
  -- the row that a review has read is still there when it is written
  have hreview : ∀ {call : RefundCall} {seen : RefundRequest} {now : Int} {db₁ db₂ : Data}
      {data : RefundUpdate}, schema.find .refundRequests id db₁ = some seen →
      call.goal ∈ seen.status.next → (∀ r, ((data.patch now).apply r).status = call.goal) →
      ((refundCheck id).protocol locking (MovedWhenApproved id) call.goal).Sees
        ⟨[], [] ++ RefundsService.readEvent id seen :: []⟩ db₁ db₂ →
      ((refundCheck id).protocol locking (MovedWhenApproved id) call.goal).Keeps
        ⟨[], [] ++ RefundsService.readEvent id seen :: []⟩ db₂
        (schema.apply (.update .refundRequests id (data.patch now)) db₂) := by
    intro call seen now db₁ db₂ data hseen hpass hset hs
    obtain ⟨r, hr, -⟩ := hs.le _ _ _ hseen
    have hpassed := passed_of_read id [] [] [] hpass
    exact keeps_goal hpassed (hs.env hpassed (allows_of_find hseen hpass)) hs.inv ⟨r, hr⟩ hset
  cases call with
  | approve adminId notes =>
      refine RefundsService.wp_review _ (fun _ _ _ => trivial)
        fun seen r now db₁ db₂ _ hseen hpending hs => ⟨hreview hseen ?_ (fun _ => rfl) hs, trivial⟩
      rw [hpending]
      exact .head _
  | deny adminId notes =>
      show Protocol.wp _ (RefundsService.denyRefund _ _ _) _ _ _
      unfold RefundsService.denyRefund
      split
      · trivial
      · refine RefundsService.wp_review _ (fun _ _ _ => trivial)
          fun seen r now db₁ db₂ _ hseen hpending hs => ⟨hreview hseen ?_ (fun _ => rfl) hs, trivial⟩
        rw [hpending]
        exact .tail _ (.head _)
  | process =>
      refine RefundsService.wp_processRefund _
        (G := fun _ _ db => (refundCheck id).Allows .PROCESSED db ∧
          ∃ r, schema.find .refundRequests id db = some r)
        (fun _ _ _ => trivial) (fun seen db₁ hs₁ hseen happroved => ?_)
        (fun seen message now events db₁ db₂ _ hs₂ => keeps_status hs₂.inv fun _ => rfl)
        (fun seen r now events db₁ db₂ happroved _ hg hs₂ => ⟨?_, trivial⟩)
      · have hpass : RefundCall.process.goal ∈ seen.status.next := by rw [happroved]; exact .head _
        refine Check.wp_of_passed (passed_of_read id _ [] _ hpass) (allows_of_find hseen hpass) ?_
        refine Protocol.wp_mono _ (fun r c' db₂ hr hallow _ _ => ⟨hallow, ?_⟩)
          (Protocol.wp_only _ RefundsService.keepsStatus_of_exec (fun c' db ws _ hw _ hi _ => ?_)
            (RefundsService.dispatch_only seen))
        · obtain ⟨r₂, hr₂, -⟩ := hr.2.le _ _ _ hseen
          exact ⟨r₂, hr₂⟩
        · -- the request is approved or processed, so nothing is claimed about its money
          have hstatus : (refundCheck id).status (postgres.applyAll ws db) = (refundCheck id).status db :=
            status_of_keepsStatus hw
          refine Check.passedKeeps_of_same hi.2 (fun r' hr' hopen => ?_) hstatus
          have hcur : (refundCheck id).status db = some r'.status := by
            rw [← hstatus]
            simp [refundCheck, hr']
          rcases approved_of_allows hi.2 hcur with h | h <;> rw [h] at hopen <;>
            rcases hopen with h | h <;> cases h
      · have hpass : RefundCall.process.goal ∈ seen.status.next := by rw [happroved]; exact .head _
        have hpassed := passed_of_read id [] events [] hpass
        obtain ⟨r₁, hr₁⟩ := hg.2
        obtain ⟨r₂, hr₂, -⟩ := hs₂.le _ _ _ hr₁
        exact keeps_goal hpassed (hs₂.env hpassed hg.1) hs₂.inv ⟨r₂, hr₂⟩ fun _ => rfl

end Calls

/-- In every run of calls on one refund request in which no two unfinished
calls have passed their checks with different goals, each step changes the
status as intended, and no money has been moved for a request that is denied. -/
theorem refundStatus_followed {ι : Type} [DecidableEq ι] (db : Database) (id : String)
    (calls : ι → RefundCall) (hmoved : MovedWhenApproved id db.rows)
    (s : Sys Stmt Data RowWrite RowLock Err RefundRequest ι)
    (h : Runs postgres ((refundCheck id).OneGoal fun i => (calls i).goal)
      (refundSystem db id calls) s) :
    (∀ i s', Step postgres s i s' → (refundCheck id).Follows s.db s'.db) ∧
      (hasStatus id .DENIED s.db = true → Unmoved id s.db) := by
  have hsafe := Check.safe_of_runs (D := locking) db.valid hmoved
    (fun i => wp_refundCall_status (calls i) _) h
  refine ⟨fun i s' hstep => Check.follows_of_step hsafe hstep, fun hdenied => ?_⟩
  obtain ⟨r, hr, hs⟩ := hasStatus_iff.mp hdenied
  exact hsafe.inv r hr (.inr hs)

/-! ## Three calls for one request -/

/-- A request for 50 credits that nobody has reviewed. -/
def unreviewedCredits : RefundRequest :=
  { fiftyCredits with status := .PENDING, reviewedBy := none, reviewedAt := none }

/-- A database in which it has been made. -/
def requestedCredits : Database :=
  .ofWrites [.insert .users ⟨"user"⟩, .insert .users ⟨"test-admin-1"⟩,
    .insert .refundRequests unreviewedCredits] (by decide)

/-- One admin approves, another denies, and the request is processed. -/
def threeCalls (i : Fin 3) : RefundCall :=
  if i = 0 then .approve "test-admin-1" none
  else if i = 1 then .deny "test-admin-1" "unused"
  else .process

/-- The request is processed after its approval. -/
def approveThenProcess : List (Fin 3 × Choice Env) :=
  List.replicate 2 (0, .go (.ordinary "a")) ++ List.replicate 7 (2, .go (.ordinary "b"))

/-- The denial has read the request before it is approved, and is written after
the request is processed. -/
def denyLast : List (Fin 3 × Choice Env) :=
  [(1, .go (.ordinary "c"))] ++ List.replicate 2 (0, .go (.ordinary "a")) ++
    List.replicate 7 (2, .go (.ordinary "b")) ++ [(1, .go (.ordinary "c"))]

/-- Whether a request is denied although its credits have been granted. -/
def deniedAndGranted (id : String) (db : Data) : Bool :=
  hasStatus id .DENIED db && loggedTimes 1 (refundKey id) db

/-- Calls that follow each other lead to a processed request. -/
theorem approveThenProcess_followed :
    ∃ s, Runs postgres ((refundCheck "r1").OneGoal fun i => (threeCalls i).goal)
        (refundSystem requestedCredits "r1" threeCalls) s ∧
      hasStatus "r1" .PROCESSED s.db = true ∧
      (∀ i s', Step postgres s i s' → (refundCheck "r1").Follows s.db s'.db) ∧
      (hasStatus "r1" .DENIED s.db = true → Unmoved "r1" s.db) := by
  have hplay : (replay postgres alone approveThenProcess
      (refundSystem requestedCredits "r1" threeCalls)).any
      (fun s => hasStatus "r1" .PROCESSED s.db) = true := by decide +kernel
  obtain ⟨s, hs, hprocessed⟩ := exists_run_of_replay Check.oneGoal_of_alone hplay
  refine ⟨s, hs, hprocessed, refundStatus_followed requestedCredits "r1" threeCalls ?_ s hs⟩
  intro r hr _
  exact ⟨rfl, (by intro t ht; cases ht), (by intro row hrow; cases hrow)⟩

/-- Some interleaving denies a request whose credits have been granted. -/
theorem denyLast_moved :
    ∃ s, Runs postgres AnyStep (refundSystem requestedCredits "r1" threeCalls) s ∧
      hasStatus "r1" .DENIED s.db = true ∧ ¬Unmoved "r1" s.db := by
  have hplay : (replay postgres anyTime denyLast
      (refundSystem requestedCredits "r1" threeCalls)).any
      (fun s => deniedAndGranted "r1" s.db) = true := by decide +kernel
  obtain ⟨s, hs, hend⟩ := exists_run hplay
  obtain ⟨hdenied, hlogged⟩ := Bool.and_eq_true_iff.mp hend
  refine ⟨s, hs, hdenied, fun hmoved => ?_⟩
  have hone := of_decide_eq_true hlogged
  have hnone : (s.db .creditTransactions).filter (·.idempotencyKey = some (refundKey "r1")) = [] := by
    simpa [List.filter_eq_nil_iff, CreditsService.Unlogged] using hmoved.credits
  rw [hnone] at hone
  cases hone

end PaymentBilling
