import PaymentBilling.Spec.Disputes
import PaymentBilling.Transact.Checked

/-!
# Safety.DisputeStatus

Any number of calls on one dispute: whether its outcome is final.

The status is read before the transaction that writes the money and the new
status, and the update asks for the row only.  While no two calls have passed
their checks with different goals, an outcome is never changed and the ledger
knows of one outcome only.
-/

namespace PaymentBilling

open Relational Transact

/-- The status that a call sets. -/
def DisputeCall.goal : DisputeCall → DisputeStatus
  | evidence .. => .EVIDENCE_SUBMITTED
  | outcome o => o.status

/-- The status of the dispute `id`, and the reads that check it. -/
def disputeCheck (id : String) : Check Stmt Err Data DisputeStatus where
  status db := (schema.find .disputes id db).map (·.status)
  reads e current := ∃ d, e = DisputesService.readEvent id d ∧ d.status = current
  passes current goal := goal ∈ (DisputesService.DISPUTE_TRANSITIONS current).getD []

/-- The ledger has the transaction of an outcome. -/
def OutcomeBooked (id : String) (outcome : DisputeOutcome) (db : Data) : Prop :=
  ∃ t ∈ db .ledgerTransactions, t.idempotencyKey = some (outcomeKey id outcome)

/-- The ledger knows of no outcome but that of the dispute. -/
def BookedAsResolved (id : String) (db : Data) : Prop :=
  ∀ outcome, OutcomeBooked id outcome db → (disputeCheck id).status db = some outcome.status

theorem outcome_final (outcome : DisputeOutcome) (next : DisputeStatus) :
    next ∉ (DisputesService.DISPUTE_TRANSITIONS outcome.status).getD [] := by
  cases outcome <;> exact List.not_mem_nil

section Steps

variable {id : String} {db : Data} {c : LocalState}

/-- A dispute whose outcome may be set has no other outcome. -/
theorem eq_of_allows {outcome outcome' : DisputeOutcome}
    (ha : (disputeCheck id).Allows outcome.status db)
    (h : (disputeCheck id).status db = some outcome'.status) : outcome' = outcome := by
  rcases ha _ h with hpass | heq
  · exact (outcome_final _ _ hpass).elim
  · cases outcome <;> cases outcome' <;> first | rfl | cases heq

theorem disputeStatus_of_other {db' : Data} (h : db' .disputes = db .disputes) :
    (disputeCheck id).status db' = (disputeCheck id).status db := by
  show (schema.find .disputes id db').map _ = (schema.find .disputes id db).map _
  rw [Schema.find, h, Schema.find]

/-- Changes of other tables leave the outcome alone. -/
theorem BookedAsResolved.other {db' : Data} (h : BookedAsResolved id db)
    (hledger : db' .ledgerTransactions = db .ledgerTransactions)
    (hdisputes : db' .disputes = db .disputes) : BookedAsResolved id db' := by
  intro outcome hbooked
  rw [OutcomeBooked, hledger] at hbooked
  rw [disputeStatus_of_other hdisputes]
  exact h outcome hbooked

/-- The commit of an outcome sets the status. -/
theorem disputeStatus_of_resolved {dispute : Dispute} {fee : Int} {outcome : DisputeOutcome}
    {ws : List RowWrite} (hfits : locking.fitsAll ws db)
    (hresolved : DisputesService.Resolved dispute fee outcome ws db) :
    (disputeCheck dispute.id).status (postgres.applyAll ws db) = some outcome.status := by
  obtain ⟨txn, ws₁, ws₂, now, rfl, -, -⟩ := hresolved.split
  rw [locking.fitsAll_append, locking.fitsAll_append] at hfits
  obtain ⟨old, hold, -⟩ := Schema.accepts_update.mp hfits.2.2.1
  show (schema.find .disputes dispute.id _).map (·.status) = _
  rw [postgres.applyAll_append, postgres.applyAll_append, applyAll_single, find_disputePatch, hold]
  rfl

/-- The commit of an outcome. -/
theorem BookedAsResolved.resolve {dispute : Dispute} {fee : Int} {outcome : DisputeOutcome}
    {ws : List RowWrite} (h : BookedAsResolved dispute.id db) (hv : locking.valid db)
    (hfits : locking.fitsAll ws db) (ha : (disputeCheck dispute.id).Allows outcome.status db)
    (hresolved : DisputesService.Resolved dispute fee outcome ws db) :
    BookedAsResolved dispute.id (postgres.applyAll ws db) ∧
      (disputeCheck dispute.id).status (postgres.applyAll ws db) = some outcome.status := by
  have hstatus := disputeStatus_of_resolved hfits hresolved
  obtain ⟨txn, ws₁, ws₂, now, rfl, hx, hcredits⟩ := hresolved.split
  rw [locking.fitsAll_append, locking.fitsAll_append] at hfits
  have hother : ∀ {t : Table}, t ∉ creditTables → ∀ db,
      postgres.applyAll ws₂ db t = db t := fun ht db =>
    applyAll_other fun w hw he => ht (he ▸ hcredits w hw)
  have hkey : (DisputesService.outcomeTransfer dispute fee outcome).key =
      some (outcomeKey dispute.id outcome) := by cases outcome <;> rfl
  refine ⟨fun outcome' hbooked => ?_, hstatus⟩
  rw [hstatus]
  obtain ⟨t, ht, hk⟩ := hbooked
  have hledger : postgres.applyAll (ws₁ ++ (ws₂ ++
      [.update .disputes dispute.id (DisputePatch.resolve outcome.status now)])) db
        .ledgerTransactions = postgres.applyAll ws₁ db .ledgerTransactions := by
    rw [postgres.applyAll_append, postgres.applyAll_append, applyAll_single,
      apply_update_other (by decide), hother (by decide)]
  rw [hledger] at ht
  -- an older transaction belongs to the present status, the new one to the outcome
  rcases hx.transactions hv hfits.1 with ⟨he, -⟩ | ⟨he, hnew, -⟩
  · rw [he] at ht
    rw [eq_of_allows ha (h outcome' ⟨t, ht, hk⟩)]
  · rw [he, List.mem_append, List.mem_singleton] at ht
    rcases ht with ht | rfl
    · rw [eq_of_allows ha (h outcome' ⟨t, ht, hk⟩)]
    · rw [hkey, hk] at hnew
      rw [(outcomeKey_inj (Option.some.inj hnew)).2]

end Steps

section Calls

variable {id : String} {db : Data}

theorem passed_of_readDispute {goal : DisputeStatus} {seen : Dispute} {c : LocalState}
    {trace : List (Event Stmt Err)}
    (hc : ∃ events, c.trace = events ++ DisputesService.readEvent id seen :: trace)
    (h : goal ∈ (DisputesService.DISPUTE_TRANSITIONS seen.status).getD []) :
    (disputeCheck id).Passed goal c := by
  obtain ⟨events, hc⟩ := hc
  refine ⟨DisputesService.readEvent id seen, ?_, _, ⟨seen, rfl, rfl⟩, h⟩
  rw [hc]
  exact List.mem_append_right _ (.head _)

theorem allows_of_findDispute {goal : DisputeStatus} {seen : Dispute}
    (hseen : schema.find .disputes id db = some seen)
    (h : goal ∈ (DisputesService.DISPUTE_TRANSITIONS seen.status).getD []) :
    (disputeCheck id).Allows goal db := by
  intro current hcur
  have hcur : (schema.find .disputes id db).map (·.status) = some current := hcur
  rw [hseen] at hcur
  exact .inl (Option.some.inj hcur ▸ h)

/-- An outcome is set only after its check. -/
theorem wp_setOutcome_status (outcome : DisputeOutcome) :
    ((disputeCheck id).protocol locking (BookedAsResolved id) outcome.status).wp
      (DisputesService.setOutcome id outcome) (fun _ _ _ => True) {} db := by
  refine DisputesService.wp_setOutcome _ (fun _ _ _ _ => trivial) fun seen db₁ hs₁ hseen hpass => ?_
  have hid : seen.id = id := Schema.id_of_find hseen
  refine Check.wp_of_passed (passed_of_readDispute ⟨[], rfl⟩ hpass) (allows_of_findDispute hseen hpass)
    ?_
  -- the commit sets the goal
  have hcommit : ∀ {fee : Int} {t : Tx RowWrite RowLock} {c : LocalState} {db : Data},
      c.stack = [t] → (∃ events, c.trace = events ++ [DisputesService.readEvent id seen]) →
      ((disputeCheck id).passedProtocol locking (BookedAsResolved id) outcome.status).Sees c db db →
      locking.fitsAll t.writes db → DisputesService.Resolved seen fee outcome t.writes db →
      ((disputeCheck id).passedProtocol locking (BookedAsResolved id) outcome.status).Keeps c db
        (postgres.view t db) := by
    intro fee t c db _ hpast hs hfits hresolved
    subst hid
    obtain ⟨hbooked, hstatus⟩ := hs.inv.1.resolve hs.valid hfits hs.inv.2 hresolved
    exact Check.passedKeeps_of_set (passed_of_readDispute hpast hpass) hs.inv.2 hbooked hstatus
  cases outcome with
  | WON =>
      refine DisputesService.wp_handleWon _ (fun c db ws _ hw _ hi _ => ?_) (fun _ _ _ _ => trivial)
        fun r t c' db' hstack hpast _ hs hfits hresolved =>
          ⟨hcommit hstack hpast hs hfits hresolved, fun _ => trivial⟩
      have hother : ∀ {t : Table}, t ∉ creditTables → postgres.applyAll ws db t = db t :=
        fun ht => applyAll_other fun w hin he => ht (he ▸ hw w hin)
      exact Check.passedKeeps_of_same hi.2 (hi.1.other (hother (by decide)) (hother (by decide)))
        (disputeStatus_of_other (hother (by decide)))
  | LOST =>
      exact DisputesService.wp_handleLost _ (fun _ _ _ _ => trivial)
        fun r t c' db₁ db' _ hstack hpast _ hs hfits hresolved =>
          ⟨hcommit hstack hpast hs hfits hresolved, fun _ => trivial⟩

/-- A dispute is marked as answered only after it was read as open. -/
theorem wp_attachEvidence_status (params : DisputeEvidenceCreate) :
    ((disputeCheck params.disputeId).protocol locking (BookedAsResolved params.disputeId)
      .EVIDENCE_SUBMITTED).wp (DisputesService.attachEvidence params) (fun _ _ _ => True) {} db := by
  refine DisputesService.wp_attachEvidence _ (fun _ _ _ => trivial) (fun _ _ _ => trivial)
    fun seen db₁ hs₁ hseen => ?_
  have hinsert : ∀ {row : DisputeEvidence} {db : Data} {t : Table}, t ≠ .disputeEvidence →
      schema.apply (.insert .disputeEvidence row) db t = db t := fun ht =>
    apply_insert_other ht _ _
  refine ⟨fun row db₂ hs₂ => Check.keeps_of_same (hs₂.inv.other (hinsert (by decide))
    (hinsert (by decide))) (disputeStatus_of_other (hinsert (by decide))), fun hopen row events db₂ db₃
    hs₂ hs₃ => ?_⟩
  have hpass : DisputeStatus.EVIDENCE_SUBMITTED ∈
      (DisputesService.DISPUTE_TRANSITIONS seen.status).getD [] := by
    rw [hopen]
    decide
  -- the check of the first statement still holds in the third
  have hallow₂ := hs₂.env (passed_of_readDispute ⟨[], rfl⟩ hpass) (allows_of_findDispute hseen hpass)
  have hpassed : (disputeCheck params.disputeId).Passed .EVIDENCE_SUBMITTED
      ⟨[], events ++ [DisputesService.readEvent params.disputeId seen]⟩ :=
    passed_of_readDispute ⟨events, rfl⟩ hpass
  have hallow₃ := hs₃.env hpassed
    (Check.allows_of_same (disputeStatus_of_other (hinsert (by decide))) hallow₂)
  obtain ⟨old₂, hold₂, -⟩ := dispute_of_le hs₂.le hseen
  obtain ⟨old₃, hold₃, -⟩ := dispute_of_le hs₃.le
    (show schema.find .disputes params.disputeId (schema.apply (.insert .disputeEvidence row) db₂) =
      some old₂ by rw [Schema.find, hinsert (by decide)]; exact hold₂)
  have hset : (disputeCheck params.disputeId).status
      (schema.apply (.update .disputes params.disputeId .evidenceSubmitted) db₃) =
      some .EVIDENCE_SUBMITTED := by
    show (schema.find .disputes params.disputeId _).map (·.status) = _
    rw [find_disputePatch, hold₃]
    rfl
  refine Check.keeps_of_set hpassed hallow₃ (fun outcome hbooked => ?_) hset
  -- a dispute with an outcome would not have passed the check
  rw [OutcomeBooked, apply_update_other (by decide)] at hbooked
  rcases hallow₃ _ (hs₃.inv outcome hbooked) with hpass' | heq
  · exact (outcome_final _ _ hpass').elim
  · cases outcome <;> cases heq

theorem wp_disputeCall_status (call : DisputeCall) :
    ((disputeCheck id).protocol locking (BookedAsResolved id) call.goal).wp (call.run id)
      (fun _ _ _ => True) {} db := by
  cases call with
  | evidence submittedBy evidenceType content metadata =>
      show Protocol.wp _ (DisputesService.attachEvidence _ >>= fun _ => pure ()) _ _ _
      rw [Protocol.wp_bind]
      refine Protocol.wp_mono _ (fun r c db _ => ?_)
        (wp_attachEvidence_status ⟨id, submittedBy, evidenceType, content, metadata⟩)
      cases r <;> trivial
  | outcome o =>
      show Protocol.wp _ (DisputesService.setOutcome _ _ >>= fun _ => pure ()) _ _ _
      rw [Protocol.wp_bind]
      refine Protocol.wp_mono _ (fun r c db _ => ?_) (wp_setOutcome_status o)
      cases r <;> trivial

end Calls

/-- In every run of calls on one dispute in which no two unfinished calls have
passed their checks with different goals, an outcome that is committed never
changes again, and the ledger has the transaction of one outcome at most. -/
theorem disputeOutcome_final {ι : Type} [DecidableEq ι] (db : Database) (id : String)
    (calls : ι → DisputeCall) (hbooked : BookedAsResolved id db.rows)
    (s : Sys Stmt Data RowWrite RowLock Err Unit ι)
    (h : Runs postgres ((disputeCheck id).OneGoal fun i => (calls i).goal)
      (disputeSystem db id calls) s) :
    (∀ s' (outcome : DisputeOutcome),
      Runs postgres ((disputeCheck id).OneGoal fun i => (calls i).goal) s s' →
      (disputeCheck id).status s.db = some outcome.status →
        (disputeCheck id).status s'.db = some outcome.status) ∧
      ¬(OutcomeBooked id .WON s.db ∧ OutcomeBooked id .LOST s.db) := by
  have hsafe := Check.safe_of_runs (D := locking) db.valid hbooked
    (fun i => wp_disputeCall_status (calls i)) h
  refine ⟨fun s' outcome hruns hstatus => ?_, fun ⟨hwon, hlost⟩ => ?_⟩
  · refine Check.final_of_runs hsafe (outcome_final outcome) (fun hle hcur => ?_) hruns hstatus
    obtain ⟨d, hd, -⟩ := Option.map_eq_some_iff.mp hcur
    obtain ⟨d', hd', -⟩ := dispute_of_le hle hd
    exact ⟨d'.status, Option.map_eq_some_iff.mpr ⟨d', hd', rfl⟩⟩
  · have hstatus := (hsafe.inv .WON hwon).symm.trans (hsafe.inv .LOST hlost)
    cases hstatus

/-! ## Both outcomes at once -/

/-- A dispute about 100 cents. -/
def hundredCents : Dispute where
  id := "d1"
  userId := "user"
  gateway := .AUTHORIZE_NET
  gatewayDisputeId := "an_dispute_charge_1"
  originalTransactionId := "charge_1"
  amount := 100
  reason := none
  status := .OPEN
  resolvedAt := none
  ledgerReversalTxnId := none

/-- A database in which it is open. -/
def openDispute : Database :=
  .ofWrites [.insert .users ⟨"user"⟩, .insert .users ⟨LedgerService.SYSTEM_USER_ID⟩,
    .insert .disputes hundredCents] (by decide)

/-- One admin sets the outcome `WON`, another `LOST`. -/
def bothOutcomes (i : Fin 2) : DisputeCall := .outcome (if i = 0 then .WON else .LOST)

/-- The second outcome is refused. -/
def wonThenRefused : List (Fin 2 × Choice Env) :=
  List.replicate 20 (0, .go (.ordinary "a")) ++ [(1, .go (.ordinary "b"))]

/-- Both admins find the dispute open. -/
def bothFindItOpen : List (Fin 2 × Choice Env) :=
  [(1, .go (.ordinary "b"))] ++ List.replicate 20 (0, .go (.ordinary "a")) ++
    List.replicate 15 (1, .go (.ordinary "b"))

/-- Whether the ledger has the transactions of both outcomes. -/
def bothBooked (id : String) (db : Data) : Bool :=
  (db .ledgerTransactions).any (·.idempotencyKey = some (outcomeKey id .WON)) &&
    (db .ledgerTransactions).any (·.idempotencyKey = some (outcomeKey id .LOST))

/-- Whether a dispute is in a status. -/
def disputeIs (id : String) (status : DisputeStatus) (db : Data) : Bool :=
  (disputeCheck id).status db = some status

/-- The outcome that is set first stays. -/
theorem wonThenRefused_final :
    ∃ s, Runs postgres ((disputeCheck "d1").OneGoal fun i => (bothOutcomes i).goal)
        (disputeSystem openDispute "d1" bothOutcomes) s ∧
      disputeIs "d1" .WON s.db = true ∧
      (∀ s' (outcome : DisputeOutcome),
        Runs postgres ((disputeCheck "d1").OneGoal fun i => (bothOutcomes i).goal) s s' →
        (disputeCheck "d1").status s.db = some outcome.status →
          (disputeCheck "d1").status s'.db = some outcome.status) ∧
      ¬(OutcomeBooked "d1" .WON s.db ∧ OutcomeBooked "d1" .LOST s.db) := by
  have hplay : (replay postgres alone wonThenRefused
      (disputeSystem openDispute "d1" bothOutcomes)).any
      (fun s => disputeIs "d1" .WON s.db) = true := by decide +kernel
  obtain ⟨s, hs, hwon⟩ := exists_run_of_replay Check.oneGoal_of_alone hplay
  refine ⟨s, hs, hwon, disputeOutcome_final openDispute "d1" bothOutcomes ?_ s hs⟩
  rintro outcome ⟨t, ht, -⟩
  cases ht

/-- Some interleaving books both outcomes. -/
theorem bothFindItOpen_booked :
    ∃ s, Runs postgres AnyStep (disputeSystem openDispute "d1" bothOutcomes) s ∧
      OutcomeBooked "d1" .WON s.db ∧ OutcomeBooked "d1" .LOST s.db := by
  have hplay : (replay postgres anyTime bothFindItOpen
      (disputeSystem openDispute "d1" bothOutcomes)).any
      (fun s => bothBooked "d1" s.db) = true := by decide +kernel
  obtain ⟨s, hs, hboth⟩ := exists_run hplay
  obtain ⟨hwon, hlost⟩ := Bool.and_eq_true_iff.mp hboth
  obtain ⟨t, ht, hk⟩ := List.any_eq_true.mp hwon
  obtain ⟨t', ht', hk'⟩ := List.any_eq_true.mp hlost
  exact ⟨s, hs, ⟨t, ht, of_decide_eq_true hk⟩, ⟨t', ht', of_decide_eq_true hk'⟩⟩

end PaymentBilling
