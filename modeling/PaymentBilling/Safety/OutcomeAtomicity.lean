import PaymentBilling.Safety.DisputeFee
import PaymentBilling.Safety.DisputeCredits
import PaymentBilling.Spec.CreditProgress
import PaymentBilling.Spec.Operations
import PaymentBilling.Spec.Plain

/-!
# Safety.OutcomeAtomicity

What a call of `setOutcome` leaves behind when it fails.

The credits of a dispute that is won are granted in a transaction of their own,
before the status is set.  A failure after the grant leaves them granted and
the dispute open, and the next call may set the other outcome.
-/

namespace PaymentBilling

open Relational Transact DisputesService

/-- The rows of a dispute, the ledger and the credits that a failed call has to
leave alone. -/
structure OutcomeKept (d : Dispute) (db db' : Data) : Prop where
  dispute : schema.find .disputes d.id db' = schema.find .disputes d.id db
  ledger : ∀ t ∈ ledgerTables, db' t = db t
  balance : balanceOf d.userId db' = balanceOf d.userId db
  log : db' .creditTransactions = db .creditTransactions

/-- Whatever makes the call fail, it leaves them alone. -/
def FailsKept (d : Dispute) (outcome : DisputeOutcome) (db : Data) : Prop :=
  ∀ e c' db', postgres.Ends anyFault (setOutcome d.id outcome) {} db (.error e) c' db' →
    OutcomeKept d db db'

/-- The ledger takes the reversal of a dispute that is won, and the grant of its
credits is new and fits. -/
structure RestoresCredits (d : Dispute) (db : Data) : Prop where
  admin : HasUser LedgerService.SYSTEM_USER_ID db
  books : KeyTaken (outcomeKey d.id .WON) db ∨ (HasRoom d.userId .ASSET .DEBIT d.amount db ∧
    HasRoom LedgerService.SYSTEM_USER_ID .REVENUE .CREDIT d.amount db)
  positive : 0 < d.amount
  unlogged : CreditsService.Unlogged (wonCreditKey d.id) db
  fits : CreditsFit d.userId d.amount db

section Won

variable {W : Env → Prop} {d d' : Dispute} {v db db' : Data}

theorem RestoresCredits.congr (hsame : SameDispute d d') (h : RestoresCredits d' db) :
    RestoresCredits d db := by
  obtain ⟨hadmin, hbooks, hpos, hnew, hfit⟩ := h
  rw [hsame.id, hsame.userId, hsame.amount] at hbooks
  rw [hsame.amount] at hpos
  rw [hsame.id] at hnew
  rw [hsame.userId, hsame.amount] at hfit
  exact ⟨hadmin, hbooks, hpos, hnew, hfit⟩

/-- The ledger part of a dispute that is won goes through only if the ledger
takes it. -/
theorem restoresCredits_of_booked {txn : LedgerTransaction} {ws : List RowWrite}
    (hv : schema.Valid db) (hfits : locking.fitsAll ws db)
    (hx : Transferred (outcomeTransfer d 0 .WON) txn ws db)
    (hgrant : CreditsService.Grants (.str d.userId) (.int d.amount) (wonCreditKey d.id) db) :
    RestoresCredits d db := by
  obtain ⟨user, n, huser, hamount, hpos, -, hnew, hfit⟩ := hgrant
  obtain rfl := Js.str.inj huser
  obtain rfl := Js.int_inj.mp hamount
  obtain ⟨_, admin, -, hadmin, -, hexists⟩ := hasUser_of_transferred hx hv hfits
  obtain rfl := Js.str.inj hadmin
  refine ⟨hexists, ?_, hpos, hnew, hfit⟩
  rcases hx.posted hv hfits with hunposted | ⟨hfresh, -⟩
  · have hknown : Unposted (some (outcomeKey d.id .WON)) db (postgres.applyAll ws db) := hunposted
    exact .inl (hknown.keyTaken hv)
  · have hslots := outcomeTransfer_slots d 0 .WON
    have hroom := room_of_transferred hx hv hfits hfresh hslots
      (show LedgerAccountType.ASSET ≠ .REVENUE by decide)
    exact .inr hroom

/-- And it does go through then. -/
theorem goes_bookWon (hv : schema.Valid v) (huser : HasUser d.userId v)
    (hamount : inInt32 d.amount = true) (h : RestoresCredits d v) :
    postgres.Goes (LocksOf ledgerTables) W (bookWon d) (fun _ _ => True) v := by
  refine LedgerService.goes_transfer hv (outcomeKey_ne d.id .WON) huser h.admin
    (h.books.imp_right fun hroom asset revenue v' hopened hasset hrevenue => ⟨?_, ?_⟩)
  · exact ownerKnown_of_hasUser (exists_find_mono hopened.le huser)
  · exact postable_pair hopened.valid hasset hrevenue (by decide) h.positive hamount
      (hopened.hasRoom.mpr hroom.1) (hopened.hasRoom.mpr hroom.2)

/-! ## A call that fails -/

/-- The credits are restored alone: nothing changes but what they are for. -/
theorem wp_restoreCredits_kept {c : LocalState} :
    soloProtocol.wp (restoreCredits d) (fun _ c' db' => c'.stack = c.stack ∧ (db' = db ∨
      CreditsService.Grants (.str d.userId) (.int d.amount) (wonCreditKey d.id) db)) c db := by
  rw [restoreCredits, Protocol.wp_tryCatch, Protocol.wp_bind]
  refine Protocol.wp_mono _ (fun r' c' db' hr => ?_) CreditsService.wp_grantCredits_kept
  cases r' with
  | ok _ => exact hr
  | error _ => exact hr

/-- A dispute is won, or the call fails and leaves everything as it was, unless
the credits could be restored. -/
theorem wp_handleWon_kept {trace : List (Event Stmt Err)} (hv : schema.Valid db) :
    soloProtocol.wp (handleWon d) (fun r _ db' =>
      (∀ e, r = .error e → db' = db ∨ RestoresCredits d db) ∧
      ∀ row, r = .ok row → ∃ now, schema.find .disputes d.id db' =
        (schema.find .disputes d.id db).map (DisputePatch.resolve .WON now).apply)
      ⟨[], trace⟩ db := by
  rw [handleWon_eq]
  have honly : Only anyStmt (restoreCredits d) 0 := anyStmt_of_only (restoreCredits_only d)
  have herror : soloProtocol.wp (transaction (bookWon d >>= fun _ => restoreCredits d >>= fun _ =>
      query (.disputeUpdate d.id (.resolve .WON)))) _ ⟨[], trace⟩ db := Protocol.wp_transaction_kept
    (M := fun _ => CreditsService.Grants (.str d.userId) (.int d.amount) (wonCreditKey d.id) db)
    (m := fun _ => restoreCredits d) (plain_bookWon d)
    (Protocol.wp_added hv .nil (plain_bookWon d) (does_bookWon soloProtocol d))
    (fun _ c₁ _ => Protocol.wp_mono _ (fun _ _ _ hr => ⟨fun _ _ => hr.1, hr.2⟩)
      wp_restoreCredits_kept) fun _ _ => plain_query _
  have hok : soloProtocol.wp (transaction (bookWon d >>= fun _ => restoreCredits d >>= fun _ =>
      query (.disputeUpdate d.id (.resolve .WON)))) _ ⟨[], trace⟩ db := Protocol.wp_transaction_alone
    (X := transferEffect (outcomeTransfer d 0 .WON)) (Y := fun _ _ => resolveEffect d.id .WON)
    (M := fun _ _ _ db' => db' .disputes = db .disputes)
    (m := fun _ => restoreCredits d) (fun K => does_bookWon (soloProtocol.knowing K) d)
    (fun _ => honly) (fun _ c₁ => Protocol.wp_mono _ (fun _ _ _ hr =>
      ⟨fun _ _ => hr.1.1, hr.2 _ (by decide)⟩)
      (Protocol.wp_and _ wp_restoreCredits_kept (wp_sameTables (restoreCredits_only d))))
    fun K _ _ _ => does_resolve (soloProtocol.knowing K) _ _
  refine Protocol.wp_mono _ (fun r c' db' hr => ⟨fun e he => ?_, fun row hrow => ?_⟩)
    (Protocol.wp_and _ herror hok)
  · refine (hr.1 e he).imp_right ?_
    rintro ⟨response, ⟨ws, hfits, hx⟩, hgrant⟩
    exact restoresCredits_of_booked hv hfits (transferred_of_rel hx) hgrant
  · obtain ⟨response, _, past, db₁, ws₁, ws₂, -, hsame, hv₁, hfits, hx, ⟨now, rfl⟩, rfl⟩ :=
      hr.2 row hrow
    refine ⟨now, ?_⟩
    rw [postgres.applyAll_append, applyAll_single, find_disputePatch, Schema.find,
      (transferred_of_rel hx).other (by decide), hsame, Schema.find]

/-- A call sets the outcome of an open dispute, or fails and leaves everything
as it was, unless the credits could be restored. -/
theorem wp_setOutcome_kept (id : String) (outcome : DisputeOutcome) (hv : schema.Valid db) :
    soloProtocol.wp (setOutcome id outcome) (fun r _ db' =>
      (∀ e, r = .error e → db' = db ∨ ∃ seen, schema.find .disputes id db = some seen ∧
        outcome = .WON ∧ RestoresCredits seen db) ∧
      ∀ row, r = .ok row → ∃ seen, schema.find .disputes id db = some seen ∧
        seen.status ≠ .WON ∧ match outcome with
          | .WON => ∃ now, schema.find .disputes id db' =
              some ((DisputePatch.resolve .WON now).apply seen)
          | .LOST => db' .creditTransactions = db .creditTransactions) {} db := by
  cases outcome with
  | WON =>
      refine wp_setOutcome _ (fun e c' db' hs => ⟨fun _ _ => .inl hs.env, nofun⟩)
        fun seen db₁ hs₁ hfind hallowed => ?_
      obtain rfl : db₁ = db := hs₁.env
      obtain rfl : seen.id = id := Schema.id_of_find hfind
      refine Protocol.wp_mono _ (fun r c' db' hr => ⟨fun e he => ?_, fun row hrow => ?_⟩)
        (wp_handleWon_kept hv)
      · exact (hr.1 e he).imp_right fun hcredits => ⟨seen, hfind, rfl, hcredits⟩
      · obtain ⟨now, hnow⟩ := hr.2 row hrow
        refine ⟨seen, hfind, fun hwon => ?_, now, ?_⟩
        · rw [hwon] at hallowed
          cases hallowed
        · rw [hnow, hfind, Option.map_some]
  | LOST =>
      have hsame : soloProtocol.wp (setOutcome id .LOST) (fun _ _ db' =>
          ∀ t ∉ .disputes :: ledgerTables, db' t = db t) {} db := by
        refine wp_sameTables (only_bind (writesIn_query (by simp [WritesIn, Stmt.writes])) fun found => ?_)
        cases found with
        | none => exact only_throw _
        | some seen =>
            simp only
            split
            · exact only_throw _
            · exact handleLost_only seen
      have hopen : soloProtocol.wp (setOutcome id .LOST) (fun r _ _ => ∀ row, r = .ok row →
          ∃ seen, schema.find .disputes id db = some seen ∧ seen.status ≠ .WON) {} db := by
        refine wp_setOutcome _ (fun _ _ _ _ => nofun) fun seen db₁ hs₁ hfind hallowed => ?_
        obtain rfl : db₁ = db := hs₁.env
        refine Protocol.wp_mono _ (fun r c' db' _ row _ => ⟨seen, hfind, fun hwon => ?_⟩)
          (Protocol.wp_of_keeps (fun _ _ _ => ⟨trivial, trivial⟩) (handleLost seen) _ _)
        rw [hwon] at hallowed
        cases hallowed
      refine Protocol.wp_mono _ (fun r c' db' hr => ⟨fun e he => .inl (hr.1.1 e he), fun row hrow => ?_⟩)
        (Protocol.wp_and _ (wp_lost_alone id db) (Protocol.wp_and _ hsame hopen))
      obtain ⟨seen, hfind, hwon⟩ := hr.2.2 row hrow
      exact ⟨seen, hfind, hwon, hr.2.1 _ (by decide)⟩

/-- When the credits can be restored, they can be and the call fail. -/
theorem ends_won_failed (hv : schema.Valid db) (hfind : schema.find .disputes d.id db = some d)
    (hopen : d.status = .OPEN ∨ d.status = .EVIDENCE_SUBMITTED) (h : RestoresCredits d db) :
    ∃ e c' db', postgres.Ends anyFault (setOutcome d.id .WON) {} db (.error e) c' db' ∧
      CreditsService.Logged (wonCreditKey d.id) db' := by
  have hmem := Schema.mem_of_find hfind
  have hamount : inInt32 d.amount = true := hv.fits .disputes d hmem
  have hgrants : CreditsService.Grants (.str d.userId) (.int d.amount) (wonCreditKey d.id) db :=
    ⟨d.userId, d.amount, rfl, rfl, h.positive, hamount, h.unlogged, h.fits⟩
  have hallowed : assertTransition d.status (DisputeOutcome.status .WON) = .ok () := by
    cases hopen with
    | inl h => rw [h]; rfl
    | inr h => rw [h]; rfl
  have hmiddle : ∀ c₁ : LocalState, FreeOf creditTables c₁.stack →
      postgres.Sure (fun _ => True) (restoreCredits d) (fun r _ db' => (∃ b, r = .ok b) ∧
        CreditsService.Logged (wonCreditKey d.id) db') c₁ db := by
    intro c₁ hfree
    refine Engine.sure_tryCatch (Engine.sure_bind
      ((CreditsService.sure_grants hv hfree hgrants).mono fun r c' db' hr => ?_))
    obtain ⟨⟨a, rfl⟩, hlogged⟩ := hr
    exact ⟨⟨(), rfl⟩, hlogged⟩
  have hgoes := goes_bookWon (W := fun _ => True) hv (hasUser_of_dispute hv hmem) hamount h
  obtain ⟨c', db', hends, hlogged⟩ := Engine.ends_transaction_lasts
    (c := ⟨[], [readEvent d.id d]⟩) (m := fun _ => restoreCredits d)
    (q := fun _ _ => query (.disputeUpdate d.id (.resolve .WON))) (e := Env.ordinary "") trivial
    (by simp) hgoes (fun _ c₁ _ hheld => hmiddle c₁ (freeOf_of_locks (T := ledgerTables) (by decide)
      fun l hl => (hheld l hl).resolve_right (by simp))) fun _ _ => Engine.failing_exec _
  have hread : postgres.exec (.disputeFindUnique d.id) (.ordinary "") db = .ok (some d, []) := by
    rw [disputeFindUnique_ok, hfind]
  refine ⟨postgres.fault "", c', db', Engine.ends_read_bind hread ?_, hlogged⟩
  simp only [hallowed]
  show postgres.Ends anyFault (handleWon d) _ _ _ _ _
  rw [handleWon_eq]
  exact hends

end Won

/-! ## Calls one after the other -/

/-- The credits are not restored, or the dispute is won. -/
def RestoredIfWon (d : Dispute) (db : Data) : Prop :=
  ∃ row, schema.find .disputes d.id db = some row ∧ SameDispute d row ∧
    (CreditsService.Logged (wonCreditKey d.id) db → row.status = .WON)

/-- The call cannot restore the credits and then fail. -/
def OutcomeSafe (d : Dispute) (outcome : DisputeOutcome) (db : Data) : Prop :=
  outcome = .WON → ¬RestoresCredits d db

section Calls

variable {d : Dispute} {outcome : DisputeOutcome} {db db' : Data}

/-- A call that is safe and fails leaves everything as it was. -/
theorem kept_of_safe {e : Err} {c' : LocalState} (hv : schema.Valid db)
    (hrow : ∃ row, schema.find .disputes d.id db = some row ∧ SameDispute d row)
    (hsafe : OutcomeSafe d outcome db)
    (hends : postgres.Ends anyFault (setOutcome d.id outcome) {} db (.error e) c' db') : db' = db := by
  obtain ⟨⟨herror, -⟩, -⟩ :=
    soloProtocol.ends_of_wp hv trivial .nil (wp_setOutcome_kept d.id outcome hv) hends
  rcases herror e rfl with hkept | ⟨seen, hseen, hwon, hcredits⟩
  · exact hkept
  · obtain ⟨row, hfind, hsame⟩ := hrow
    obtain rfl : row = seen := Option.some.inj (hfind.symm.trans hseen)
    exact (hsafe hwon (hcredits.congr hsame)).elim

/-- A safe call restores the credits only if it wins the dispute. -/
theorem restoredIfWon_of_ends {r : Except Err Dispute} {c' : LocalState} (hv : schema.Valid db)
    (h : RestoredIfWon d db) (hsafe : OutcomeSafe d outcome db)
    (hends : postgres.Ends anyFault (setOutcome d.id outcome) {} db r c' db') :
    RestoredIfWon d db' := by
  have hkeep := h
  obtain ⟨row, hfind, hsame, hlogged⟩ := h
  cases r with
  | error e =>
      rw [kept_of_safe hv ⟨row, hfind, hsame⟩ hsafe hends]
      exact hkeep
  | ok result =>
      have honly := anyStmt_of_only (setOutcome_only d.id outcome)
      obtain ⟨⟨⟨-, hok⟩, hframe⟩, -⟩ := soloProtocol.ends_of_wp hv trivial .nil
        (Protocol.wp_frame _ honly (wp_setOutcome_kept d.id outcome hv)) hends
      obtain ⟨seen, hseen, hopen, hdone⟩ := hok result rfl
      obtain rfl : row = seen := Option.some.inj (hfind.symm.trans hseen)
      obtain ⟨row', hfind', hsame'⟩ := dispute_of_le hframe.le hfind
      refine ⟨row', hfind', hsame.trans hsame', fun hnew => ?_⟩
      cases outcome with
      | WON =>
          obtain ⟨now, hwon⟩ := hdone
          obtain rfl := Option.some.inj (hfind'.symm.trans hwon)
          rfl
      | LOST =>
          have hold : CreditsService.Logged (wonCreditKey d.id) db := by
            have hdone : db' .creditTransactions = db .creditTransactions := hdone
            rw [CreditsService.Logged, ← hdone]
            exact hnew
          exact (hopen (hlogged hold)).elim

theorem restoredIfWon_of_session {db₀ : Data} {log : List (DisputeOutcome × Except Err Dispute)}
    (hv : schema.Valid db₀) (h : RestoredIfWon d db₀)
    (hs : GuardedSession postgres anyFault (setOutcome d.id) (OutcomeSafe d) db₀ log db) :
    schema.Valid db ∧ RestoredIfWon d db := by
  induction hs with
  | start => exact ⟨hv, h⟩
  | call _ hsafe hends ih =>
      have hvalid : locking.valid _ := (soloProtocol.ends_of_wp ih.1 trivial .nil
        (wp_setOutcome_kept d.id _ ih.1) hends).2.1
      exact ⟨hvalid, restoredIfWon_of_ends ih.1 ih.2 hsafe hends⟩

end Calls

/-! ## The condition -/

/-- A failure of a call leaves everything as it was exactly if the call cannot
restore the credits first; and while no call can, no dispute is lost whose
credits were restored. -/
theorem setOutcome_atomic (db : Database) (d : Dispute)
    (hfind : schema.find .disputes d.id db.rows = some d)
    (hopen : d.status = .OPEN ∨ d.status = .EVIDENCE_SUBMITTED) :
    (∀ outcome, FailsKept d outcome db.rows ↔ OutcomeSafe d outcome db.rows) ∧
    ∀ log db', CreditsService.Unlogged (wonCreditKey d.id) db.rows →
      GuardedSession postgres anyFault (setOutcome d.id) (OutcomeSafe d) db.rows log db' →
      ∀ row, schema.find .disputes d.id db' = some row → row.status = .LOST →
        CreditsService.Unlogged (wonCreditKey d.id) db' := by
  constructor
  · intro outcome
    constructor
    · rintro hkept rfl hcredits
      obtain ⟨e, c', db', hends, hlogged⟩ := ends_won_failed db.valid hfind hopen hcredits
      have hlog := (hkept e c' db' hends).log
      rw [CreditsService.Logged, hlog] at hlogged
      exact CreditsService.not_unlogged hlogged hcredits.unlogged
    · intro hsafe e c' db' hends
      obtain rfl := kept_of_safe db.valid ⟨d, hfind, .refl d⟩ hsafe hends
      exact ⟨rfl, fun _ _ => rfl, rfl, rfl⟩
  · intro log db' hnew hs row hfind' hlost
    have hstart : RestoredIfWon d db.rows :=
      ⟨d, hfind, .refl d, fun hlogged => (CreditsService.not_unlogged hlogged hnew).elim⟩
    obtain ⟨-, row', hrow', -, hwon⟩ := restoredIfWon_of_session db.valid hstart hs
    obtain rfl : row = row' := Option.some.inj (hfind'.symm.trans hrow')
    intro log hlog hkey
    rw [hwon ⟨log, hlog, hkey⟩] at hlost
    cases hlost

/-- An open dispute can be lost, and its credits are not restored. -/
theorem disputedDollar_lost :
    FailsKept disputedDollar .LOST (disputedWithFee "1500").rows ∧
    ∃ log db', GuardedSession postgres anyFault (setOutcome disputedDollar.id)
        (OutcomeSafe disputedDollar) (disputedWithFee "1500").rows log db' ∧
      (schema.find .disputes disputedDollar.id db').map (·.status) = some .LOST ∧
      CreditsService.Unlogged (wonCreditKey disputedDollar.id) db' := by
  have hatomic := setOutcome_atomic (disputedWithFee "1500") disputedDollar (find_disputedDollar _)
    (.inl rfl)
  have hsafe : OutcomeSafe disputedDollar .LOST (disputedWithFee "1500").rows := nofun
  have hlost : (schema.find .disputes disputedDollar.id
      (playAlone "a" (setOutcome disputedDollar.id .LOST) (disputedWithFee "1500").rows).2.2).map
        (·.status) = some .LOST := by decide +kernel
  have hplay : (playAlone "a" (setOutcome disputedDollar.id .LOST) (disputedWithFee "1500").rows).1 =
    _ := rfl
  have hsession : GuardedSession postgres anyFault (setOutcome disputedDollar.id)
      (OutcomeSafe disputedDollar) (disputedWithFee "1500").rows _ _ :=
    .call .start hsafe (ends_playAlone hplay)
  obtain ⟨row, hrow, hstatus⟩ := Option.map_eq_some_iff.mp hlost
  exact ⟨(hatomic.1 .LOST).mpr hsafe, _, _, hsession, hlost, hatomic.2 _ _ nofun hsession row hrow hstatus⟩

/-! ## A failure after the grant -/

/-- The environment makes the statement fail that follows the grant. -/
def failAfterGrant (c : LocalState) : Choice Env :=
  match c.trace with
  | .commit _ :: _ => .fail "connection lost"
  | _ => .go (.ordinary "a")

/-- The dispute cannot be won after the grant of its credits, and is lost then. -/
theorem disputedDollar_lostRestored :
    ∃ log db', Session postgres anyFault (setOutcome disputedDollar.id)
        (disputedWithFee "1500").rows log db' ∧
      log.map (fun call => (call.1, call.2.isOk)) = [(.WON, false), (.LOST, true)] ∧
      (schema.find .disputes disputedDollar.id db').map (·.status) = some .LOST ∧
      balanceOf disputedDollar.userId (disputedWithFee "1500").rows = 0 ∧
      balanceOf disputedDollar.userId db' = 100 := by
  have hplay := Engine.session_play (E := postgres) (F := anyFault) failAfterGrant
    (fun _ => by unfold Faults.allow anyFault; split <;> trivial) (setOutcome disputedDollar.id)
    [.WON, .LOST] (disputedWithFee "1500").rows
  exact ⟨_, _, hplay, by decide +kernel, by decide +kernel, by decide +kernel, by decide +kernel⟩

end PaymentBilling
