import PaymentBilling.Safety.DisputeStatus

/-!
# Safety.DisputeEvidence

Evidence of a dispute, and the status that goes with it.

The row of evidence and the status are written by two statements that commit on
their own.  In between the dispute is still open, and it stays so if the second
one fails; the call then ends with an error but its evidence is there.
-/

namespace PaymentBilling

open Relational Transact

/-- The dispute has evidence. -/
def HasEvidence (id : String) (db : Data) : Prop := ∃ row ∈ db .disputeEvidence, row.disputeId = id

instance (id : String) (db : Data) : Decidable (HasEvidence id db) :=
  inferInstanceAs (Decidable (∃ row ∈ db .disputeEvidence, row.disputeId = id))

/-- A dispute with evidence is not open. -/
def EvidenceAnswered (id : String) (db : Data) : Prop :=
  HasEvidence id db → (disputeCheck id).status db ≠ some .OPEN

instance (id : String) (db : Data) : Decidable (EvidenceAnswered id db) :=
  inferInstanceAs (Decidable (HasEvidence id db → _))

/-- Evidence is added while the dispute is open. -/
def SubmitsWhileOpen (id : String) (db db' : Data) : Prop :=
  db' .disputeEvidence ≠ db .disputeEvidence ∧ (disputeCheck id).status db = some .OPEN

/-- The row of evidence that a statement has added. -/
def evidenceOf : Event Stmt Err → Option DisputeEvidence
  | .stmt (.disputeEvidenceCreate _) (.ok row) => some row
  | _ => none

/-- An update of the status to an answered dispute that has failed. -/
def failedMark : Event Stmt Err → Bool
  | .stmt (.disputeUpdate _ .evidenceSubmitted) (.error _) => true
  | _ => false

/-- A row of evidence that the call has added is there. -/
def LeavesEvidence (c : LocalState) (db : Data) : Prop :=
  ∃ e ∈ c.trace, ∃ row, evidenceOf e = some row ∧ row ∈ db .disputeEvidence

/-- The update of the status has failed. -/
def MarkFails (c : LocalState) : Prop := ∃ e ∈ c.trace, failedMark e = true

/-- What a step of a call on a dispute can do to its evidence and its status. -/
inductive EvidenceStep (id : String) (db db' : Data) : Prop
  | added (row : DisputeEvidence) (names : row.disputeId = id)
      (evidence : db' .disputeEvidence = db .disputeEvidence ++ [row])
      (status : (disputeCheck id).status db' = (disputeCheck id).status db)
  | moved (evidence : db' .disputeEvidence = db .disputeEvidence)
      (status : (disputeCheck id).status db' = (disputeCheck id).status db ∨
        (disputeCheck id).status db' ≠ some .OPEN)

section Steps

variable {id : String} {db db' : Data}

theorem EvidenceStep.of_other (hevidence : db' .disputeEvidence = db .disputeEvidence)
    (hdisputes : db' .disputes = db .disputes) : EvidenceStep id db db' :=
  .moved hevidence (.inl (disputeStatus_of_other hdisputes))

theorem EvidenceStep.of_resolved {dispute : Dispute} {fee : Int} {outcome : DisputeOutcome}
    {ws : List RowWrite} (hfits : locking.fitsAll ws db)
    (h : DisputesService.Resolved dispute fee outcome ws db) :
    EvidenceStep dispute.id db (postgres.applyAll ws db) := by
  refine .moved ?_ (.inr ?_)
  · obtain ⟨txn, ws₁, ws₂, now, rfl, hx, hcredits⟩ := h.split
    rw [postgres.applyAll_append, postgres.applyAll_append, applyAll_single,
      apply_update_other (by decide), applyAll_other fun w hw he => ?_, hx.other (by decide)]
    exact absurd (he ▸ hcredits w hw) (by decide)
  · rw [disputeStatus_of_resolved hfits h]
    cases outcome <;> exact nofun

/-- The evidence stays answered exactly if none is added while the dispute is
open. -/
theorem EvidenceStep.answered_iff (h : EvidenceStep id db db') (hok : EvidenceAnswered id db) :
    EvidenceAnswered id db' ↔ ¬SubmitsWhileOpen id db db' := by
  cases h with
  | added row names evidence status =>
      have hhas : HasEvidence id db' := ⟨row, by rw [evidence]; simp, names⟩
      have hnew : db' .disputeEvidence ≠ db .disputeEvidence := by
        rw [evidence]
        exact fun he => List.cons_ne_nil _ _ (List.append_right_eq_self.mp he)
      constructor
      · rintro hok' ⟨-, hopen⟩
        exact hok' hhas (status.trans hopen)
      · intro hno _ hopen
        exact hno ⟨hnew, status.symm.trans hopen⟩
  | moved evidence status =>
      refine ⟨fun _ hsubmits => hsubmits.1 evidence, fun _ hhas hopen => ?_⟩
      rw [HasEvidence, evidence] at hhas
      cases status with
      | inl hsame => exact hok hhas (hsame.symm.trans hopen)
      | inr hmoved => exact hmoved hopen

end Steps

/-! ## Calls -/

/-- A client that makes a call on the dispute. -/
def evidenceProtocol (id : String) : Protocol locking (fun _ => True) :=
  .any locking (fun _ => EvidenceStep id) fun _ _ => .of_other rfl rfl

/-- What an error says about the evidence that a call has added. -/
structure EvidenceLeft (c : LocalState) (db : Data) : Prop where
  failed : ∀ e ∈ c.trace, ∀ row, evidenceOf e = some row → MarkFails c
  left : MarkFails c → ∃ e ∈ c.trace, ∃ row, evidenceOf e = some row ∧
    schema.find .disputeEvidence row.id db = some row

theorem EvidenceLeft.mono {c : LocalState} {db db' : Data} (h : EvidenceLeft c db)
    (hle : schema.le db db') : EvidenceLeft c db' where
  failed := h.failed
  left hfails := by
    obtain ⟨e, he, row, hrow, hfind⟩ := h.left hfails
    obtain ⟨row', hfind', hfix⟩ := hle _ _ _ hfind
    have hsame : row' = row := hfix
    exact ⟨e, he, row, hrow, hsame ▸ hfind'⟩

theorem EvidenceLeft.leaves_iff {c : LocalState} {db : Data} (h : EvidenceLeft c db) :
    LeavesEvidence c db ↔ MarkFails c := by
  constructor
  · rintro ⟨e, he, row, hrow, -⟩
    exact h.failed e he row hrow
  · intro hfails
    obtain ⟨e, he, row, hrow, hfind⟩ := h.left hfails
    exact ⟨e, he, row, hrow, Schema.mem_of_find hfind⟩

section Calls

variable {id : String} {db : Data}

theorem wp_setOutcome_evidence (outcome : DisputeOutcome) :
    (evidenceProtocol id).wp (DisputesService.setOutcome id outcome) (fun _ _ _ => True) {} db := by
  refine DisputesService.wp_setOutcome _ (fun _ _ _ _ => trivial) fun seen db₁ hs₁ hseen hpass => ?_
  obtain rfl : seen.id = id := Schema.id_of_find hseen
  cases outcome with
  | WON =>
      refine DisputesService.wp_handleWon _ (fun c db ws _ hw _ _ _ => ⟨trivial, ?_⟩)
        (fun _ _ _ => trivial) fun r t c' db' _ _ _ _ hfits hresolved =>
          ⟨⟨trivial, .of_resolved hfits hresolved⟩, trivial⟩
      have hother : ∀ {t : Table}, t ∉ creditTables → postgres.applyAll ws db t = db t :=
        fun ht => applyAll_other fun w hin he => ht (he ▸ hw w hin)
      exact .of_other (hother (by decide)) (hother (by decide))
  | LOST =>
      exact DisputesService.wp_handleLost _ (fun _ _ _ => trivial)
        fun r t c' db₁ db' _ _ _ _ _ hfits hresolved =>
          ⟨⟨trivial, .of_resolved hfits hresolved⟩, trivial⟩

/-- Where nothing has been added and no update has failed. -/
theorem evidenceLeft_of_none {c : LocalState} (h : ∀ e ∈ c.trace, evidenceOf e = none ∧ failedMark e = false) :
    EvidenceLeft c db where
  failed e he row hrow := by
    rw [(h e he).1] at hrow
    cases hrow
  left hfails := by
    obtain ⟨e, he, hmark⟩ := hfails
    rw [(h e he).2] at hmark
    cases hmark

/-- Evidence is left by a call that fails exactly if its last statement fails. -/
theorem wp_attachEvidence_left (params : DisputeEvidenceCreate) :
    (evidenceProtocol params.disputeId).wp (DisputesService.attachEvidence params)
      (fun r c db => ∀ e, r = .error e → EvidenceLeft c db) {} db := by
  let P := evidenceProtocol params.disputeId
  unfold DisputesService.attachEvidence
  show P.wp _ _ _ _
  rw [P.wp_bind]
  refine P.wp_exec_auto (fun e db₁ _ _ _ => evidenceLeft_of_none (by simp [evidenceOf, failedMark]))
    fun env found ws db₁ hs₁ hx => ?_
  obtain ⟨rfl, hfound⟩ := exec_disputeFindUnique hx
  refine ⟨P.keeps_refl hs₁.inv, ?_⟩
  cases found with
  | none => exact fun e _ => evidenceLeft_of_none (by simp [evidenceOf, failedMark])
  | some seen =>
      show P.wp (query (.disputeEvidenceCreate params) >>= _) _ _ _
      rw [P.wp_bind]
      refine P.wp_exec_auto
        (fun e db₂ _ _ _ => evidenceLeft_of_none (by simp [evidenceOf, failedMark]))
        fun env' row ws db₂ hs₂ hx₂ => ?_
      obtain ⟨rfl, hnames⟩ := exec_disputeEvidenceCreate hx₂
      have hv₂ := locking.valid_applyAll (locking.fitsAll_of_exec hs₂.valid hx₂) hs₂.valid
      have hsame : postgres.applyAll [.insert .disputeEvidence row] db₂ .disputes = db₂ .disputes := by
        rw [applyAll_single]
        exact apply_insert_other (by decide) _ _
      refine ⟨⟨trivial, .added row hnames rfl (disputeStatus_of_other hsame)⟩, ?_⟩
      simp only [Protocol.bindPost_ok]
      split
      · rw [P.wp_bind]
        refine P.wp_exec_auto (fun e db₃ hs₃ _ _ => ?_) fun env'' r ws db₃ hs₃ hx₃ => ?_
        · refine ⟨fun _ _ _ _ => ⟨_, .head _, rfl⟩, fun _ => ⟨_, .tail _ (.head _), row, rfl, ?_⟩⟩
          have hmem : row ∈ postgres.applyAll [.insert .disputeEvidence row] db₂ .disputeEvidence :=
            List.mem_append_right _ (.head _)
          obtain ⟨row', hrow', hfix⟩ := hs₃.le _ _ _ (hv₂.find_of_mem hmem)
          have hsame : row' = row := hfix
          exact hsame ▸ hrow'
        · obtain ⟨old, hold, -, rfl⟩ := exec_disputeUpdate hx₃
          rw [applyAll_single]
          refine ⟨⟨trivial, .moved (apply_update_other (by decide) _ _ _) (.inr ?_)⟩, fun _ h => by cases h⟩
          show (schema.find .disputes params.disputeId _).map (·.status) ≠ _
          rw [find_disputePatch, hold]
          exact fun h => by cases h
      · exact fun _ h => by cases h

/-- The call adds evidence. -/
def DisputeCall.Attaches (call : DisputeCall) : Prop :=
  ∃ submittedBy evidenceType content metadata, call = evidence submittedBy evidenceType content metadata

theorem wp_disputeCall_evidence (call : DisputeCall) :
    (evidenceProtocol id).wp (call.run id)
      (fun r c db => call.Attaches → ∀ e, r = .error e → EvidenceLeft c db) {} db := by
  cases call with
  | evidence submittedBy evidenceType content metadata =>
      show Protocol.wp _ (DisputesService.attachEvidence _ >>= fun _ => pure ()) _ _ _
      rw [Protocol.wp_bind]
      refine Protocol.wp_mono _ (fun r c db hr => ?_)
        (wp_attachEvidence_left ⟨id, submittedBy, evidenceType, content, metadata⟩)
      cases r with
      | ok row => exact fun _ _ => nofun
      | error e => exact fun _ e' _ => hr e rfl
  | outcome o =>
      show Protocol.wp _ (DisputesService.setOutcome _ _ >>= fun _ => pure ()) _ _ _
      rw [Protocol.wp_bind]
      refine Protocol.wp_mono _ (fun r c db _ => ?_) (wp_setOutcome_evidence o)
      have hnot : ¬(DisputeCall.outcome o).Attaches := by
        rintro ⟨_, _, _, _, h⟩
        cases h
      cases r with
      | ok row => exact fun h => (hnot h).elim
      | error e => exact fun h => (hnot h).elim

end Calls

/-! ## Runs -/

section Runs

variable {ι : Type} [DecidableEq ι] {db : Database} {id : String} {calls : ι → DisputeCall} {i : ι}
  {s s' : Sys Stmt Data RowWrite RowLock Err Unit ι}

theorem evidenceStep_of_runs (hruns : Runs postgres AnyStep (disputeSystem db id calls) s)
    (hstep : Step postgres s i s') : EvidenceStep id s.db s'.db := by
  have hwp : (evidenceProtocol id).wp ((calls i).run id) (fun _ _ _ => True) {} db.rows :=
    Protocol.wp_mono _ (fun _ _ _ _ => trivial) (wp_disputeCall_evidence (calls i))
  exact (guar_of_runs (i := i) (D := locking) db.valid (by exact hwp) hruns hstep).1

end Runs

/-- In the runs of calls on a dispute, those in which a dispute with evidence is
never open are those in which no evidence is added while it is open; and a call
that fails leaves evidence behind exactly if its update of the status has
failed. -/
theorem evidence_answered {ι : Type} [DecidableEq ι] (db : Database) (id : String)
    (calls : ι → DisputeCall) (hstart : EvidenceAnswered id db.rows)
    (s : Sys Stmt Data RowWrite RowLock Err Unit ι) :
    (Runs postgres (fun _ _ s' => EvidenceAnswered id s'.db) (disputeSystem db id calls) s ↔
      Runs postgres (fun s _ s' => ¬SubmitsWhileOpen id s.db s'.db) (disputeSystem db id calls) s) ∧
    (Runs postgres AnyStep (disputeSystem db id calls) s → ∀ i e, (calls i).Attaches →
      (s.clients i).prog = .ret (.error e) →
        (LeavesEvidence (s.clients i).loc s.db ↔ MarkFails (s.clients i).loc)) := by
  constructor
  · have hstep : ∀ s s' i, Runs postgres AnyStep (disputeSystem db id calls) s →
        EvidenceAnswered id s.db → Step postgres s i s' →
          (EvidenceAnswered id s'.db ↔ ¬SubmitsWhileOpen id s.db s'.db) :=
      fun s s' i hruns hok hstep => (evidenceStep_of_runs hruns hstep).answered_iff hok
    exact (Runs.inv_iff (A := fun s => EvidenceAnswered id s.db) hstart hstep).1
  · intro hruns i e hcall herror
    have hpost := post_of_runs (i := i) (Q := fun r c db =>
        (calls i).Attaches → ∀ e, r = .error e → EvidenceLeft c db)
      (fun r c db db' hle h hcall e he => (h hcall e he).mono hle) db.valid
      (by exact wp_disputeCall_evidence (calls i)) hruns herror
    exact (hpost hcall e rfl).leaves_iff

/-! ## Evidence before and after the outcome -/

/-- A dispute is won, and evidence is added to it. -/
def wonThenEvidence (i : Fin 2) : DisputeCall :=
  if i = 0 then .outcome .WON else .evidence "admin" "access_log" "content" []

theorem wonThenEvidence_answered :
    ∃ s, Runs postgres (fun s _ s' => ¬SubmitsWhileOpen "d1" s.db s'.db)
        (disputeSystem openDispute "d1" wonThenEvidence) s ∧ HasEvidence "d1" s.db := by
  have hplay : (replay postgres (fun _ s => decide (EvidenceAnswered "d1" s.db))
      (List.replicate 20 (0, .go (.ordinary "a")) ++ List.replicate 2 (1, .go (.ordinary "b")))
      (disputeSystem openDispute "d1" wonThenEvidence)).any
        (fun s => decide (HasEvidence "d1" s.db)) = true := by decide +kernel
  obtain ⟨s, hruns, hgoal⟩ := exists_runs_of_replay (C := fun _ _ s' => EvidenceAnswered "d1" s'.db)
    (fun _ _ _ h => of_decide_eq_true h) hplay
  exact ⟨s, (evidence_answered openDispute "d1" wonThenEvidence (by decide +kernel) s).1.mp hruns,
    of_decide_eq_true hgoal⟩

/-- Evidence is added to an open dispute. -/
def oneEvidence (_ : Fin 1) : DisputeCall := .evidence "admin" "access_log" "content" []

/-- The call has failed and left evidence, and the dispute is still open. -/
def leftOpen (s : Sys Stmt Data RowWrite RowLock Err Unit (Fin 1)) : Bool :=
  (match (s.clients 0).prog with
    | .ret (.error _) => true
    | _ => false) &&
  (s.clients 0).loc.trace.any (fun e => (evidenceOf e).any fun row => row ∈ s.db .disputeEvidence) &&
  !decide (EvidenceAnswered "d1" s.db)

theorem oneEvidence_left :
    EvidenceAnswered "d1" openDispute.rows ∧
      ∃ s e, Runs postgres AnyStep (disputeSystem openDispute "d1" oneEvidence) s ∧
        (s.clients 0).prog = .ret (.error e) ∧ LeavesEvidence (s.clients 0).loc s.db ∧
        ¬EvidenceAnswered "d1" s.db := by
  refine ⟨by decide +kernel, ?_⟩
  have hplay : (replay postgres anyTime (List.replicate 2 (0, .go (.ordinary "a")) ++ [(0, .fail "timeout")])
      (disputeSystem openDispute "d1" oneEvidence)).any leftOpen = true := by decide +kernel
  obtain ⟨s, hruns, hgoal⟩ := exists_runs_of_replay (fun _ _ _ _ => trivial) hplay
  simp only [leftOpen, Bool.and_eq_true, Bool.not_eq_true', decide_eq_false_iff_not, List.any_eq_true,
    Option.any_eq_true, decide_eq_true_eq] at hgoal
  obtain ⟨⟨hended, hleft⟩, hopen⟩ := hgoal
  split at hended
  · next e herror => exact ⟨s, e, hruns, herror, hleft, hopen⟩
  · cases hended

end PaymentBilling
