import PaymentBilling.Services.Refunds
import PaymentBilling.Spec.Transfer

/-!
# Spec.Refunds

The calls on a refund request, under any protocol.

Each call reads the request, checks its status and writes the row later, in a
statement of its own.  The rules below reduce a call to what happens in
between and to these writes.
-/

namespace PaymentBilling

open Relational Transact

/-- The key of the credits of a request. -/
def refundKey (id : String) : String := "refund_" ++ id

/-- The key of the ledger transaction of a request. -/
def refundLedgerKey (id : String) : String := "refund_" ++ id ++ "_ledger"

/-- A call on a refund request. -/
inductive RefundCall
  | approve (adminId : String) (notes : Option String)
  | deny (adminId notes : String)
  | process

/-- The program of a call on the request `id`. -/
def RefundCall.run (id : String) : RefundCall → Action RefundRequest
  | approve adminId notes => RefundsService.approveRefund id adminId notes
  | deny adminId notes => RefundsService.denyRefund id adminId notes
  | process => RefundsService.processRefund id

/-- The calls `calls` on the request `id`, about to run on the database `db`. -/
def refundSystem {ι : Type} (db : Database) (id : String) (calls : ι → RefundCall) :
    Sys Stmt Data RowWrite RowLock Err RefundRequest ι :=
  Sys.start db.rows fun i => (calls i).run id

/-- A request as it was made, whatever has happened to it since. -/
structure SameRequest (request r : RefundRequest) : Prop where
  id : r.id = request.id
  userId : r.userId = request.userId
  type : r.type = request.type
  amount : r.amount = request.amount
  gatewayType : r.gatewayType = request.gatewayType
  originalGatewayTransactionId :
    r.originalGatewayTransactionId = request.originalGatewayTransactionId

theorem SameRequest.of_fixed {request r : RefundRequest}
    (h : schema.fixed (t := .refundRequests) r = schema.fixed (t := .refundRequests) request) :
    SameRequest request r := by
  obtain ⟨hid, huser, htype, hamount, -, -, -, -, -, -, hgateway, horiginal, -, -⟩ :=
    RefundRequest.mk.inj h
  exact ⟨hid, huser, htype, hamount, hgateway, horiginal⟩

/-- The request is still there. -/
theorem request_of_le {db db' : Data} {id : String} {request : RefundRequest}
    (hle : schema.le db db') (h : schema.find .refundRequests id db = some request) :
    ∃ r, schema.find .refundRequests id db' = some r ∧ SameRequest request r := by
  obtain ⟨r, hr, hfix⟩ := hle _ _ _ h
  exact ⟨r, hr, .of_fixed hfix⟩

/-- The request that is found is the one that was made. -/
theorem sameRequest_of_le {db db' : Data} {id : String} {request r : RefundRequest}
    (hle : schema.le db db') (h : schema.find .refundRequests id db = some request)
    (hr : schema.find .refundRequests id db' = some r) : SameRequest request r := by
  obtain ⟨r', hr', hsame⟩ := request_of_le hle h
  rw [hr] at hr'
  rw [Option.some.inj hr']
  exact hsame

/-- Whether a request is in a status. -/
def hasStatus (id : String) (status : RefundStatus) (db : Data) : Bool :=
  (schema.find .refundRequests id db).any (·.status = status)

theorem hasStatus_iff {id : String} {status : RefundStatus} {db : Data} :
    hasStatus id status db = true ↔
      ∃ r, schema.find .refundRequests id db = some r ∧ r.status = status := by
  simp [hasStatus, Option.any_eq_true]

/-- The row of a request after one of its updates. -/
theorem find_refundPatch {db : Data} {id : String} {p : RefundPatch} :
    schema.find .refundRequests id (schema.apply (.update .refundRequests id p) db) =
      (schema.find .refundRequests id db).map p.apply := by
  rw [Schema.find_update]
  cases hf : schema.find .refundRequests id db with
  | none => rfl
  | some old =>
      have hid : old.id = id := Schema.id_of_find hf
      rw [← hid]
      exact congrArg some Schema.revise_self

theorem find_refundUpdate {db : Data} {id : String} {p : RefundPatch} {r : RefundRequest}
    (h : schema.find .refundRequests id (schema.apply (.update .refundRequests id p) db) = some r) :
    ∃ old, schema.find .refundRequests id db = some old ∧ r = p.apply old := by
  rw [find_refundPatch, Option.map_eq_some_iff] at h
  obtain ⟨old, hold, rfl⟩ := h
  exact ⟨old, hold, rfl⟩

namespace RefundsService

/-! ## What moves the money -/

/-- The statement does not change the status of a request. -/
def StatusKept : (β : Type) → Stmt β → Prop
  | _, .refundUpdate _ (.paymentRefundId _) => True
  | _, s => s.writes ≠ some .refundRequests

/-- The write does not change the status of a request. -/
def KeepsStatus (w : RowWrite) : Prop :=
  w.table ≠ .refundRequests ∨
    ∃ id gid, w = .update .refundRequests id (RefundPatch.paymentRefundId gid)

theorem statusKept_of_writes {β : Type} {s : Stmt β} (h : s.writes ≠ some .refundRequests) :
    StatusKept β s := by
  cases s with
  | refundUpdate id data => exact (h rfl).elim
  | _ => exact h

theorem statusKept_of_writesIn {T : List Table} (hT : .refundRequests ∉ T) {α : Type} {p : Action α}
    {d : Nat} (h : Only (WritesIn T) p d) : Only StatusKept p d :=
  h.mono fun _ _ hs => statusKept_of_writes fun hw => hT (hs _ hw)

theorem keepsStatus_of_exec :
    ∀ β (s : Stmt β), StatusKept β s → ∀ env db b ws, postgres.exec s env db = .ok (b, ws) →
      ∀ w ∈ ws, KeepsStatus w := by
  intro β s hs env db b ws hx w hw
  have htable := table_of_exec hx w hw
  by_cases hr : w.table = .refundRequests
  · rw [hr] at htable
    cases s with
    | refundUpdate id data =>
        obtain ⟨old, -, -, rfl⟩ := exec_refundUpdate hx
        cases data with
        | paymentRefundId gid => exact .inr ⟨id, gid, List.mem_singleton.mp hw⟩
        | _ => exact (hs rfl).elim
    | _ => exact (hs htable).elim
  · exact .inl hr

theorem recordRefund_only (refund : RefundRequest) (result : RefundResult) :
    Only StatusKept (recordRefund refund result) 0 := by
  refine only_transaction (only_bind ?_ fun _ => ?_)
  · refine only_bind (statusKept_of_writesIn (by decide) (LedgerService.accountUpsert_only _ _))
      fun _ => ?_
    refine only_bind (statusKept_of_writesIn (by decide) (LedgerService.accountUpsert_only _ _))
      fun _ => ?_
    refine only_bind (statusKept_of_writesIn (by decide) (LedgerService.recordTransaction_only ..))
      fun _ => ?_
    exact only_bind (only_exec trivial) fun _ => only_pure _
  · refine only_tryCatch (only_bind ?_ fun _ => only_pure _) fun _ => only_pure _
    exact statusKept_of_writesIn (by decide) (CreditsService.deductCredits_only ..)

theorem refundCharge_only (gatewayType : PaymentGateway) (params : RefundParams) :
    Only StatusKept (refundCharge gatewayType params) 0 := by
  refine only_bind (only_exec (statusKept_of_writes (by simp [Stmt.writes]))) fun r => ?_
  cases r with
  | ok result => exact only_pure _
  | error message => exact only_throw _

/-- Moving the money of a request closes what it opens, and does not change the
status of the request. -/
theorem dispatch_only (refund : RefundRequest) : Only StatusKept (dispatch refund) 0 := by
  unfold dispatch
  split
  · refine only_bind ?_ fun _ => only_pure _
    exact statusKept_of_writesIn (by decide) (CreditsService.grantCredits_only ..)
  · unfold processPaymentRefund
    split
    · exact only_pure _
    · split
      · exact only_throw _
      · split
        · exact only_throw _
        · exact only_bind (refundCharge_only _ _) fun _ => recordRefund_only _ _

/-! ## The rows of a payment refund -/

/-- The ledger transaction of a payment refund. -/
def refundTransfer (refund : RefundRequest) (refundedAmount : Js) : Transfer where
  firstUser := .str refund.userId
  firstType := .ASSET
  secondUser := .str LedgerService.SYSTEM_USER_ID
  secondType := .REVENUE
  key := some (refundLedgerKey refund.id)
  entries a b := refundEntries a b refundedAmount

/-- The gateway's identifier is written to the row of the request. -/
def paidEffect (α : Type) (id gatewayRefundId : String) : Effect locking α :=
  .exactly locking α [.update .refundRequests id (RefundPatch.paymentRefundId gatewayRefundId)]

theorem refundLedgerKey_ne (id : String) : refundLedgerKey id ≠ "" :=
  append_ne (append_ne (by decide))

theorem does_recordRows {I : Data → Prop} {P : Protocol locking I} {past : List (Event Stmt Err)}
    (refund : RefundRequest) (result : RefundResult) :
    P.Does past (recordRows refund result)
      ((transferEffect (refundTransfer refund result.refundedAmount)).bind fun _ =>
        paidEffect Unit refund.id result.gatewayRefundId) := by
  refine does_transfer (x := refundTransfer refund result.refundedAmount)
    (LedgerService.does_getOrCreateAssetAccount P _)
    (LedgerService.does_getOrCreateSystemAccount P _)
    (Option.filter_some_pos (decide_eq_true (refundLedgerKey_ne refund.id))) fun _ => ?_
  refine Protocol.does_map (X := paidEffect RefundRequest refund.id result.gatewayRefundId)
    (Protocol.does_exec fun env db r ws _ hx => ?_) fun _ _ _ h => h
  obtain ⟨old, -, -, rfl⟩ := exec_refundUpdate hx
  rfl

/-! ## Rules -/

section Rules

variable {I : Data → Prop} (P : Protocol locking I) {id : String}
  {Q : Post Stmt Data RowWrite RowLock Err RefundRequest} {trace : List (Event Stmt Err)}
  {db : Data}

/-- The event of having read the request as `r`. -/
def readEvent (id : String) (r : RefundRequest) : Event Stmt Err :=
  .stmt (.refundFindUnique id) (.ok (some r))

/-- An update of a request commits on its own. -/
theorem wp_refundUpdate {data : RefundUpdate}
    (hthrow : ∀ e c' db', Q (.error e) c' db')
    (hupdate : ∀ r now db', P.Sees ⟨[], trace⟩ db db' →
      P.Keeps ⟨[], trace⟩ db' (schema.apply (.update .refundRequests id (data.patch now)) db') ∧
        Q (.ok r) ⟨[], .stmt (.refundUpdate id data) (.ok r) :: trace⟩
          (schema.apply (.update .refundRequests id (data.patch now)) db')) :
    P.wp (query (.refundUpdate id data)) Q ⟨[], trace⟩ db := by
  refine P.wp_exec_auto (fun e db' _ => hthrow _ _ _) fun env r ws db' hs hx => ?_
  obtain ⟨old, -, -, rfl⟩ := exec_refundUpdate hx
  exact hupdate r env.now db' hs

/-- `approveRefund` and `denyRefund`: the request is read as pending, and its
row is written later. -/
theorem wp_review {verb : String} {data : RefundUpdate}
    (hthrow : ∀ e c' db', Q (.error e) c' db')
    (hupdate : ∀ seen r now db₁ db₂, P.Sees ⟨[], trace⟩ db db₁ →
      schema.find .refundRequests id db₁ = some seen → seen.status = .PENDING →
      P.Sees ⟨[], readEvent id seen :: trace⟩ db₁ db₂ →
      P.Keeps ⟨[], readEvent id seen :: trace⟩ db₂
          (schema.apply (.update .refundRequests id (data.patch now)) db₂) ∧
        Q (.ok r) ⟨[], .stmt (.refundUpdate id data) (.ok r) :: readEvent id seen :: trace⟩
          (schema.apply (.update .refundRequests id (data.patch now)) db₂)) :
    P.wp (findPending id verb >>= fun _ => query (.refundUpdate id data)) Q ⟨[], trace⟩ db := by
  rw [P.wp_bind]
  unfold findPending
  rw [P.wp_bind]
  refine P.wp_exec_auto (fun e db₁ _ => hthrow _ _ _) fun env found ws db₁ hs₁ hx => ?_
  obtain ⟨rfl, hfound⟩ := exec_refundFindUnique hx
  refine ⟨P.keeps_refl hs₁.inv, ?_⟩
  cases found with
  | none => exact hthrow _ _ _
  | some seen =>
      simp only [Protocol.bindPost_ok]
      split
      · exact hthrow _ _ _
      · next hstatus =>
        have hstatus : seen.status = .PENDING := by simpa using hstatus
        exact wp_refundUpdate P hthrow fun r now db₂ hs₂ =>
          hupdate seen r now db₁ db₂ hs₁ hfound.symm hstatus hs₂

/-- `processRefund`: the request is read as approved, its money is moved, and
its row is written last, whether that failed or not. -/
theorem wp_processRefund {G : RefundRequest → LocalState → Data → Prop}
    (hthrow : ∀ e c' db', Q (.error e) c' db')
    (hdispatch : ∀ seen db₁, P.Sees ⟨[], trace⟩ db db₁ →
      schema.find .refundRequests id db₁ = some seen → seen.status = .APPROVED →
      P.wp (dispatch seen) (fun r c' db' => ∀ a, r = .ok a → G seen c' db')
        ⟨[], readEvent id seen :: trace⟩ db₁)
    (hfailed : ∀ seen message now events db₁ db₂, seen.status = .APPROVED →
      P.Sees ⟨[], events ++ readEvent id seen :: trace⟩ db₁ db₂ →
      P.Keeps ⟨[], events ++ readEvent id seen :: trace⟩ db₂
        (schema.apply (.update .refundRequests id ((RefundUpdate.failed message).patch now)) db₂))
    (hprocessed : ∀ seen r now events db₁ db₂, seen.status = .APPROVED → locking.valid db₁ →
      G seen ⟨[], events ++ readEvent id seen :: trace⟩ db₁ →
      P.Sees ⟨[], events ++ readEvent id seen :: trace⟩ db₁ db₂ →
      P.Keeps ⟨[], events ++ readEvent id seen :: trace⟩ db₂
          (schema.apply (.update .refundRequests id (RefundUpdate.processed.patch now)) db₂) ∧
        Q (.ok r) ⟨[], .stmt (.refundUpdate id .processed) (.ok r) ::
            (events ++ readEvent id seen :: trace)⟩
          (schema.apply (.update .refundRequests id (RefundUpdate.processed.patch now)) db₂)) :
    P.wp (processRefund id) Q ⟨[], trace⟩ db := by
  unfold processRefund
  rw [P.wp_bind]
  refine P.wp_exec_auto (fun e db₁ _ => hthrow _ _ _) fun env found ws db₁ hs₁ hx => ?_
  obtain ⟨rfl, hfound⟩ := exec_refundFindUnique hx
  refine ⟨P.keeps_refl hs₁.inv, ?_⟩
  cases found with
  | none => exact hthrow _ _ _
  | some seen =>
      simp only [Protocol.bindPost_ok]
      split
      · exact hthrow _ _ _
      · next hstatus =>
        have hstatus : seen.status = .APPROVED := by simpa using hstatus
        rw [P.wp_bind, P.wp_tryCatch]
        refine P.wp_mono (fun r c' db₂ hr => ?_) (P.wp_stackOk hs₁.valid .nil
          (P.wp_frame ((dispatch_only seen).mono fun _ _ _ => trivial) (hdispatch seen db₁ hs₁ hfound.symm hstatus)))
        obtain ⟨⟨hg, hframe⟩, hv₂, -⟩ := hr
        obtain ⟨stack, trace'⟩ := c'
        obtain rfl : stack = [] := hframe.grows
        obtain ⟨events, rfl⟩ := hframe.trace
        cases r with
        | ok a =>
            exact wp_refundUpdate P hthrow fun r now db₃ hs₃ =>
              hprocessed seen r now events db₂ db₃ hstatus hv₂ (hg a rfl) hs₃
        | error e =>
            show P.wp (query (.refundUpdate id (.failed e.message)) >>= fun _ => throw e) _ _ _
            rw [P.wp_bind]
            refine wp_refundUpdate P (fun _ _ _ => hthrow _ _ _) fun r now db₃ hs₃ => ?_
            exact ⟨hfailed seen e.message now events db₂ db₃ hstatus hs₃, hthrow _ _ _⟩

end Rules

end RefundsService

end PaymentBilling
