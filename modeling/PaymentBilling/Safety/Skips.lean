import PaymentBilling.Safety.Deliveries
import PaymentBilling.Spec.Blame
import PaymentBilling.Spec.Handlers

/-!
# Safety.Skips

Deliveries that are answered `skipped`, among any events of both gateways.

Both controllers keep their records in one table, under the bare identifier of
the event, and take any violated unique constraint for the one of the record.
A skip is justified as long as neither of these makes a difference: no other
row clashes with one that is there, and no identifier belongs to both gateways.
-/

namespace PaymentBilling

open Relational Transact

/-! ## Calls -/

/-- A call of one of the gateways. -/
inductive GatewayCall
  | card (config : AuthorizeNetConfig) (req : AuthorizeNetRequest)
  | chain (setting : Option String) (event : SolanaEvent)

namespace GatewayCall

/-- What the records of the gateway's events say about their source. -/
def source : GatewayCall → String
  | card _ _ => "authorize_net"
  | chain _ _ => "solana"

/-- The identifier that the call records. -/
def announces : GatewayCall → Js
  | card _ req => req.body.eventId
  | chain _ event => (event.data.map (·.txHash)).getD .undefined

/-- The program of a call. -/
def run : GatewayCall → Action (WebhookResponse ⊕ ConfirmationResponse)
  | card config req => AuthorizeNetWebhookController.handleWebhook config req >>= fun r => pure (.inl r)
  | chain setting event =>
    SolanaConfirmationController.handleConfirmation setting event >>= fun r => pure (.inr r)

/-- The answer to an event that is taken for one that was handled before. -/
def skipped : GatewayCall → WebhookResponse ⊕ ConfirmationResponse
  | card _ _ => .inl { skipped := true }
  | chain _ _ => .inr { settled := true, skipped := true }

end GatewayCall

/-- The calls `calls`, about to run on the database `db`. -/
def gatewaySystem {ι : Type} (db : Database) (calls : ι → GatewayCall) :
    Sys Stmt Data RowWrite RowLock Err (WebhookResponse ⊕ ConfirmationResponse) ι :=
  .start db.rows fun i => (calls i).run

/-! ## Records -/

/-- Records are inserted under this identifier and source only. -/
def RecordsAs (id : Js) (source : String) : (β : Type) → Stmt β → Prop
  | _, .processedWebhookCreate x src _ => x = id ∧ src = source
  | _, s => s.writes ≠ some .processedWebhooks

theorem recordsAs_of_writes {id : Js} {source : String} {β : Type} {s : Stmt β}
    (h : s.writes ≠ some .processedWebhooks) : RecordsAs id source β s := by
  cases s with
  | processedWebhookCreate x src type => exact (h rfl).elim
  | _ => exact h

theorem recordsAs_of_event {id : Js} {source : String} {α : Type} {p : Action α}
    (h : Only (WritesIn eventTables) p 0) : Only (RecordsAs id source) p 0 :=
  h.mono fun _ _ hs => recordsAs_of_writes fun hw => absurd (hs _ hw) (by decide)

/-- The write inserts no other record. -/
def InsertsAs (id : Js) (source : String) (w : RowWrite) : Prop :=
  w.table = .processedWebhooks →
    ∃ row : ProcessedWebhook, w = .insert .processedWebhooks row ∧ id = .str row.id ∧ row.source = source

theorem insertsAs_of_exec {id : Js} {source : String} :
    ∀ β (s : Stmt β), RecordsAs id source β s → ∀ env db b ws, postgres.exec s env db = .ok (b, ws) →
      ∀ w ∈ ws, InsertsAs id source w := by
  intro β s hs env db b ws hx w hw htable
  have hwrites := table_of_exec hx w hw
  rw [htable] at hwrites
  cases s with
  | processedWebhookCreate x src type =>
      obtain ⟨i, type', rfl, -, rfl, hrow⟩ := exec_processedWebhookCreate hx
      obtain ⟨hid, rfl⟩ := hs
      refine ⟨b, List.mem_singleton.mp hw, ?_, ?_⟩
      · rw [← hid, hrow]
      · rw [hrow]
  | _ => exact (hs hwrites).elim

/-- A record that is new in `db'` is of the event `id` of the source. -/
def NewRecords (id : Js) (source : String) (db db' : Data) : Prop :=
  ∀ row ∈ db' .processedWebhooks, row ∉ db .processedWebhooks → id = .str row.id ∧ row.source = source

theorem newRecords_applyAll {id : Js} {source : String} {ws : List RowWrite} {db : Data}
    (h : ∀ w ∈ ws, InsertsAs id source w) : NewRecords id source db (postgres.applyAll ws db) := by
  induction ws generalizing db with
  | nil => exact fun row hrow hnew => (hnew hrow).elim
  | cons w ws ih =>
      rw [List.forall_mem_cons] at h
      intro row hrow hnew
      by_cases hin : row ∈ schema.apply w db .processedWebhooks
      · by_cases htable : w.table = .processedWebhooks
        · obtain ⟨row', rfl, hid, hsource⟩ := h.1 htable
          rw [Schema.apply_insert_self] at hin
          rcases List.mem_append.mp hin with hold | hself
          · exact (hnew hold).elim
          · rw [List.mem_singleton.mp hself]
            exact ⟨hid, hsource⟩
        · rw [Schema.apply_of_ne (Ne.symm htable)] at hin
          exact (hnew hin).elim
      · exact ih h.2 row hrow hin

/-- The protocol of a call: every step of it adds no other record. -/
abbrev recordProtocol (id : Js) (source : String) : Protocol locking (fun _ => True) :=
  .any locking (fun _ db db' => NewRecords id source db db') fun _ _ _ hrow hnew => (hnew hrow).elim

theorem wp_records {id : Js} {source : String} {α : Type} {p : Action α} {db : Data}
    (h : Only (RecordsAs id source) p 0) :
    (recordProtocol id source).wp p (fun _ _ _ => True) {} db := by
  refine Protocol.wp_mono _ (fun _ _ _ _ => trivial) (Protocol.wp_only _ (W := InsertsAs id source)
    insertsAs_of_exec (fun _ _ _ _ hw _ _ _ => ?_) h)
  exact ⟨trivial, newRecords_applyAll hw⟩

theorem handleWebhook_records (config : AuthorizeNetConfig) (req : AuthorizeNetRequest) :
    Only (RecordsAs req.body.eventId "authorize_net")
      (AuthorizeNetWebhookController.handleWebhook config req) 0 :=
  AuthorizeNetWebhookController.handleWebhook_only config req
    (recordsAs_of_writes (by simp [Stmt.writes])) ⟨rfl, rfl⟩
    (recordsAs_of_event (AuthorizeNetWebhookController.applyEvent_only _ _))

theorem handleConfirmation_records (setting : Option String) (event : SolanaEvent) :
    Only (RecordsAs ((event.data.map (·.txHash)).getD .undefined) "solana")
      (SolanaConfirmationController.handleConfirmation setting event) 0 := by
  refine SolanaConfirmationController.handleConfirmation_only setting event
    (fun _ _ => recordsAs_of_writes (by simp [Stmt.writes])) (fun data hdata => ⟨?_, rfl⟩)
    fun data _ => recordsAs_of_event (SolanaConfirmationController.applyConfirmation_only data)
  rw [hdata]
  rfl

theorem GatewayCall.run_records (call : GatewayCall) :
    Only (RecordsAs call.announces call.source) call.run 0 := by
  cases call with
  | card config req =>
      exact only_bind (handleWebhook_records config req) fun _ => only_pure _
  | chain setting event =>
      exact only_bind (handleConfirmation_records setting event) fun _ => only_pure _

/-! ## Skips -/

/-- A row that is not a record was rejected because of a unique value. -/
def Clashes (event : Event Stmt Err) : Prop := event.Blamed (WritesIn eventTables) IsDuplicate

/-- The protocol of a client that does as it likes. -/
abbrev freeProtocol : Protocol locking (fun _ => True) :=
  .any locking (fun _ _ _ => True) fun _ _ => trivial

/-- The transaction of an event ends in a violated unique constraint because of
the record of the event, or because another row clashes. -/
theorem wp_recordFirst_duplicate {id type : Js} {source : String} {rest : Action Unit}
    {trace : List (Event Stmt Err)} {db : Data} (honly : Only (WritesIn eventTables) rest 0)
    (hpass : PassesOn rest) :
    freeProtocol.wp (transaction (query (.processedWebhookCreate id source type) >>= fun _ => rest))
      (fun r c' db' => ∀ e, r = .error e → IsDuplicate e →
        HasRecord id db' ∨ ∃ event ∈ c'.trace, Clashes event) ⟨[], trace⟩ db := by
  refine Protocol.wp_transaction _ fun db₁ hs₁ => ?_
  rw [Protocol.wp_bind]
  refine Protocol.wp_exec_tx_why _ (fun e db₂ hs₂ hwhy => ?_) fun env row ws db₂ hs₂ hx => ?_
  · intro db₃ hs₃ e' he hdup
    cases he
    rcases hwhy with ⟨m, rfl⟩ | ⟨env, hx⟩
    · cases hdup
    · rw [isDuplicate_iff.mp hdup] at hx
      have hrecord : HasRecord id db₂ := exec_processedWebhookCreate_taken hx
      exact .inl (hrecord.mono hs₃.le)
  · refine Protocol.wp_mono _ (fun r c' db₃ hr => ?_) (Protocol.wp_frame _ (anyStmt_of_only honly)
      (Protocol.wp_blame (B := IsDuplicate) (fun _ => nofun) honly hpass
        (Protocol.wp_of_keeps (fun _ _ _ => ⟨trivial, trivial⟩) rest _ db₂)))
    obtain ⟨⟨-, events, he, hblame⟩, hframe⟩ := hr
    cases r with
    | error e =>
        intro db₄ _ e' he' hdup
        cases he'
        obtain ⟨event, hevent, hclash⟩ := hblame e rfl hdup
        refine .inr ⟨event, .tail _ ?_, hclash⟩
        rw [he]
        exact List.mem_append_left _ hevent
    | ok a =>
        obtain ⟨ws', held, hgrow, -⟩ := hframe.grows
        refine ⟨_, _, hgrow, fun db₄ hs₄ => ⟨⟨trivial, trivial⟩, nofun, fun m e' he' hdup => ?_⟩⟩
        cases he'
        cases hdup

/-- A call that is answered `skipped` has found its record, or another row has
clashed. -/
theorem wp_skips (call : GatewayCall) (db : Data) :
    freeProtocol.wp call.run (fun r c' db' => r = .ok call.skipped →
      HasRecord call.announces db' ∨ ∃ event ∈ c'.trace, Clashes event) {} db := by
  cases call with
  | card config req =>
      refine (Protocol.wp_bind ..).mpr (Protocol.wp_mono _ (Q := fun r c' db' =>
        r = .ok { skipped := true } → HasRecord req.body.eventId db' ∨
          ∃ event ∈ c'.trace, Clashes event) (fun r c' db' hr => ?_) ?_)
      · cases r with
        | ok a =>
            intro hskip
            refine hr ?_
            cases hskip
            rfl
        | error e => nofun
      · refine AuthorizeNetWebhookController.wp_handleWebhook _ (fun _ _ _ => nofun)
          (fun id row _ _ _ hid hrow _ => .inl ⟨id, row, hid, hrow⟩) fun _ db₁ _ _ _ => ?_
        refine Protocol.wp_mono _ (fun r c' db' hr => ?_) (wp_recordFirst_duplicate
          (AuthorizeNetWebhookController.applyEvent_only _ _)
          (AuthorizeNetWebhookController.applyEvent_passes _ _))
        cases r with
        | ok _ => nofun
        | error e => exact fun hdup _ => hr e rfl hdup
  | chain setting event =>
      refine (Protocol.wp_bind ..).mpr (Protocol.wp_mono _ (Q := fun r c' db' =>
        r = .ok { settled := true, skipped := true } →
          HasRecord ((event.data.map (·.txHash)).getD .undefined) db' ∨
            ∃ event ∈ c'.trace, Clashes event) (fun r c' db' hr => ?_) ?_)
      · cases r with
        | ok a =>
            intro hskip
            refine hr ?_
            cases hskip
            rfl
        | error e => nofun
      · refine SolanaConfirmationController.wp_handleConfirmation _ (fun _ _ _ => nofun)
          (fun _ => nofun) (fun data id row _ _ _ hdata hid hrow _ => .inl ⟨id, row, ?_, hrow⟩)
          fun data _ db₁ hdata _ _ _ => ?_
        · rw [hdata]
          exact hid
        · rw [hdata]
          refine Protocol.wp_mono _ (fun r c' db' hr => ?_) (wp_recordFirst_duplicate
            (SolanaConfirmationController.applyConfirmation_only _)
            (SolanaConfirmationController.applyConfirmation_passes _))
          cases r with
          | ok _ => nofun
          | error e => exact fun hdup _ => hr e rfl hdup

/-! ## The result -/

/-- The step leaves a client that no row has clashed for. -/
def NoClash {ι α : Type} (_ : Sys Stmt Data RowWrite RowLock Err α ι) (i : ι)
    (s' : Sys Stmt Data RowWrite RowLock Err α ι) : Prop :=
  ∀ event ∈ (s'.clients i).loc.trace, ¬Clashes event

/-- The event `id` of the source has been committed in the state `s`: before the
run began, or in one of its steps by a call that announces it. -/
def AlreadyCommitted {ι : Type} [DecidableEq ι] (db : Database) (calls : ι → GatewayCall)
    (source id : String)
    (s : Sys Stmt Data RowWrite RowLock Err (WebhookResponse ⊕ ConfirmationResponse) ι) : Prop :=
  (∃ row ∈ db.rows .processedWebhooks, row.id = id ∧ row.source = source) ∨
    ∃ j s₁ s₂, Runs postgres AnyStep (gatewaySystem db calls) s₁ ∧ Step postgres s₁ j s₂ ∧
      Runs postgres AnyStep s₂ s ∧ (calls j).source = source ∧ (calls j).announces = .str id ∧
      ∃ row ∈ s₂.db .processedWebhooks, row ∉ s₁.db .processedWebhooks ∧ row.id = id ∧
        row.source = source

/-- A call of a gateway that is answered `skipped` announces an event that the
same gateway has committed, as long as no other row clashes and no identifier
belongs to both gateways. -/
theorem skip_justified {ι : Type} [DecidableEq ι] (db : Database) (calls : ι → GatewayCall)
    (hcalls : ∀ i j id, (calls i).announces = .str id → (calls j).announces = .str id →
      (calls i).source = (calls j).source)
    (hstart : ∀ i, ∀ row ∈ db.rows .processedWebhooks, (calls i).announces = .str row.id →
      (calls i).source = row.source)
    (s : Sys Stmt Data RowWrite RowLock Err (WebhookResponse ⊕ ConfirmationResponse) ι)
    (h : Runs postgres NoClash (gatewaySystem db calls) s) (i : ι)
    (hskip : (s.clients i).prog = .ret (.ok (calls i).skipped)) :
    ∃ id, (calls i).announces = .str id ∧ AlreadyCommitted db calls (calls i).source id s := by
  have hany : Runs postgres AnyStep (gatewaySystem db calls) s := h.mono fun _ _ _ _ => trivial
  have hclean : ∀ j, ∀ event ∈ (s.clients j).loc.trace, ¬Clashes event :=
    Runs.all (A := fun x => ∀ event ∈ x.loc.trace, ¬Clashes event) h
      fun _ _ hevent => (List.not_mem_nil hevent).elim
  have hrecord : HasRecord (calls i).announces s.db := by
    have hpost : HasRecord (calls i).announces s.db ∨ ∃ event ∈ (s.clients i).loc.trace, Clashes event :=
      post_of_runs (D := locking) (Q := fun r c db => r = .ok (calls i).skipped →
        HasRecord (calls i).announces db ∨ ∃ event ∈ c.trace, Clashes event)
        (fun r c db db' hle hq hr => (hq hr).imp_left (·.mono hle)) db.valid
        (by exact wp_skips (calls i) db.rows) hany hskip rfl
    exact hpost.resolve_right fun ⟨event, hevent, hclash⟩ => hclean i event hevent hclash
  obtain ⟨id, row, hid, hfind⟩ := hrecord
  have hrow : row ∈ s.db .processedWebhooks := Schema.mem_of_find hfind
  obtain rfl : row.id = id := Schema.id_of_find hfind
  refine ⟨row.id, hid, ?_⟩
  by_cases hbefore : row ∈ db.rows .processedWebhooks
  · exact .inl ⟨row, hbefore, rfl, (hstart i row hbefore hid).symm⟩
  · -- the step that has committed the record
    obtain ⟨s₁, j, s₂, h₁, hstep, h₂, hnot, hin⟩ :=
      hany.exists_step (A := fun db => row ∈ db .processedWebhooks) hbefore hrow
    have hguar : NewRecords (calls j).announces (calls j).source s₁.db s₂.db :=
      (guar_of_runs (D := locking)
        (G := fun _ db db' => NewRecords (calls j).announces (calls j).source db db') db.valid
        (by exact wp_records (calls j).run_records) h₁ hstep).1
    obtain ⟨hannounces, hsame⟩ := hguar row hin hnot
    have hsource : (calls i).source = (calls j).source := hcalls i j row.id hid hannounces
    exact .inr ⟨j, s₁, s₂, h₁, hstep, h₂, hsource.symm, hannounces, row, hin, hnot, rfl,
      hsame.trans hsource.symm⟩

/-! ## Two calls with one identifier -/

/-- The client has ended with this answer. -/
def answered (answer : WebhookResponse ⊕ ConfirmationResponse)
    (x : Client Stmt RowWrite RowLock Err (WebhookResponse ⊕ ConfirmationResponse)) : Bool :=
  match x.prog with
  | .ret (.ok a) => a = answer
  | _ => false

theorem eq_ret_of_answered {answer : WebhookResponse ⊕ ConfirmationResponse}
    {x : Client Stmt RowWrite RowLock Err (WebhookResponse ⊕ ConfirmationResponse)}
    (h : answered answer x = true) : x.prog = .ret (.ok answer) := by
  unfold answered at h
  split at h
  · next hprog => rw [hprog, of_decide_eq_true h]
  · cases h

/-- A statement was rejected because of a unique value. -/
def rejectsUnique : Event Stmt Err → Bool
  | .stmt _ (.error (.rejected .unique)) => true
  | _ => false

theorem rejectsUnique_of_clashes {event : Event Stmt Err} (h : Clashes event) :
    rejectsUnique event = true := by
  cases event with
  | stmt s answer =>
      cases answer with
      | ok _ => exact h.elim
      | error e =>
          rw [isDuplicate_iff.mp h.2]
          rfl
  | begin => exact h.elim
  | commit _ => exact h.elim
  | rollback => exact h.elim

/-- Nothing was rejected because of a unique value. -/
def neverRejected {n : Nat} {α : Type} (i : Fin n) (s : Sys Stmt Data RowWrite RowLock Err α (Fin n)) :
    Bool := (s.clients i).loc.trace.all (!rejectsUnique ·)

theorem noClash_of_neverRejected {n : Nat} {α : Type}
    (s : Sys Stmt Data RowWrite RowLock Err α (Fin n)) (i : Fin n)
    (s' : Sys Stmt Data RowWrite RowLock Err α (Fin n)) (h : neverRejected i s' = true) :
    NoClash s i s' := by
  intro event hevent hclash
  have hnot := List.all_eq_true.mp h event hevent
  rw [rejectsUnique_of_clashes hclash] at hnot
  cases hnot

/-- A purchase, delivered twice. -/
def purchaseTwice (_ : Fin 2) : GatewayCall := .card constantHmac purchaseDelivery

/-- The second delivery is skipped after the first has committed. -/
theorem purchaseTwice_justified :
    ∃ s, Runs postgres NoClash (gatewaySystem oneUser purchaseTwice) s ∧
      (s.clients 1).prog = .ret (.ok (.inl { skipped := true })) ∧
      ∃ id, (Js.str "event_1") = .str id ∧
        AlreadyCommitted oneUser purchaseTwice "authorize_net" id s := by
  have hplay : (replay postgres neverRejected deliverTwice
      (gatewaySystem oneUser purchaseTwice)).any
      (fun s => answered (.inl { skipped := true }) (s.clients 1)) = true := by decide +kernel
  obtain ⟨s, h, hanswer⟩ := exists_runs_of_replay noClash_of_neverRejected hplay
  exact ⟨s, h, eq_ret_of_answered hanswer, skip_justified oneUser purchaseTwice (fun _ _ _ _ _ => rfl)
    (fun _ _ hrow => nomatch hrow) s h 1 (eq_ret_of_answered hanswer)⟩

/-- A purchase with a card, and a payment on the chain whose hash is the
identifier of the purchase. -/
def sharedIdentifier : Fin 2 → GatewayCall
  | 0 => .card constantHmac purchaseDelivery
  | 1 => .chain none
    { eventId := .str "confirmation_1"
      data := some { txHash := .str "event_1", userId := .str "user", amount := .int 100
                     confirmations := .int 3 } }

/-- The payment is skipped, and there are only records of purchases. -/
def skippedUnrecorded
    (s : Sys Stmt Data RowWrite RowLock Err (WebhookResponse ⊕ ConfirmationResponse) (Fin 2)) : Bool :=
  answered (.inr { settled := true, skipped := true }) (s.clients 1) &&
    (s.db .processedWebhooks).all (·.source = "authorize_net")

/-- A payment on the chain is skipped that nobody has ever confirmed. -/
theorem sharedIdentifier_unjustified :
    ∃ s, Runs postgres AnyStep (gatewaySystem oneUser sharedIdentifier) s ∧
      (s.clients 1).prog = .ret (.ok (sharedIdentifier 1).skipped) ∧
      ¬∃ id, (sharedIdentifier 1).announces = .str id ∧
        AlreadyCommitted oneUser sharedIdentifier (sharedIdentifier 1).source id s := by
  have hplay : (replay postgres anyTime deliverTwice (gatewaySystem oneUser sharedIdentifier)).any
      skippedUnrecorded = true := by decide +kernel
  obtain ⟨s, h, hgoal⟩ := exists_runs_of_replay (C := AnyStep) (fun _ _ _ _ => trivial) hplay
  rw [skippedUnrecorded, Bool.and_eq_true] at hgoal
  obtain ⟨hanswer, hrecords⟩ := hgoal
  refine ⟨s, h, eq_ret_of_answered hanswer, fun ⟨id, _, hcommitted⟩ => ?_⟩
  rcases hcommitted with ⟨row, hrow, -⟩ | ⟨j, s₁, s₂, h₁, hstep, h₂, -, -, row, hrow, -, -, hsource⟩
  · cases hrow
  · -- a record stays, with its source
    have hok₂ := ((Discipline.SysOk.start locking oneUser.valid _).runs h₁).1.step hstep
    have hfind : schema.find .processedWebhooks row.id s₂.db = some row := hok₂.valid.find_of_mem hrow
    obtain ⟨row', hrow', hfixed⟩ := (hok₂.runs h₂).2 _ _ _ hfind
    have hsame : row' = row := hfixed
    have hcard := List.all_eq_true.mp hrecords row' (Schema.mem_of_find hrow')
    rw [hsame, hsource] at hcard
    revert hcard
    decide

end PaymentBilling
