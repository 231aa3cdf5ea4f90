import PaymentBilling.Spec.Accounts
import PaymentBilling.Spec.Chargebacks

/-!
# Spec.DisputeBooks

What the ledger knows about disputes.

The ledger has the reversal of every dispute and the transaction of its
outcome, if there is one, each under a key of its own, and nothing else under
such keys (`DisputeBooks`).  New disputes and outcomes keep it so, and the
revenue account moves by what they are about.
-/

namespace PaymentBilling

open Relational Transact

/-! ## Bookings -/

/-- A transaction under `key` fills the slots. -/
def Booked (key : String) (slots : List Slot) (db : Data) : Prop :=
  ∃ t ∈ db .ledgerTransactions, t.idempotencyKey = some key ∧
    List.Forall₂ (Fills db) slots (entriesOf t.id db)

/-- No transaction is under `key`. -/
def Unbooked (key : String) (db : Data) : Prop :=
  ∀ t ∈ db .ledgerTransactions, t.idempotencyKey ≠ some key

/-- The entries under `key`. -/
def entriesUnder (key : String) (db : Data) : List LedgerEntry :=
  ((schema.findBy .ledgerTransactions (.idempotencyKey key) db).map fun t =>
    entriesOf t.id db).getD []

/-- What is booked stays booked, and nothing is added but under `key`. -/
structure BooksOnly (key : Option String) (db db' : Data) : Prop where
  booked : ∀ {k slots}, Booked k slots db → Booked k slots db'
  unbooked : ∀ {k}, key ≠ some k → Unbooked k db → Unbooked k db'

section Bookings

variable {key : Option String} {k : String} {slots : List Slot} {db db' db₁ db₂ : Data}

theorem addedTo_append (user : String) (type : LedgerAccountType) (es es' : List LedgerEntry)
    (db : Data) :
    addedTo user type (es ++ es') db = addedTo user type es db + addedTo user type es' db := by
  simp only [addedTo, List.filter_append, List.map_append, List.sum_append]

/-- What is booked under a key adds what its slots say. -/
theorem Booked.addedTo_eq (h : Booked k slots db) (hv : schema.Valid db) (user : String)
    (type : LedgerAccountType) : addedTo user type (entriesUnder k db) db = slotTotal user type slots := by
  obtain ⟨t, ht, hk, hfill⟩ := h
  have hfound : schema.findBy .ledgerTransactions (.idempotencyKey k) db = some t :=
    hv.findBy_of_mem ht (by simp [schema, hk])
  rw [entriesUnder, hfound]
  exact PaymentBilling.addedTo_eq user type hfill

theorem Unbooked.addedTo_eq (h : Unbooked k db) (user : String) (type : LedgerAccountType) :
    addedTo user type (entriesUnder k db) db = 0 := by
  have hfound : schema.findBy .ledgerTransactions (.idempotencyKey k) db = none := by
    rw [Schema.findBy, List.find?_eq_none]
    intro t ht hin
    refine h t ht ?_
    simpa [schema, eq_comm] using hin
  rw [entriesUnder, hfound]
  rfl

theorem Booked.not_unbooked (h : Booked k slots db) : ¬Unbooked k db := by
  obtain ⟨t, ht, hk, -⟩ := h
  exact fun hnone => hnone t ht hk

theorem BooksOnly.refl (key : Option String) (db : Data) : BooksOnly key db db := ⟨id, fun _ => id⟩

theorem BooksOnly.trans (h : BooksOnly none db db₁) (h' : BooksOnly key db₁ db₂) :
    BooksOnly key db db₂ :=
  ⟨fun hb => h'.booked (h.booked hb), fun hk hu => h'.unbooked hk (h.unbooked (by simp) hu)⟩

theorem BooksOnly.then (h : BooksOnly key db db₁) (h' : BooksOnly none db₁ db₂) :
    BooksOnly key db db₂ :=
  ⟨fun hb => h'.booked (h.booked hb), fun hk hu => h'.unbooked (by simp) (h.unbooked hk hu)⟩

/-- Changes elsewhere book nothing. -/
theorem BooksOnly.other (hle : locking.le db db')
    (htxns : db' .ledgerTransactions = db .ledgerTransactions)
    (hentries : db' .ledgerEntries = db .ledgerEntries) : BooksOnly none db db' := by
  constructor
  · rintro k slots ⟨t, ht, hk, hfill⟩
    refine ⟨t, htxns ▸ ht, hk, ?_⟩
    rw [entriesOf, hentries]
    exact fills_mono hle hfill
  · intro k _ hu
    rw [Unbooked, htxns]
    exact hu

theorem Unposted.booksOnly (h : Unposted key db db') (hle : locking.le db db') :
    BooksOnly none db db' := by
  constructor
  · rintro k slots ⟨t, ht, hk, hfill⟩
    refine ⟨t, h.transactions ▸ ht, hk, ?_⟩
    rw [h.entries]
    exact fills_mono hle hfill
  · intro k _ hu
    rw [Unbooked, h.transactions]
    exact hu

theorem Posted.booksOnly {txn : LedgerTransaction} (h : Posted key slots txn db db')
    (hle : locking.le db db') : BooksOnly key db db' := by
  constructor
  · rintro k slots ⟨t, ht, hk, hfill⟩
    refine ⟨t, ?_, hk, ?_⟩
    · rw [h.transactions]
      exact List.mem_append_left _ ht
    · rw [h.entries t ht]
      exact fills_mono hle hfill
  · intro k hk hu t ht
    rw [h.transactions, List.mem_append, List.mem_singleton] at ht
    rcases ht with ht | rfl
    · exact hu t ht
    · rw [h.key_eq]
      exact hk

theorem Posted.booked {txn : LedgerTransaction} (h : Posted (some k) slots txn db db') :
    Booked k slots db' := by
  refine ⟨txn, ?_, h.key_eq, h.filled⟩
  rw [h.transactions]
  exact List.mem_append_right _ (.head _)

theorem Posted.unbooked {txn : LedgerTransaction} (h : Posted (some k) slots txn db db') :
    Unbooked k db := h.fresh k rfl

theorem Unposted.not_unbooked (h : Unposted (some k) db db') : ¬Unbooked k db := by
  obtain ⟨k', hk', t, ht, hkey⟩ := h.known
  obtain rfl := Option.some.inj hk'
  exact fun hnone => hnone t ht hkey

end Bookings

/-! ## The books of a dispute -/

/-- The slots of the reversal of a disputed charge. -/
def reversalSlots (d : Dispute) : List Slot :=
  [⟨LedgerService.SYSTEM_USER_ID, .REVENUE, .DEBIT, d.amount⟩, ⟨d.userId, .ASSET, .CREDIT, d.amount⟩]

/-- The slots of the transaction of an outcome. -/
def outcomeSlots (d : Dispute) (fee : Int) : DisputeOutcome → List Slot
  | .WON =>
    [⟨d.userId, .ASSET, .DEBIT, d.amount⟩, ⟨LedgerService.SYSTEM_USER_ID, .REVENUE, .CREDIT, d.amount⟩]
  | .LOST =>
    [⟨LedgerService.SYSTEM_USER_ID, .EXPENSE, .DEBIT, fee⟩, ⟨d.userId, .ASSET, .CREDIT, fee⟩]

/-- What has to be booked for a dispute, and what must not. -/
structure DisputeBooked (fee : Int) (d : Dispute) (db : Data) : Prop where
  gateway : d.gatewayDisputeId = gatewayDisputeKey d.originalTransactionId
  reversed : Booked (reversalKey d.originalTransactionId) (reversalSlots d) db
  resolved : ∀ o : DisputeOutcome, d.status = o.status →
    Booked (outcomeKey d.id o) (outcomeSlots d fee o) db
  unresolved : ∀ o : DisputeOutcome, d.status ≠ o.status → Unbooked (outcomeKey d.id o) db

/-- What a dispute costs in revenue. -/
def revenueLost (d : Dispute) : Int := if d.status = .WON then 0 else d.amount

/-- The books of all disputes, since `start`. -/
structure DisputeBooks (start db : Data) : Prop where
  fee : chargebackFee db = chargebackFee start
  disputes : ∀ d ∈ db .disputes, DisputeBooked (chargebackFee start) d db
  unreversed : ∀ transactionId, (∀ d ∈ db .disputes, d.originalTransactionId ≠ transactionId) →
    Unbooked (reversalKey transactionId) db
  unopened : ∀ id o, (∀ d ∈ db .disputes, d.id ≠ id) → Unbooked (outcomeKey id o) db
  revenue : accountBalance LedgerService.SYSTEM_USER_ID .REVENUE db +
      ((db .disputes).map revenueLost).sum =
    accountBalance LedgerService.SYSTEM_USER_ID .REVENUE start

section Books

variable {start db db' : Data} {fee : Int} {d d' dispute : Dispute} {key : Option String}

theorem SameDispute.reversalSlots_eq (h : SameDispute d d') : reversalSlots d' = reversalSlots d := by
  rw [reversalSlots, h.userId, h.amount, reversalSlots]

theorem SameDispute.outcomeSlots_eq (h : SameDispute d d') (o : DisputeOutcome) :
    outcomeSlots d' fee o = outcomeSlots d fee o := by
  cases o with
  | WON => rw [outcomeSlots, h.userId, h.amount, outcomeSlots]
  | LOST => rw [outcomeSlots, h.userId, outcomeSlots]

/-- Other bookings do not concern a dispute, nor do changes that neither set
nor undo an outcome. -/
theorem DisputeBooked.mono (h : DisputeBooked fee d db) (hsame : SameDispute d d')
    (hstatus : ∀ o : DisputeOutcome, d'.status = o.status ↔ d.status = o.status)
    (hb : BooksOnly key db db') (hkey : ∀ o, key ≠ some (outcomeKey d.id o)) :
    DisputeBooked fee d' db' where
  gateway := by rw [hsame.gatewayDisputeId, hsame.originalTransactionId, h.gateway]
  reversed := by
    rw [hsame.originalTransactionId, hsame.reversalSlots_eq]
    exact hb.booked h.reversed
  resolved o ho := by
    rw [hsame.id, hsame.outcomeSlots_eq]
    exact hb.booked (h.resolved o ((hstatus o).mp ho))
  unresolved o ho := by
    rw [hsame.id]
    exact hb.unbooked (hkey o) (h.unresolved o fun he => ho ((hstatus o).mpr he))

theorem revenueLost_eq (hsame : SameDispute d d')
    (hstatus : ∀ o : DisputeOutcome, d'.status = o.status ↔ d.status = o.status) :
    revenueLost d' = revenueLost d := by
  have hwon : d'.status = .WON ↔ d.status = .WON := hstatus .WON
  simp only [revenueLost, hwon, hsame.amount]

/-- Changes that neither book anything nor set or undo an outcome. -/
theorem DisputeBooks.keep {f : Dispute → Dispute} (h : DisputeBooks start db)
    (hb : BooksOnly none db db') (hfee : chargebackFee db' = chargebackFee db)
    (hrevenue : accountBalance LedgerService.SYSTEM_USER_ID .REVENUE db' =
      accountBalance LedgerService.SYSTEM_USER_ID .REVENUE db)
    (hd : db' .disputes = (db .disputes).map f)
    (hf : ∀ d ∈ db .disputes, SameDispute d (f d) ∧
      ∀ o : DisputeOutcome, (f d).status = o.status ↔ d.status = o.status) :
    DisputeBooks start db' := by
  constructor
  · rw [hfee, h.fee]
  · rw [hd]
    intro d' hd'
    obtain ⟨d, hin, rfl⟩ := List.mem_map.mp hd'
    exact (h.disputes d hin).mono (hf d hin).1 (hf d hin).2 hb (by simp)
  · intro transactionId hnone
    refine hb.unbooked (by simp) (h.unreversed transactionId fun d hin => ?_)
    rw [← (hf d hin).1.originalTransactionId]
    exact hnone _ (hd ▸ List.mem_map_of_mem hin)
  · intro id o hnone
    refine hb.unbooked (by simp) (h.unopened id o fun d hin => ?_)
    rw [← (hf d hin).1.id]
    exact hnone _ (hd ▸ List.mem_map_of_mem hin)
  · have hlost : ((db' .disputes).map revenueLost) = (db .disputes).map revenueLost := by
      rw [hd, List.map_map]
      exact List.map_congr_left fun d hin => revenueLost_eq (hf d hin).1 (hf d hin).2
    rw [hlost, hrevenue]
    exact h.revenue

theorem SameDispute.refl (d : Dispute) : SameDispute d d := ⟨rfl, rfl, rfl, rfl, rfl⟩

theorem DisputeOutcome.status_inj {o o' : DisputeOutcome} (h : o.status = o'.status) : o = o' := by
  cases o <;> cases o' <;> first | rfl | cases h

/-- An outcome is set and booked. -/
theorem DisputeBooks.resolve {o : DisputeOutcome} (now : Int) (h : DisputeBooks start db)
    (hv : schema.Valid db) (hfind : schema.find .disputes d.id db = some d)
    (hopen : ∀ o : DisputeOutcome, d.status ≠ o.status)
    (hb : BooksOnly (some (outcomeKey d.id o)) db db')
    (hbooked : Booked (outcomeKey d.id o) (outcomeSlots d (chargebackFee start) o) db')
    (hfee : chargebackFee db' = chargebackFee db)
    (hrevenue : accountBalance LedgerService.SYSTEM_USER_ID .REVENUE db' =
      accountBalance LedgerService.SYSTEM_USER_ID .REVENUE db +
        slotTotal LedgerService.SYSTEM_USER_ID .REVENUE (outcomeSlots d (chargebackFee start) o))
    (hd : db' .disputes =
      (db .disputes).map (schema.revise d.id (DisputePatch.resolve o.status now))) :
    DisputeBooks start db' := by
  have hmem : d ∈ db .disputes := Schema.mem_of_find hfind
  have hold := h.disputes d hmem
  -- a row is another one as it was, or the one that is resolved
  have hrows : ∀ d' ∈ db' .disputes, (d' ∈ db .disputes ∧ d'.id ≠ d.id) ∨
      d' = (DisputePatch.resolve o.status now).apply d := by
    intro d' hd'
    rw [hd] at hd'
    obtain ⟨d₀, hin, rfl⟩ := List.mem_map.mp hd'
    by_cases hid : d₀.id = d.id
    · obtain rfl : d₀ = d := hv.eq_of_id hin hmem hid
      exact .inr Schema.revise_self
    · have hrev : schema.revise (t := .disputes) d.id (DisputePatch.resolve o.status now) d₀ = d₀ :=
        Schema.revise_of_ne hid
      rw [hrev]
      exact .inl ⟨hin, hid⟩
  have hin' : ∀ d₀ ∈ db .disputes, ∃ d' ∈ db' .disputes, SameDispute d₀ d' := by
    intro d₀ hin
    refine ⟨_, hd ▸ List.mem_map_of_mem hin, .of_fixed Schema.fixed_revise⟩
  constructor
  · rw [hfee, h.fee]
  · intro d' hd'
    rcases hrows d' hd' with ⟨hin, hne⟩ | rfl
    · refine (h.disputes d' hin).mono (.refl d') (fun _ => Iff.rfl) hb fun o' he => hne ?_
      exact (outcomeKey_inj (Option.some.inj he)).1.symm
    · constructor
      · exact hold.gateway
      · exact hb.booked hold.reversed
      · intro o' ho'
        obtain rfl := DisputeOutcome.status_inj ho'
        exact hbooked
      · intro o' ho'
        refine hb.unbooked (fun he => ho' ?_) (hold.unresolved o' (hopen o'))
        rw [← (outcomeKey_inj (Option.some.inj he)).2]
        rfl
  · intro transactionId hnone
    refine hb.unbooked (fun he => reversalKey_ne_outcomeKey (Option.some.inj he).symm)
      (h.unreversed transactionId fun d₀ hin => ?_)
    obtain ⟨d', hd', hsame⟩ := hin' d₀ hin
    rw [← hsame.originalTransactionId]
    exact hnone d' hd'
  · intro id o' hnone
    have hids : ∀ d₀ ∈ db .disputes, d₀.id ≠ id := by
      intro d₀ hin
      obtain ⟨d', hd', hsame⟩ := hin' d₀ hin
      rw [← hsame.id]
      exact hnone d' hd'
    exact hb.unbooked (fun he => hids d hmem (outcomeKey_inj (Option.some.inj he)).1)
      (h.unopened id o' hids)
  · have hlost : ((db' .disputes).map revenueLost).sum = ((db .disputes).map revenueLost).sum -
        revenueLost d + revenueLost ((DisputePatch.resolve o.status now).apply d) := by
      rw [hd]
      exact Schema.sum_revise (hv.ids .disputes) hmem revenueLost
    have hd₀ : revenueLost d = d.amount := if_neg (hopen .WON)
    have hrev := h.revenue
    cases o with
    | WON =>
        have hslots : slotTotal LedgerService.SYSTEM_USER_ID .REVENUE
            (outcomeSlots d (chargebackFee start) .WON) = d.amount := by
          simp [outcomeSlots, slotTotal, Slot.change, entryChange, Bookkeeping.signed,
            LedgerService.isDebitNormal]
        have hnew : revenueLost ((DisputePatch.resolve DisputeOutcome.WON.status now).apply d) = 0 :=
          if_pos rfl
        omega
    | LOST =>
        have hslots : slotTotal LedgerService.SYSTEM_USER_ID .REVENUE
            (outcomeSlots d (chargebackFee start) .LOST) = 0 := by
          simp [outcomeSlots, slotTotal]
        have hnew : revenueLost ((DisputePatch.resolve DisputeOutcome.LOST.status now).apply d) =
            d.amount := rfl
        omega

/-- A dispute is opened and its charge reversed. -/
theorem DisputeBooks.opened (h : DisputeBooks start db)
    (hfresh : schema.accepts (.insert .disputes d) db) (hopen : d.status = .OPEN)
    (hgateway : d.gatewayDisputeId = gatewayDisputeKey d.originalTransactionId)
    (hb : BooksOnly (some (reversalKey d.originalTransactionId)) db db')
    (hbooked : Booked (reversalKey d.originalTransactionId) (reversalSlots d) db')
    (hfee : chargebackFee db' = chargebackFee db)
    (hrevenue : accountBalance LedgerService.SYSTEM_USER_ID .REVENUE db' =
      accountBalance LedgerService.SYSTEM_USER_ID .REVENUE db +
        slotTotal LedgerService.SYSTEM_USER_ID .REVENUE (reversalSlots d))
    (hd : db' .disputes = db .disputes ++ [d]) : DisputeBooks start db' := by
  have hid : ∀ d₀ ∈ db .disputes, d₀.id ≠ d.id :=
    Schema.ne_of_find_none (Schema.accepts_insert.mp hfresh).2.1
  have hnew : ∀ o : DisputeOutcome, d.status ≠ o.status := by
    intro o
    rw [hopen]
    cases o <;> decide
  have hkey : ∀ id (o : DisputeOutcome),
      some (reversalKey d.originalTransactionId) ≠ some (outcomeKey id o) :=
    fun id o he => reversalKey_ne_outcomeKey (Option.some.inj he)
  constructor
  · rw [hfee, h.fee]
  · intro d' hd'
    rw [hd, List.mem_append, List.mem_singleton] at hd'
    rcases hd' with hin | rfl
    · exact (h.disputes d' hin).mono (.refl d') (fun _ => Iff.rfl) hb (hkey d'.id)
    · constructor
      · exact hgateway
      · exact hbooked
      · exact fun o ho => (hnew o ho).elim
      · exact fun o _ => hb.unbooked (hkey d'.id o) (h.unopened d'.id o hid)
  · intro transactionId hnone
    rw [hd] at hnone
    refine hb.unbooked (fun he => ?_) (h.unreversed transactionId fun d₀ hin => ?_)
    · exact hnone d (List.mem_append_right _ (.head _)) (reversalKey_inj (Option.some.inj he))
    · exact hnone d₀ (List.mem_append_left _ hin)
  · intro id o hnone
    rw [hd] at hnone
    exact hb.unbooked (hkey id o) (h.unopened id o fun d₀ hin => hnone d₀ (List.mem_append_left _ hin))
  · have hlost : ((db' .disputes).map revenueLost).sum =
        ((db .disputes).map revenueLost).sum + d.amount := by
      have hd₀ : revenueLost d = d.amount := if_neg (hnew .WON)
      rw [hd, List.map_append, List.sum_append, List.map_singleton, List.sum_singleton, hd₀]
    have hslots : slotTotal LedgerService.SYSTEM_USER_ID .REVENUE (reversalSlots d) = -d.amount := by
      simp [reversalSlots, slotTotal, Slot.change, entryChange, Bookkeeping.signed,
        LedgerService.isDebitNormal]
    have hrev := h.revenue
    omega

end Books

/-! ## Commits -/

section Commits

variable {start db db' : Data} {d dispute : Dispute} {ws : List RowWrite}

/-- The entries of an outcome are on the accounts that they are about. -/
theorem outcomeTransfer_slots (dispute : Dispute) (fee : Int) (o : DisputeOutcome) :
    (DisputesService.outcomeTransfer dispute fee o).HasSlots (outcomeSlots dispute fee o) := by
  intro db user₁ user₂ id₁ id₂ lines hu₁ hu₂ hacc₁ hacc₂ hlines
  cases o with
  | WON =>
      obtain rfl := Js.str.inj hu₁
      obtain rfl := Js.str.inj hu₂
      exact fills_pair hlines hacc₁ hacc₂
  | LOST =>
      obtain rfl := Js.str.inj hu₁
      obtain rfl := Js.str.inj hu₂
      exact fills_pair hlines hacc₁ hacc₂

/-- The entries of a reversal, too. -/
theorem chargebackTransfer_slots {data : AuthorizeNetData} (huser : data.userId = .str d.userId)
    (hamount : data.amount = .int d.amount) :
    (AuthorizeNetWebhookController.chargebackTransfer data).HasSlots (reversalSlots d) := by
  intro db user₁ user₂ id₁ id₂ lines hu₁ hu₂ hacc₁ hacc₂ hlines
  obtain rfl := Js.str.inj (huser.symm.trans hu₁)
  obtain rfl := Js.str.inj hu₂
  have hentries : (AuthorizeNetWebhookController.chargebackTransfer data).entries id₁ id₂ =
      [⟨id₂, .DEBIT, .int d.amount⟩, ⟨id₁, .CREDIT, .int d.amount⟩] := by
    rw [← hamount]
    rfl
  rw [hentries] at hlines
  exact fills_pair hlines hacc₂ hacc₁

theorem chargebackFee_of_same (h : db' .billingConfig = db .billingConfig) :
    chargebackFee db' = chargebackFee db := by
  rw [chargebackFee, Schema.find, h, chargebackFee, Schema.find]

/-- Changes of other tables. -/
theorem DisputeBooks.other (h : DisputeBooks start db) (hle : locking.le db db')
    (hsame : ∀ t, t ∈ .billingConfig :: .disputes :: ledgerTables → db' t = db t) :
    DisputeBooks start db' := by
  refine h.keep (f := fun d => d) (.other hle (hsame _ (by decide)) (hsame _ (by decide)))
    (chargebackFee_of_same (hsame _ (by decide))) (accountBalance_of_same (hsame _ (by decide))) ?_
    fun d _ => ⟨.refl d, fun _ => Iff.rfl⟩
  rw [hsame _ (by decide), List.map_id']

/-- A patch of a dispute that neither sets nor undoes an outcome. -/
theorem DisputeBooks.patch {p : DisputePatch} {id : String} (h : DisputeBooks start db)
    (hp : ∀ d ∈ db .disputes, d.id = id →
      ∀ o : DisputeOutcome, (p.apply d).status = o.status ↔ d.status = o.status) :
    DisputeBooks start (schema.apply (.update .disputes id p) db) := by
  have hother : ∀ {t : Table}, t ≠ .disputes → schema.apply (.update .disputes id p) db t = db t :=
    fun ht => apply_update_other ht _ _ _
  refine h.keep (.other (Schema.le_apply _ _) (hother (by decide)) (hother (by decide)))
    (chargebackFee_of_same (hother (by decide))) (accountBalance_of_same (hother (by decide)))
    Schema.apply_update_self fun d hd => ⟨.of_fixed Schema.fixed_revise, fun o => ?_⟩
  by_cases hid : d.id = id
  · have hrev : schema.revise (t := .disputes) id p d = p.apply d := by
      rw [← hid]
      exact Schema.revise_self
    rw [hrev]
    exact hp d hd hid o
  · have hrev : schema.revise (t := .disputes) id p d = d := Schema.revise_of_ne hid
    rw [hrev]

/-- A transfer whose key is known changes nothing here. -/
theorem DisputeBooks.unposted {x : Transfer} {txn : LedgerTransaction} (h : DisputeBooks start db)
    (hx : Transferred x txn ws db) (hknown : Unposted x.key db (postgres.applyAll ws db)) :
    DisputeBooks start (postgres.applyAll ws db) := by
  refine h.keep (f := fun d => d) (hknown.booksOnly (locking.le_applyAll _ _))
    (chargebackFee_of_same (hx.other (by decide))) (hknown.balance _ _) ?_
    fun d _ => ⟨.refl d, fun _ => Iff.rfl⟩
  rw [hx.other (by decide), List.map_id']

/-- The commit of an outcome: of a dispute that is open, or once more. -/
theorem DisputeBooks.commitOutcome {fee : Int} {o : DisputeOutcome} (h : DisputeBooks start db)
    (hv : schema.Valid db) (hfits : locking.fitsAll ws db)
    (hfind : schema.find .disputes dispute.id db = some d) (hsame : SameDispute dispute d)
    (hstatus : (∀ o : DisputeOutcome, d.status ≠ o.status) ∨ d.status = o.status)
    (hfee : o = .LOST → fee = chargebackFee start)
    (hresolved : DisputesService.Resolved dispute fee o ws db) :
    DisputeBooks start (postgres.applyAll ws db) := by
  obtain ⟨txn, ws₁, ws₂, now, rfl, hx, hcredits⟩ := hresolved.split
  rw [locking.fitsAll_append] at hfits
  rw [postgres.applyAll_append, postgres.applyAll_append, applyAll_single]
  have hmem : d ∈ db .disputes := Schema.mem_of_find hfind
  have hid : d.id = dispute.id := hsame.id
  have hbooked := h.disputes d hmem
  have hkey : (DisputesService.outcomeTransfer dispute fee o).key = some (outcomeKey d.id o) := by
    rw [hid]
    cases o <;> rfl
  have hcredit : ∀ {t : Table}, t ∉ creditTables → ∀ db, postgres.applyAll ws₂ db t = db t :=
    fun ht db => applyAll_other fun w hw he => ht (he ▸ hcredits w hw)
  rcases hx.posted hv hfits.1 with hunposted | ⟨hfresh, hposted⟩
  · -- the key is known, so the outcome is set already
    have hset : d.status = o.status := by
      rcases hstatus with hopen | hset
      · rw [hkey] at hunposted
        exact (hunposted.not_unbooked (hbooked.unresolved o (hopen o))).elim
      · exact hset
    have hbooks₂ : DisputeBooks start (postgres.applyAll ws₂ (postgres.applyAll ws₁ db)) := by
      refine (h.unposted hx hunposted).other (locking.le_applyAll _ _) fun t ht => hcredit ?_ _
      simp only [ledgerTables, List.mem_cons, List.not_mem_nil, or_false] at ht
      rcases ht with rfl | rfl | rfl | rfl | rfl <;> decide
    refine hbooks₂.patch fun d' hd' hid' o' => ?_
    rw [hcredit (by decide), hx.other (by decide)] at hd'
    obtain rfl : d' = d := hv.eq_of_id hd' hmem (hid'.trans hid.symm)
    rw [hset]
    rfl
  · -- the key is new, so no outcome is set
    have hopen : ∀ o : DisputeOutcome, d.status ≠ o.status := by
      rcases hstatus with hopen | hset
      · exact hopen
      · exact ((hbooked.resolved o hset).not_unbooked (hfresh _ hkey)).elim
    have hslots : outcomeSlots dispute fee o = outcomeSlots d (chargebackFee start) o := by
      rw [hsame.outcomeSlots_eq]
      cases o with
      | WON => rfl
      | LOST => rw [hfee rfl]
    have hposted := hposted _ (outcomeTransfer_slots dispute fee o)
    rw [hkey, hslots] at hposted
    have hlater : ∀ {t : Table}, t ∉ .disputes :: creditTables →
        schema.apply (.update .disputes dispute.id (DisputePatch.resolve o.status now))
          (postgres.applyAll ws₂ (postgres.applyAll ws₁ db)) t = postgres.applyAll ws₁ db t := by
      intro t ht
      rw [List.mem_cons, not_or] at ht
      rw [apply_update_other ht.1, hcredit ht.2]
    have hle : locking.le (postgres.applyAll ws₁ db)
        (schema.apply (.update .disputes dispute.id (DisputePatch.resolve o.status now))
          (postgres.applyAll ws₂ (postgres.applyAll ws₁ db))) :=
      locking.le_trans (locking.le_applyAll _ _) (Schema.le_apply _ _)
    have hrest := BooksOnly.other hle (hlater (by decide)) (hlater (by decide))
    refine h.resolve now hv (hid ▸ hfind) hopen
      ((hposted.booksOnly (locking.le_applyAll _ _)).then hrest) (hrest.booked hposted.booked)
      (chargebackFee_of_same ((hlater (by decide)).trans (hx.other (by decide)))) ?_ ?_
    · rw [accountBalance_of_same (hlater (by decide)), hposted.balance]
    · rw [Schema.apply_update_self, hcredit (by decide), hx.other (by decide), hid]

/-- The commit of a chargeback. -/
theorem DisputeBooks.commitChargeback {data : AuthorizeNetData} (h : DisputeBooks start db)
    (hv : schema.Valid db) (hfits : locking.fitsAll ws db)
    (hx : (AuthorizeNetWebhookController.chargebackEffect data).rel () ws db) :
    DisputeBooks start (postgres.applyAll ws db) := by
  obtain ⟨d, ws₀, rest, rfl, ⟨hgateway, hopened⟩, hrest⟩ := hx
  rw [postgres.applyAll_append]
  rw [locking.fitsAll_append] at hfits
  beta_reduce at hrest
  split at hrest
  · next hreversed =>
    obtain ⟨-, rfl⟩ := hrest
    rcases hopened with ⟨rfl, -⟩ | ⟨rfl, hnew⟩
    · exact h
    · rw [hnew.unreversed] at hreversed
      cases hreversed
  · obtain ⟨response, ws₁, _, rfl, htransfer, _, ws₂, ws₃, rfl, hupdated, hcredits⟩ := hrest
    have hx := transferred_of_rel htransfer
    obtain rfl : ws₂ = [.update .disputes d.id
      (DisputePatch.ledgerReversalTxnId response.transaction.id)] := hupdated
    rw [locking.fitsAll_append] at hfits
    -- what follows the transfer neither books anything nor sets an outcome
    have hend : ∀ {db₁ : Data}, DisputeBooks start db₁ → DisputeBooks start
        (postgres.applyAll ([.update .disputes d.id
          (DisputePatch.ledgerReversalTxnId response.transaction.id)] ++ ws₃) db₁) := by
      intro db₁ hbooks
      rw [postgres.applyAll_append, applyAll_single]
      refine (hbooks.patch fun _ _ _ _ => Iff.rfl).other (locking.le_applyAll _ _) fun t ht => ?_
      refine applyAll_other fun w hw he => ?_
      have hin : w.table ∈ creditTables := hcredits w hw
      rw [he] at hin
      revert hin ht
      cases t <;> decide
    clear htransfer
    rw [postgres.applyAll_append]
    refine hend ?_
    rcases hopened with ⟨rfl, d', hfind, hsame⟩ | ⟨rfl, hnew⟩
    · -- a dispute that is known is booked
      have hbooked := h.disputes d' (Schema.mem_of_find hfind)
      have htransaction : data.transactionId.text = d'.originalTransactionId := by
        refine gatewayDisputeKey_inj ?_
        rw [← hbooked.gateway, hsame.gatewayDisputeId, hgateway]
      rcases hx.posted hv hfits.2.1 with hunposted | ⟨hfresh, -⟩
      · exact h.unposted hx hunposted
      · refine (hbooked.reversed.not_unbooked ?_).elim
        rw [← htransaction]
        exact hfresh _ rfl
    · rw [applyAll_single] at hx hfits ⊢
      have haccepts : schema.accepts (.insert .disputes d) db := hfits.1.1
      have hv₀ : schema.Valid (schema.apply (.insert .disputes d) db) := Schema.Valid.apply haccepts hv
      have htransaction : data.transactionId.text = d.originalTransactionId := by
        rw [hnew.originalTransactionId]
        rfl
      have hother : ∀ {t : Table}, t ≠ .disputes →
          schema.apply (.insert .disputes d) db t = db t := fun ht => apply_insert_other ht _ _
      have hinsert : BooksOnly none db (schema.apply (.insert .disputes d) db) :=
        .other (Schema.le_apply _ _) (hother (by decide)) (hother (by decide))
      -- no dispute is about this charge, so its reversal is new
      have hunbooked : Unbooked (reversalKey d.originalTransactionId) db := by
        refine h.unreversed _ fun d₀ hd₀ he => ?_
        have hgate := (h.disputes d₀ hd₀).gateway
        rw [he, ← htransaction, ← hgateway] at hgate
        refine Schema.ne_of_findBy_none ((Schema.accepts_insert.mp haccepts).2.2.1
          (.gatewayDisputeId d.gatewayDisputeId) (by simp [schema])) d₀ hd₀ ?_
        simp [schema, hgate]
      have hkey : (AuthorizeNetWebhookController.chargebackTransfer data).key =
          some (reversalKey d.originalTransactionId) := by
        rw [← htransaction]
        rfl
      rcases hx.posted hv₀ hfits.2.1 with hunposted | ⟨-, hposted⟩
      · rw [hkey] at hunposted
        exact (hunposted.not_unbooked (hinsert.unbooked (by simp) hunbooked)).elim
      · have hposted := hposted _ (chargebackTransfer_slots hnew.userId hnew.amount)
        rw [hkey] at hposted
        refine h.opened haccepts hnew.status ?_
          (hinsert.trans (hposted.booksOnly (locking.le_applyAll _ _))) hposted.booked
          (chargebackFee_of_same ((hx.other (by decide)).trans (hother (by decide)))) ?_ ?_
        · rw [hgateway, htransaction]
        · rw [hposted.balance, accountBalance_of_same (hother (by decide))]
        · rw [hx.other (by decide), Schema.apply_insert_self]

end Commits

end PaymentBilling
