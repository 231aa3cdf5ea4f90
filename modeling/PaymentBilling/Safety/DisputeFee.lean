import PaymentBilling.Spec.DisputeBooks
import PaymentBilling.Spec.TransferProgress

/-!
# Safety.DisputeFee

The fee of a dispute that is lost, for every text that may be configured.

The text is read by `parseInt`, which takes the leading integer and ignores the
rest, and the ledger refuses entries that are not positive.  So a text such as
`15.5` is booked as the fee it starts with, and with `0` no dispute can be lost
at all.
-/

namespace PaymentBilling

open Relational Transact DisputesService

/-! ## The configured text -/

/-- The value of a non-negative decimal integer literal. -/
def decimalLiteral (s : String) : Option Nat :=
  match readDigits 0 0 s.toList with
  | (n, _ + 1, []) => some n
  | _ => none

/-- The text that is stored for the fee. -/
def storedFee (db : Data) : Option String :=
  (schema.find .billingConfig "chargeback_fee_cents" db).map (·.value)

/-- The fee that a stored text stands for: what it denotes as a literal within
the range of the column, and the default for anything else. -/
def feeDenoted (value : Option String) : Int :=
  match value.bind decimalLiteral with
  | some n => if inInt32 n then n else 1500
  | none => 1500

/-- The stored text is read as what it stands for: a positive literal in range,
or another text that starts with no integer or with the default. -/
def FeeReadable : Option String → Prop
  | none => True
  | some s =>
    match decimalLiteral s with
    | some n => 0 < n ∧ inInt32 n = true
    | none => parseInt s = none ∨ parseInt s = some 1500

instance : DecidablePred FeeReadable
  | none => inferInstanceAs (Decidable True)
  | some s =>
    match h : decimalLiteral s with
    | some n => decidable_of_iff (0 < n ∧ inInt32 n = true) (by simp only [FeeReadable, h])
    | none =>
      decidable_of_iff (parseInt s = none ∨ parseInt s = some 1500) (by simp only [FeeReadable, h])

section Text

variable {c : Char} {s : String} {n : Nat} {db : Data}

theorem not_isJsSpace_of_isDigit (h : c.isDigit = true) : isJsSpace c = false := by
  rw [Char.isDigit, Bool.and_eq_true, decide_eq_true_eq, decide_eq_true_eq] at h
  have hlow : 48 ≤ c.toNat := h.1
  have hhigh : c.toNat ≤ 57 := h.2
  simp only [isJsSpace, List.mem_cons, List.not_mem_nil, or_false, Bool.or_eq_false_iff,
    decide_eq_false_iff_not, Bool.and_eq_false_iff]
  omega

/-- A literal is read as the integer that it denotes. -/
theorem parseInt_of_literal (h : decimalLiteral s = some n) : parseInt s = some (n : Int) := by
  unfold decimalLiteral at h
  unfold parseInt
  cases hs : s.toList with
  | nil =>
      rw [hs] at h
      cases h
  | cons c cs =>
      rw [hs] at h
      cases hc : c.isDigit with
      | false =>
          rw [readDigits, hc] at h
          cases h
      | true =>
          have hspace : (c :: cs).dropWhile isJsSpace = c :: cs := by
            rw [List.dropWhile_cons, not_isJsSpace_of_isDigit hc]
            rfl
          have hsign : readSign (c :: cs) = (1, c :: cs) := by
            unfold readSign
            split
            · next heq =>
              obtain rfl := (List.cons.inj heq).1
              cases hc
            · next heq =>
              obtain rfl := (List.cons.inj heq).1
              cases hc
            · rfl
          rw [hspace, hsign]
          simp only
          split at h
          · next m k heq =>
            obtain rfl := Option.some.inj h
            rw [heq]
            simp
          · cases h

/-- The fee that is read is the one that the text stands for, and can be
booked, exactly for these texts. -/
theorem feeReadable_iff : FeeReadable (storedFee db) ↔
    chargebackFee db = feeDenoted (storedFee db) ∧ 0 < chargebackFee db ∧
      inInt32 (chargebackFee db) = true := by
  have hfee : chargebackFee db =
      (parseInt ((storedFee db).getD (toString (1500 : Int)))).getD 1500 := rfl
  rw [hfee]
  cases storedFee db with
  | none =>
      have hdefault : parseInt (toString (1500 : Int)) = some 1500 := by decide +kernel
      rw [Option.getD_none, hdefault]
      exact ⟨fun _ => ⟨rfl, by decide, by decide⟩, fun _ => trivial⟩
  | some s =>
      cases hlit : decimalLiteral s with
      | some n =>
          simp only [FeeReadable, feeDenoted, Option.bind_some, hlit, Option.getD_some,
            parseInt_of_literal hlit]
          constructor
          · intro h
            rw [if_pos h.2]
            exact ⟨rfl, Int.natCast_pos.mpr h.1, h.2⟩
          · exact fun h => ⟨Int.natCast_pos.mp h.2.1, h.2.2⟩
      | none =>
          simp only [FeeReadable, feeDenoted, Option.bind_some, hlit, Option.getD_some]
          cases parseInt s with
          | none => simp [inInt32]
          | some m =>
              simp only [Option.getD_some, Option.some.injEq, reduceCtorEq, false_or]
              constructor
              · rintro rfl
                exact ⟨rfl, by decide, by decide⟩
              · exact fun h => h.1

end Text

/-! ## The fee in the books -/

/-- The fee is booked for the dispute, or nothing is when it is zero; the
balances move by it. -/
structure FeeBooked (d : Dispute) (fee : Int) (db db' : Data) : Prop where
  entries : if fee = 0 then Unbooked (outcomeKey d.id .LOST) db'
    else Unbooked (outcomeKey d.id .LOST) db ∧
      Booked (outcomeKey d.id .LOST) (outcomeSlots d fee .LOST) db'
  balance : ∀ user type, accountBalance user type db' =
    accountBalance user type db + slotTotal user type (outcomeSlots d fee .LOST)

/-- The ledger can take the fee of a dispute: nothing was booked for it before,
and its accounts have room. -/
structure FeePostable (d : Dispute) (fee : Int) (db : Data) : Prop where
  admin : HasUser LedgerService.SYSTEM_USER_ID db
  fresh : Unbooked (outcomeKey d.id .LOST) db
  expense : HasRoom LedgerService.SYSTEM_USER_ID .EXPENSE .DEBIT fee db
  asset : HasRoom d.userId .ASSET .CREDIT fee db

/-- `setOutcome` has returned and booked the fee that the stored text stands
for. -/
def LosesAsConfigured (d : Dispute) (db : Data) : Prop :=
  postgres.Sure (fun _ => True) (setOutcome d.id .LOST) (fun r _ db' => (∃ row, r = .ok row) ∧
    FeeBooked d (feeDenoted (storedFee db)) db db') {} db

section Booking

variable {W : Env → Prop} {d : Dispute} {fee fee' : Int} {v db db' : Data}

theorem slotTotal_lost (d : Dispute) (fee : Int) :
    slotTotal LedgerService.SYSTEM_USER_ID .EXPENSE (outcomeSlots d fee .LOST) = fee := by
  simp [outcomeSlots, slotTotal, Slot.change, entryChange, Bookkeeping.signed,
    LedgerService.isDebitNormal]

/-- The balances tell which fee was booked. -/
theorem FeeBooked.unique (h : FeeBooked d fee db db') (h' : FeeBooked d fee' db db') : fee = fee' := by
  have hfee := h.balance LedgerService.SYSTEM_USER_ID .EXPENSE
  have hfee' := h'.balance LedgerService.SYSTEM_USER_ID .EXPENSE
  rw [slotTotal_lost] at hfee hfee'
  omega

/-- The transaction of a lost dispute goes through when the ledger can take its
fee. -/
theorem goes_loseWithFee (hv : schema.Valid v) (hrow : schema.find .disputes d.id v = some d)
    (hpos : 0 < fee) (hfee : inInt32 fee = true) (h : FeePostable d fee v) :
    postgres.Goes (LocksOf (.disputes :: ledgerTables)) W (loseWithFee d fee) (fun _ _ => True) v := by
  have hlocks : ∀ l, LocksOf ledgerTables l → LocksOf (.disputes :: ledgerTables) l :=
    fun l hl => List.mem_cons_of_mem _ hl
  have huser : HasUser d.userId v := hasUser_of_dispute hv (Schema.mem_of_find hrow)
  have hbook : postgres.Goes (LocksOf ledgerTables) W (bookLost d fee) (fun _ _ => True) v := by
    refine LedgerService.goes_transfer hv (outcomeKey_ne d.id .LOST) h.admin huser
      (.inr fun expense asset v' hopened hexpense hasset => ⟨?_, ?_⟩)
    · exact ownerKnown_of_hasUser (exists_find_mono hopened.le huser)
    · exact postable_pair hopened.valid hexpense hasset (by decide) hpos hfee
        (hopened.hasRoom.mpr h.expense) (hopened.hasRoom.mpr h.asset)
  refine Engine.goes_bind (((hbook.valid (D := locking) hv).locks hlocks).mono fun _ v' h' => ?_)
  obtain ⟨r, hr⟩ := exists_find_mono (t := .disputes) (i := d.id) h'.2.2 ⟨d, hrow⟩
  exact goes_query (by simp [WritesIn, Stmt.writes]) rfl
    (fun env _ => disputeUpdate_ok h'.2.1 hr) fun _ _ _ _ _ => trivial

/-- A fee that is committed could be booked, and is; or its key was taken. -/
theorem feeBooked_of_resolved {ws : List RowWrite} (hv : schema.Valid db)
    (hfits : locking.fitsAll ws db) (h : Resolved d fee .LOST ws db) :
    (¬Unbooked (outcomeKey d.id .LOST) db ∧
        ¬Unbooked (outcomeKey d.id .LOST) (postgres.applyAll ws db)) ∨
      (0 < fee ∧ inInt32 fee = true ∧ FeePostable d fee db ∧
        FeeBooked d fee db (postgres.applyAll ws db)) := by
  obtain ⟨txn, ws₁, ws₂, now, rfl, hx, hcredits⟩ := h.split
  obtain ⟨hfits₁, -⟩ := locking.fitsAll_append.mp hfits
  have hv₁ : schema.Valid (postgres.applyAll ws₁ db) := locking.valid_applyAll hfits₁ hv
  rw [postgres.applyAll_append]
  have hlater : ∀ {t : Table}, t ∉ .disputes :: creditTables →
      postgres.applyAll
        (ws₂ ++ [.update .disputes d.id (DisputePatch.resolve DisputeOutcome.LOST.status now)])
        (postgres.applyAll ws₁ db) t = postgres.applyAll ws₁ db t := by
    intro t ht
    rw [List.mem_cons, not_or] at ht
    rw [postgres.applyAll_append, applyAll_single, apply_update_other ht.1]
    refine applyAll_other fun w hw he => ht.2 ?_
    rw [← he]
    exact hcredits w hw
  have hle := locking.le_applyAll
    (ws₂ ++ [.update .disputes d.id (DisputePatch.resolve DisputeOutcome.LOST.status now)])
    (postgres.applyAll ws₁ db)
  have hrest := BooksOnly.other hle (hlater (by decide)) (hlater (by decide))
  rcases hx.posted hv hfits₁ with hunposted | ⟨hfresh, hposted⟩
  · refine .inl ⟨hunposted.not_unbooked, fun hun => hunposted.not_unbooked fun t ht => hun t ?_⟩
    rw [hlater (by decide), hunposted.transactions]
    exact ht
  · have hslots := outcomeTransfer_slots d fee .LOST
    have hposted := hposted _ hslots
    obtain ⟨user₁, user₂, hu₁, -, hadmin, -⟩ := hasUser_of_transferred hx hv hfits₁
    obtain rfl := Js.str.inj hu₁
    have hamount := amounts_of_transferred hx hv hfits₁ hfresh hslots _ (.head _)
    have hroom := room_of_transferred hx hv hfits₁ hfresh hslots
      (show LedgerAccountType.EXPENSE ≠ .ASSET by decide)
    have hun : Unbooked (outcomeKey d.id .LOST) db := hfresh _ rfl
    refine .inr ⟨hamount.1, hamount.2, ⟨hadmin, hun, hroom.1, hroom.2⟩, ?_, ?_⟩
    · rw [if_neg (Int.ne_of_gt hamount.1)]
      exact ⟨hun, hrest.booked hposted.booked⟩
    · intro user type
      rw [accountBalance_of_same (hlater (by decide)), hposted.balance]

/-- A dispute that was lost has its fee booked as it is read; a call that fails
changes nothing. -/
theorem wp_lost_alone (id : String) (db : Data) :
    soloProtocol.wp (setOutcome id .LOST) (fun r _ db' => (∀ e, r = .error e → db' = db) ∧
      ∀ row, r = .ok row → ∃ seen ws, schema.find .disputes id db = some seen ∧
        locking.fitsAll ws db ∧ Resolved seen (chargebackFee db) .LOST ws db ∧
        db' = postgres.applyAll ws db) {} db := by
  refine wp_setOutcome soloProtocol (fun e c' db' hs => ⟨fun _ _ => hs.env, nofun⟩)
    fun seen db₁ hs₁ hfind _ => ?_
  obtain rfl : db₁ = db := hs₁.env
  show soloProtocol.wp (handleLost seen) _ _ _
  rw [handleLost_eq, Protocol.wp_bind]
  refine wp_readFee soloProtocol (fun e c' db' hs => ⟨fun _ _ => hs.env, nofun⟩)
    fun found db₂ hs₂ => ?_
  obtain rfl : db₂ = db₁ := hs₂.env
  rw [Protocol.bindPost_ok]
  refine Protocol.wp_mono _ (fun r c' db' hr => ⟨hr.1, fun row hrow => ?_⟩)
    (Protocol.wp_transaction_of_does_alone
      fun K => does_loseWithFee (soloProtocol.knowing K) seen (chargebackFee db₂))
  obtain ⟨ws, hfits, hx, hdb'⟩ := hr.2 row hrow
  exact ⟨seen, ws, hfind, hfits, resolved_of_rel hx, hdb'⟩

/-- The fee of an open dispute is read, and its transaction runs. -/
theorem sure_setOutcome_lost {Q : Post Stmt Data RowWrite RowLock Err Dispute}
    (hfind : schema.find .disputes d.id db = some d)
    (hopen : d.status = .OPEN ∨ d.status = .EVIDENCE_SUBMITTED)
    (h : ∀ trace, postgres.Sure W (transaction (loseWithFee d (chargebackFee db))) Q ⟨[], trace⟩ db) :
    postgres.Sure W (setOutcome d.id .LOST) Q {} db := by
  have hallowed : assertTransition d.status (DisputeOutcome.status .LOST) = .ok () := by
    cases hopen with
    | inl h => rw [h]; rfl
    | inr h => rw [h]; rfl
  refine Engine.sure_bind (Engine.sure_exec_auto fun env _ => ?_)
  rw [disputeFindUnique_ok, hfind]
  simp only [hallowed]
  show postgres.Sure W (handleLost d) Q _ _
  rw [handleLost_eq]
  refine Engine.sure_bind (Engine.sure_bind (Engine.sure_bind (Engine.sure_exec_auto fun env _ => ?_)))
  have hnil : postgres.applyAll [] db = db := rfl
  rw [hnil, billingConfigFindUnique_ok]
  rw [chargebackFee] at h
  cases hfound : schema.find .billingConfig "chargeback_fee_cents" db with
  | none =>
      rw [hfound] at h
      exact h _
  | some row =>
      rw [hfound] at h
      exact h _

/-- The fee that the text stands for is booked only if it is the one that is
read and the ledger can take it. -/
theorem readable_of_loses (hv : schema.Valid db) (hfind : schema.find .disputes d.id db = some d)
    (h : LosesAsConfigured d db) :
    FeeReadable (storedFee db) ∧ FeePostable d (feeDenoted (storedFee db)) db := by
  have hsure := h.and (Protocol.sure_of_wp (W := fun _ => True) hv .nil (wp_lost_alone d.id db))
  obtain ⟨r, c', db', -, ⟨⟨row, hr⟩, hbooked⟩, hlost, -⟩ :=
    hsure.ends (F := noFault) (e := .ordinary "") trivial
  obtain ⟨seen, ws, hseen, hfits, hresolved, rfl⟩ := hlost.2 row hr
  obtain rfl : d = seen := Option.some.inj (hfind.symm.trans hseen)
  rcases feeBooked_of_resolved hv hfits hresolved with ⟨hbefore, hafter⟩ | ⟨hpos, hfee, hpost, hread⟩
  · -- with its key taken, nothing is booked
    have hentries := hbooked.entries
    split at hentries
    · exact (hafter hentries).elim
    · exact (hbefore hentries.1).elim
  · have heq := hbooked.unique hread
    rw [heq]
    exact ⟨feeReadable_iff.mpr ⟨heq.symm, hpos, hfee⟩, hpost⟩

/-- A fee that is read as what its text stands for is booked. -/
theorem loses_of_readable (hv : schema.Valid db) (hfind : schema.find .disputes d.id db = some d)
    (hopen : d.status = .OPEN ∨ d.status = .EVIDENCE_SUBMITTED) (hread : FeeReadable (storedFee db))
    (hpost : FeePostable d (feeDenoted (storedFee db)) db) : LosesAsConfigured d db := by
  obtain ⟨heq, hpos, hfee⟩ := feeReadable_iff.mp hread
  have hruns : postgres.Sure (fun _ => True) (setOutcome d.id .LOST)
      (fun r _ _ => ∃ row, r = .ok row) {} db := by
    refine sure_setOutcome_lost hfind hopen fun trace => ?_
    have hgoes := goes_loseWithFee (W := fun _ => True) hv hfind hpos hfee (heq ▸ hpost)
    refine (hgoes.sure_transaction (c := ⟨[], trace⟩) fun l hl => nomatch hl).mono
      fun r c' db' hr => ?_
    obtain ⟨row, hr, -⟩ := hr
    exact ⟨row, hr⟩
  refine (hruns.and (Protocol.sure_of_wp hv .nil (wp_lost_alone d.id db))).mono
    fun r c' db' hr => ?_
  obtain ⟨⟨row, hr⟩, hlost, -⟩ := hr
  obtain ⟨seen, ws, hseen, hfits, hresolved, rfl⟩ := hlost.2 row hr
  obtain rfl : d = seen := Option.some.inj (hfind.symm.trans hseen)
  rcases feeBooked_of_resolved hv hfits hresolved with ⟨hbefore, -⟩ | ⟨-, -, -, hbooked⟩
  · exact (hbefore hpost.fresh).elim
  · rw [← heq]
    exact ⟨⟨row, hr⟩, hbooked⟩

/-- Losing a dispute books the fee that the stored text stands for exactly if
that is the fee that is read, and the ledger can take it. -/
theorem lost_feeBooked (db : Database) (d : Dispute)
    (hfind : schema.find .disputes d.id db.rows = some d)
    (hopen : d.status = .OPEN ∨ d.status = .EVIDENCE_SUBMITTED) :
    LosesAsConfigured d db.rows ↔
      FeeReadable (storedFee db.rows) ∧ FeePostable d (feeDenoted (storedFee db.rows)) db.rows := by
  constructor
  · exact readable_of_loses db.valid hfind
  · rintro ⟨hread, hpost⟩
    exact loses_of_readable db.valid hfind hopen hread hpost

end Booking

/-! ## Some texts -/

/-- An open dispute about 100 cents. -/
def disputedDollar : Dispute where
  id := "dispute_1"
  userId := "user"
  gateway := .AUTHORIZE_NET
  gatewayDisputeId := gatewayDisputeKey "charge_1"
  originalTransactionId := "charge_1"
  amount := 100
  reason := none
  status := .OPEN
  resolvedAt := none
  ledgerReversalTxnId := none

/-- A database in which it is open and `value` is stored for the fee. -/
def disputedWithFee (value : String) : Database :=
  .ofWrites [.insert .users ⟨"user"⟩, .insert .users ⟨LedgerService.SYSTEM_USER_ID⟩,
    .insert .disputes disputedDollar,
    .insert .billingConfig ⟨"chargeback_fee_cents", value⟩] rfl

theorem find_disputedDollar (value : String) :
    schema.find .disputes disputedDollar.id (disputedWithFee value).rows = some disputedDollar := rfl

theorem storedFee_disputedWithFee (value : String) :
    storedFee (disputedWithFee value).rows = some value := rfl

/-- The books are empty, so that every fee can be booked. -/
theorem feePostable_disputedWithFee {value : String} {fee : Int} (hfee : inInt32 fee = true)
    (hneg : inInt32 (-fee) = true) : FeePostable disputedDollar fee (disputedWithFee value).rows where
  admin := ⟨⟨LedgerService.SYSTEM_USER_ID⟩, rfl⟩
  fresh := nofun
  expense := by
    show inInt32 (0 + fee) = true
    rw [Int.zero_add]
    exact hfee
  asset := by
    show inInt32 (0 + -fee) = true
    rw [Int.zero_add]
    exact hneg

/-- A literal is booked as it stands. -/
theorem lost_feeBooked_twenty :
    LosesAsConfigured disputedDollar (disputedWithFee "2000").rows :=
  (lost_feeBooked (disputedWithFee "2000") disputedDollar (find_disputedDollar _) (.inl rfl)).mpr
    ⟨by decide +kernel, feePostable_disputedWithFee (by decide +kernel) (by decide +kernel)⟩

/-- `15.5` stands for the default and is booked as 15, and `0` cannot be booked,
though the ledger would take either fee. -/
theorem lost_misread :
    (feeDenoted (some "15.5") = 1500 ∧ chargebackFee (disputedWithFee "15.5").rows = 15 ∧
      FeePostable disputedDollar 1500 (disputedWithFee "15.5").rows ∧
      ¬LosesAsConfigured disputedDollar (disputedWithFee "15.5").rows) ∧
    (feeDenoted (some "0") = 0 ∧ FeePostable disputedDollar 0 (disputedWithFee "0").rows ∧
      ¬LosesAsConfigured disputedDollar (disputedWithFee "0").rows) := by
  have hnot : ∀ {value : String}, ¬FeeReadable (some value) →
      ¬LosesAsConfigured disputedDollar (disputedWithFee value).rows := by
    intro value hunreadable hloses
    exact hunreadable
      (readable_of_loses (disputedWithFee value).valid (find_disputedDollar value) hloses).1
  refine ⟨⟨by decide +kernel, by decide +kernel, feePostable_disputedWithFee rfl rfl, hnot ?_⟩,
    by decide +kernel, feePostable_disputedWithFee rfl rfl, hnot ?_⟩
  · decide +kernel
  · decide +kernel

end PaymentBilling
