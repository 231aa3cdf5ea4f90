import PaymentBilling.Spec.Healthy

/-!
# Spec.LedgerProgress

When a ledger transaction can be recorded: its entries pass the validation,
their accounts exist, and no balance leaves its column on the way.
-/

namespace PaymentBilling

open Relational Transact

/-! ## Inputs -/

/-- What some inputs add to an account. -/
def inputChange (id : String) (type : LedgerAccountType) (entries : List LedgerEntryInput) : Int :=
  ((entries.filter (·.accountId = id)).map fun e => entryChange type e.entryType e.amount.whole).sum

/-- The total of the inputs on one side. -/
def inputTotal (side : LedgerEntryType) (entries : List LedgerEntryInput) : Int :=
  ((entries.filter (·.entryType = side)).map (·.amount.whole)).sum

/-- The amount is a positive integer that fits its column. -/
def Js.Payable (x : Js) : Prop := ∃ n, x = .int n ∧ 0 < n ∧ inInt32 n = true

/-- No balance leaves its column, whichever of the inputs have been written. -/
def BalancesFit (entries : List LedgerEntryInput) (db : Data) : Prop :=
  ∀ done, done <+: entries → ∀ account ∈ db .ledgerAccounts,
    inInt32 (account.balance + inputChange account.id account.accountType done) = true

instance (entries : List LedgerEntryInput) (db : Data) : Decidable (BalancesFit entries db) :=
  decidable_of_iff (∀ done ∈ entries.inits, ∀ account ∈ db .ledgerAccounts,
    inInt32 (account.balance + inputChange account.id account.accountType done) = true)
    (by simp only [BalancesFit, List.mem_inits])

/-- The inputs can be posted. -/
structure Postable (entries : List LedgerEntryInput) (db : Data) : Prop where
  two : 2 ≤ entries.length
  payable : ∀ e ∈ entries, e.amount.Payable
  even : inputTotal .DEBIT entries = inputTotal .CREDIT entries
  accounts : ∀ e ∈ entries, ∃ account, schema.find .ledgerAccounts e.accountId db = some account
  inRange : BalancesFit entries db

/-- The owner of a transaction is nobody, or a user who exists. -/
def OwnerKnown (userId : Js) (db : Data) : Prop :=
  ∃ owner, userId.nullableString? = some owner ∧ ∀ user, owner = some user → HasUser user db

/-- The transaction has been posted: its row and entries have been added, and
the balances moved by what is entered on them. -/
structure InLedger (data : LedgerTransactionCreate) (entries : List LedgerEntryInput)
    (txn : LedgerTransaction) (db db' : Data) : Prop where
  row : RowRecords data txn
  transactions : db' .ledgerTransactions = db .ledgerTransactions ++ [txn]
  stored : ∃ added, db' .ledgerEntries = db .ledgerEntries ++ added ∧
    List.Forall₂ (fun input e => e.ledgerTransactionId = txn.id ∧ e.accountId = input.accountId ∧
      e.entryType = input.entryType ∧ input.amount = .int e.amount) entries added
  accounts : db' .ledgerAccounts = (db .ledgerAccounts).map fun account =>
    { account with balance := account.balance + inputChange account.id account.accountType entries }
  other : ∀ t ∉ ledgerTables, db' t = db t

section Inputs

variable {entries : List LedgerEntryInput} {e : LedgerEntryInput} {id : String}
  {type : LedgerAccountType}

@[simp] theorem inputChange_nil : inputChange id type [] = 0 := rfl

theorem inputChange_cons : inputChange id type (e :: entries) =
    (if e.accountId = id then entryChange type e.entryType e.amount.whole else 0) +
      inputChange id type entries := by
  by_cases h : e.accountId = id <;> simp [inputChange, h]

theorem inputTotal_cons {side : LedgerEntryType} : inputTotal side (e :: entries) =
    (if e.entryType = side then e.amount.whole else 0) + inputTotal side entries := by
  by_cases h : e.entryType = side <;> simp [inputTotal, h]

namespace LedgerService

theorem totals_of_payable {d c : Int} (h : ∀ e ∈ entries, e.amount.Payable) :
    totals (.int d) (.int c) entries =
      .ok (.int (d + inputTotal .DEBIT entries), .int (c + inputTotal .CREDIT entries)) := by
  induction entries generalizing d c with
  | nil => simp [totals, inputTotal]
  | cons e entries ih =>
      rw [List.forall_mem_cons] at h
      obtain ⟨n, hn, hpos, -⟩ := h.1
      have hnot : ¬n ≤ 0 := by omega
      rw [totals, hn, Js.le_int, decide_eq_false hnot, if_neg Bool.false_ne_true, inputTotal_cons,
        inputTotal_cons, hn, Js.whole_int]
      cases e.entryType with
      | DEBIT =>
          rw [if_pos rfl, Js.add_int, ih h.2]
          simp [Int.add_assoc]
      | CREDIT =>
          rw [if_neg (by decide), Js.add_int, ih h.2]
          simp [Int.add_assoc]

/-- Inputs that balance pass the validation. -/
theorem validate_of_balanced (htwo : 2 ≤ entries.length) (hpayable : ∀ e ∈ entries, e.amount.Payable)
    (heven : inputTotal .DEBIT entries = inputTotal .CREDIT entries) : validate entries = .ok () := by
  have hnot : ¬entries.length < 2 := by omega
  rw [validate, if_neg hnot, totals_of_payable hpayable]
  simp [heven]

end LedgerService

end Inputs

/-! ## Lines -/

section Lines

variable {entries : List LedgerEntryInput} {e : LedgerEntryInput} {lines : List Line} {line : Line}
  {account : LedgerAccount} {db : Data}

/-- The lines of some inputs change an account as the inputs do. -/
theorem changeOf_lines {id : String} {type : LedgerAccountType}
    (hlines : List.Forall₂ LineOf entries lines)
    (htype : ∀ line ∈ lines, line.entry.accountId = id → line.type = type) :
    changeOf id lines = inputChange id type entries := by
  induction hlines with
  | nil => rfl
  | @cons e line entries lines hline _ ih =>
      rw [List.forall_mem_cons] at htype
      rw [changeOf_cons, inputChange_cons, ih htype.2, hline.accountId]
      by_cases hid : e.accountId = id
      · have htype := htype.1 (hline.accountId.trans hid)
        rw [if_pos hid, if_pos hid, Line.change, htype, hline.entryType, hline.amount, Js.whole_int]
      · rw [if_neg hid, if_neg hid]

theorem inInt32_entryChange {type : LedgerAccountType} {entryType : LedgerEntryType} {n : Int}
    (hpos : 0 < n) (hn : inInt32 n = true) : inInt32 (entryChange type entryType n) = true := by
  rw [inInt32, decide_eq_true_eq] at hn ⊢
  unfold entryChange Bookkeeping.signed
  split
  · exact hn
  · omega

/-- Only the accounts count. -/
theorem BalancesFit.congr {db' : Data} (hsame : db' .ledgerAccounts = db .ledgerAccounts)
    (h : BalancesFit entries db) : BalancesFit entries db' := by
  unfold BalancesFit
  rw [hsame]
  exact h

theorem balancesFit_nil (hv : schema.Valid db) : BalancesFit [] db := by
  intro done hdone account haccount
  rw [List.prefix_nil.mp hdone, inputChange_nil, Int.add_zero]
  exact hv.fits .ledgerAccounts account haccount

/-- The balances fit when they do once the first input has been written. -/
theorem balancesFit_cons (hv : schema.Valid db) (hline : LineOf e line)
    (haccount : schema.find .ledgerAccounts e.accountId db = some account)
    (htype : line.type = account.accountType) :
    BalancesFit (e :: entries) db ↔ BalancesFit entries (postgres.applyAll line.writes db) := by
  have hrows : postgres.applyAll line.writes db .ledgerAccounts =
      (db .ledgerAccounts).map (addLines [line]) := by
    have h := applyAll_lines_accounts [line] db
    rwa [List.flatMap_singleton] at h
  have hstep : ∀ done, ∀ a ∈ db .ledgerAccounts,
      (addLines [line] a).balance + inputChange a.id a.accountType done =
        a.balance + inputChange a.id a.accountType (e :: done) := by
    intro done a ha
    have hfirst : changeOf a.id [line] = inputChange a.id a.accountType [e] := by
      refine changeOf_lines (.cons hline .nil) fun line' hline' hid => ?_
      obtain rfl := List.mem_singleton.mp hline'
      have hsame : account = a := hv.eq_of_id (Schema.mem_of_find haccount) ha
        ((Schema.id_of_find haccount).trans (hline.accountId.symm.trans hid))
      rw [htype, hsame]
    rw [inputChange_cons, inputChange_nil, Int.add_zero] at hfirst
    rw [inputChange_cons, ← hfirst, addLines, Int.add_assoc]
  constructor
  · intro h done hdone a' ha'
    rw [hrows] at ha'
    obtain ⟨a, ha, rfl⟩ := List.mem_map.mp ha'
    have hfit := h (e :: done) (List.cons_prefix_cons.mpr ⟨rfl, hdone⟩) a ha
    rw [← hstep done a ha] at hfit
    exact hfit
  · intro h done hdone a ha
    rcases List.prefix_cons_iff.mp hdone with rfl | ⟨done, rfl, hrest⟩
    · exact balancesFit_nil hv [] (List.prefix_refl _) a ha
    · rw [← hstep done a ha]
      refine h done hrest (addLines [line] a) ?_
      rw [hrows]
      exact List.mem_map_of_mem ha

end Lines

/-! ## Recording -/

namespace LedgerService

variable {W : Env → Prop} {entries : List LedgerEntryInput} {v : Data}

/-- A line is written when its amount and the balance of its account fit. -/
theorem goes_line {id : String} {e : LedgerEntryInput} {account : LedgerAccount} {n : Int}
    {p : Action Unit} {Q : Unit → Data → Prop} (hv : schema.Valid v)
    (htxn : ∃ t, schema.find .ledgerTransactions id v = some t) (hn : e.amount = .int n) (hpos : 0 < n)
    (hrange : inInt32 n = true)
    (haccount : schema.find .ledgerAccounts e.accountId v = some account)
    (hfit : inInt32 (account.balance + entryChange account.accountType e.entryType n) = true)
    (hp : ∀ line, LineOf e line → line.type = account.accountType →
      schema.Valid (postgres.applyAll line.writes v) →
      postgres.Goes (LocksOf ledgerTables) W p Q (postgres.applyAll line.writes v)) :
    postgres.Goes (LocksOf ledgerTables) W (do
      let _ ← query (.ledgerEntryCreate ⟨id, e.accountId, e.entryType, e.amount⟩)
      let delta := calculateBalanceChange account.accountType e.entryType e.amount
      let _ ← query (.ledgerAccountUpdate e.accountId delta)
      p) Q v := by
  refine Engine.goes_bind (goes_query (by simp [WritesIn, Stmt.writes, ledgerTables]) rfl
    (fun env _ => ledgerEntryCreate_ok hn hrange htxn ⟨account, haccount⟩) fun env row ws _ hx => ?_)
  have hv₁ := locking.valid_applyAll (locking.fitsAll_of_exec hv hx) hv
  obtain ⟨n', hn', rfl, hrow⟩ := exec_ledgerEntryCreate hx
  obtain rfl : n = n' := Js.int_inj.mp (hn.symm.trans (Js.int32?_eq_some hn'))
  have hamount : row.amount = n := congrArg (·.amount) hrow
  let line : Line := ⟨account.accountType, row⟩
  have hline : LineOf e line :=
    ⟨congrArg (·.accountId) hrow, congrArg (·.entryType) hrow, by rw [hn, hamount]⟩
  have hchange : line.change = entryChange account.accountType e.entryType n := by
    rw [Line.change, hline.entryType, hamount]
  have haccount₁ : schema.find .ledgerAccounts e.accountId
      (postgres.applyAll [.insert .ledgerEntries row] v) = some account := by
    rw [applyAll_single, Schema.find_apply_of_ne (by simp [Write.table])]
    exact haccount
  simp only
  rw [hn, calculateBalanceChange_int]
  refine Engine.goes_bind (goes_query (by simp [WritesIn, Stmt.writes, ledgerTables]) rfl
    (fun env _ => ledgerAccountUpdate_ok hv₁ (inInt32_entryChange hpos hrange) haccount₁ hfit)
    fun env row' ws _ hx => ?_)
  have hv₂ := locking.valid_applyAll (locking.fitsAll_of_exec hv₁ hx) hv₁
  obtain ⟨m, hm, rfl⟩ := exec_ledgerAccountUpdate hx
  have hwrites : line.writes = [.insert .ledgerEntries row, .update .ledgerAccounts e.accountId m] := by
    rw [Line.writes, hline.accountId, hchange, Js.int_inj.mp (Js.int32?_eq_some hm)]
  have hgoes := hp line hline rfl
  rw [hwrites] at hgoes
  exact hgoes hv₂

/-- The loop goes through when the accounts exist and the balances fit. -/
theorem goes_recordEntries {id : String} (hv : schema.Valid v)
    (htxn : ∃ t, schema.find .ledgerTransactions id v = some t)
    (hpayable : ∀ e ∈ entries, e.amount.Payable)
    (haccounts : ∀ e ∈ entries, ∃ account, schema.find .ledgerAccounts e.accountId v = some account)
    (hfit : BalancesFit entries v) :
    postgres.Goes (LocksOf ledgerTables) W (recordEntries id entries) (fun _ _ => True) v := by
  induction entries generalizing v with
  | nil => exact Engine.goes_pure trivial
  | cons e entries ih =>
      rw [List.forall_mem_cons] at hpayable haccounts
      obtain ⟨⟨n, hn, hpos, hrange⟩, hpayable⟩ := hpayable
      obtain ⟨⟨account, haccount⟩, haccounts⟩ := haccounts
      refine Engine.goes_bind (goes_query (by simp [WritesIn, Stmt.writes]) rfl
        (fun env _ => ⟨_, _, ledgerAccountFindUnique_ok _⟩) fun env found ws _ hx => ?_)
      obtain ⟨rfl, rfl⟩ := exec_ledgerAccountFindUnique hx
      rw [haccount]
      have hfirst : inInt32 (account.balance + entryChange account.accountType e.entryType n) = true := by
        have hfit := hfit [e] (List.cons_prefix_cons.mpr ⟨rfl, List.nil_prefix⟩) account
          (Schema.mem_of_find haccount)
        have hid : e.accountId = account.id := (Schema.id_of_find haccount).symm
        rw [inputChange_cons, if_pos hid, inputChange_nil, Int.add_zero, hn, Js.whole_int] at hfit
        exact hfit
      refine goes_line hv htxn hn hpos hrange haccount hfirst fun line hline htype hv' => ?_
      have hle : schema.le v (postgres.applyAll line.writes v) := locking.le_applyAll _ v
      exact ih hv' (exists_find_mono hle htxn) hpayable
        (fun e he => exists_find_mono hle (haccounts e he))
        ((balancesFit_cons hv hline haccount htype).mp hfit)

/-- A transaction is recorded when its entries can be posted. -/
theorem goes_executeRecord {userId : Js} {description : String} {status : LedgerTransactionStatus}
    {metadata : Metadata} {key : Option String} (hv : schema.Valid v) (howner : OwnerKnown userId v)
    (hkey : ∀ k, key = some k → schema.findBy .ledgerTransactions (.idempotencyKey k) v = none)
    (h : Postable entries v) :
    postgres.Goes (LocksOf ledgerTables) W
      (executeRecord userId description entries status metadata key) (fun _ _ => True) v := by
  obtain ⟨owner, howner, hexists⟩ := howner
  refine Engine.goes_bind (goes_query (by simp [WritesIn, Stmt.writes, ledgerTables]) rfl
    (fun env _ => ledgerTransactionCreate_ok howner hexists hkey) fun env txn ws _ hx => ?_)
  have hfits := locking.fitsAll_of_exec hv hx
  have hv₁ := locking.valid_applyAll hfits hv
  have hle : schema.le v (postgres.applyAll ws v) := locking.le_applyAll _ v
  obtain ⟨_, -, rfl, -⟩ := exec_ledgerTransactionCreate hx
  have htxn : schema.find .ledgerTransactions txn.id
      (postgres.applyAll [.insert .ledgerTransactions txn] v) = some txn := by
    refine hv₁.find_of_mem ?_
    rw [applyAll_single, Schema.apply_insert_self]
    simp
  have hsame : postgres.applyAll [.insert .ledgerTransactions txn] v .ledgerAccounts =
      v .ledgerAccounts := by
    rw [applyAll_single, Schema.apply_of_ne (by simp [Write.table])]
  refine Engine.goes_bind (((goes_recordEntries hv₁ ⟨txn, htxn⟩ h.payable
    (fun e he => exists_find_mono hle (h.accounts e he)) (h.inRange.congr hsame)).valid (D := locking) hv₁).mono
      fun _ v' hq => ?_)
  obtain ⟨row, hrow⟩ := exists_find_mono (t := .ledgerTransactions) (i := txn.id) hq.2.2 ⟨txn, htxn⟩
  refine Engine.goes_bind (goes_query (by simp [WritesIn, Stmt.writes]) rfl
    (fun env _ => ⟨_, _, ledgerTransactionFindUnique_ok _⟩) fun env found ws _ hx => ?_)
  obtain ⟨rfl, rfl⟩ := exec_ledgerTransactionFindUnique hx
  rw [hrow]
  exact Engine.goes_pure trivial

/-! ## What a posting tells -/

/-- Lines that were written fitted. -/
theorem balancesFit_of_lines {lines : List Line} {db : Data} (hv : schema.Valid db)
    (hlines : List.Forall₂ LineOf entries lines)
    (hfits : locking.fitsAll (lines.flatMap Line.writes) db)
    (htyped : ∀ line ∈ lines, HasType line.entry.accountId line.type db) :
    BalancesFit entries db := by
  induction hlines generalizing db with
  | nil => exact balancesFit_nil hv
  | @cons e line entries lines hline _ ih =>
      rw [List.forall_mem_cons] at htyped
      rw [List.flatMap_cons, locking.fitsAll_append] at hfits
      obtain ⟨account, haccount, htype⟩ := htyped.1
      rw [hline.accountId] at haccount
      refine (balancesFit_cons hv hline haccount htype.symm).mpr ?_
      exact ih (locking.valid_applyAll hfits.1 hv) hfits.2 fun l hl =>
        (htyped.2 l hl).mono (locking.le_applyAll _ db)

/-- The accounts of a posting were there before, with their types. -/
theorem typed_before {txn : LedgerTransaction} {lines : List Line} {ws : List RowWrite} {db : Data}
    (h : Posting txn lines ws db) : ∀ line ∈ lines, HasType line.entry.accountId line.type db := by
  intro line hline
  obtain ⟨account, hfind, htype⟩ := h.typed line hline
  rw [Schema.find, h.accounts, List.find?_map] at hfind
  obtain ⟨before, hbefore, rfl⟩ := Option.map_eq_some_iff.mp hfind
  exact ⟨before, hbefore, htype⟩

/-- Each input has its line. -/
theorem exists_line {e : LedgerEntryInput} {lines : List Line}
    (hlines : List.Forall₂ LineOf entries lines) (he : e ∈ entries) : ∃ line ∈ lines, LineOf e line := by
  induction hlines with
  | nil => cases he
  | @cons e' line entries lines hline _ ih =>
      rcases List.mem_cons.mp he with rfl | he
      · exact ⟨line, List.mem_cons_self, hline⟩
      · obtain ⟨line', hmem, hof⟩ := ih he
        exact ⟨line', List.mem_cons_of_mem _ hmem, hof⟩

theorem inputTotal_lines {side : LedgerEntryType} {lines : List Line}
    (hlines : List.Forall₂ LineOf entries lines) :
    inputTotal side entries = sideTotal side (lines.map Line.entry) := by
  induction hlines with
  | nil => rfl
  | @cons e line entries lines hline _ ih =>
      rw [inputTotal_cons, ih, hline.amount, Js.whole_int, ← hline.entryType]
      by_cases hside : line.entry.entryType = side <;> simp [sideTotal, hside]

/-- Inputs that have been posted could be posted. -/
theorem postable_of_posting {txn : LedgerTransaction} {lines : List Line} {ws : List RowWrite}
    {db : Data} (hv : schema.Valid db) (hfits : locking.fitsAll ws db) (h : Posting txn lines ws db)
    (hlines : List.Forall₂ LineOf entries lines) : Postable entries db := by
  have hv' : schema.Valid (postgres.applyAll ws db) := locking.valid_applyAll hfits hv
  constructor
  · have htwo := h.balanced.two
    rw [List.length_map, ← hlines.length_eq] at htwo
    exact htwo
  · intro e he
    obtain ⟨line, hline, hof⟩ := exists_line hlines he
    have hentry : line.entry ∈ lines.map Line.entry := List.mem_map_of_mem hline
    refine ⟨line.entry.amount, hof.amount, h.balanced.positive _ hentry, ?_⟩
    refine hv'.fits .ledgerEntries line.entry ?_
    rw [h.entries]
    exact List.mem_append_right _ hentry
  · rw [inputTotal_lines hlines, inputTotal_lines hlines]
    exact h.balanced.even
  · intro e he
    obtain ⟨line, hline, hof⟩ := exists_line hlines he
    obtain ⟨account, haccount, -⟩ := typed_before h line hline
    exact ⟨account, hof.accountId ▸ haccount⟩
  · have hsame : schema.apply (.insert .ledgerTransactions txn) db .ledgerAccounts =
        db .ledgerAccounts := Schema.apply_of_ne (by simp [Write.table])
    have htyped := typed_before h
    rw [h.writes] at hfits
    exact (balancesFit_of_lines (locking.valid_apply hfits.1 hv) hlines hfits.2 fun line hline =>
      (htyped line hline).mono (locking.le_apply _ db)).congr hsame.symm

/-- What has been recorded could be recorded, and is in the books. -/
theorem booked_of_execute {data : LedgerTransactionCreate} {response : TransactionResponse}
    {ws : List RowWrite} {db : Data} (hv : schema.Valid db) (hfits : locking.fitsAll ws db)
    (h : (executeEffect data entries).rel response ws db) :
    OwnerKnown data.userId db ∧ Postable entries db ∧
      InLedger data entries response.transaction db (postgres.applyAll ws db) := by
  obtain ⟨lines, h, hrow, hlines⟩ := h
  have htyped := typed_before h
  refine ⟨⟨response.transaction.userId, hrow.userId, fun user huser => ?_⟩,
    postable_of_posting hv hfits h hlines, hrow, h.transactions, ⟨_, h.entries, ?_⟩, ?_, ?_⟩
  · rw [h.writes] at hfits
    obtain ⟨-, -, -, hrefs⟩ := Schema.accepts_insert.mp hfits.1
    have hrefs : schema.resolves (response.transaction.userId.map (Table.users, ·)).toList db = true :=
      hrefs
    rw [huser] at hrefs
    exact hasUser_of_resolves hrefs
  · rw [List.forall₂_map_right_iff]
    have hlinked := h.linked
    clear h htyped
    induction hlines with
    | nil => exact .nil
    | cons hline _ ih =>
        rw [List.forall_mem_cons] at hlinked
        exact .cons ⟨hlinked.1, hline.accountId, hline.entryType, hline.amount⟩ (ih hlinked.2)
  · rw [h.accounts]
    refine List.map_congr_left fun account haccount => ?_
    rw [addLines, changeOf_lines hlines fun line hline hid => ?_]
    obtain ⟨a, hfind, htype⟩ := htyped line hline
    rw [← htype, hv.eq_of_id (Schema.mem_of_find hfind) haccount ((Schema.id_of_find hfind).trans hid)]
  · intro t ht
    exact h.other (fun he => ht (he ▸ by decide)) (fun he => ht (he ▸ by decide))
      fun he => ht (he ▸ by decide)

end LedgerService

end PaymentBilling
