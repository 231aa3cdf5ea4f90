import PaymentBilling.Spec.OffLedger
import PaymentBilling.Spec.TransferProgress
import PaymentBilling.Transact.Refusals

/-!
# Spec.Increments

Increments of ledger balances that are not refused for their range: those of a
transfer, as long as both of its accounts have room for it.
-/

namespace PaymentBilling

open Relational Transact

/-- The increment of a balance. -/
def Increments : (β : Type) → Stmt β → Prop
  | _, .ledgerAccountUpdate _ _ => True
  | _, _ => False

/-- A value left its column. -/
def IsRange (e : Err) : Prop := e = .rejected .range

/-- The body of a transaction never overflows a balance. -/
abbrev Roomy (Z₀ : Data → Prop) {α : Type} (p : Action α) (Q : α → (Data → Prop) → Prop)
    (Z : Data → Prop) : Prop :=
  locking.AvoidsIn Increments IsRange Z₀ p Q Z

theorem not_isRange_fault (m : String) : ¬IsRange (postgres.fault m) := nofun

/-- Programs off the ledger increment no balance. -/
theorem not_increments_of_offLedger : ∀ β (s : Stmt β), OffLedger β s → ¬Increments β s := by
  intro β s hs
  cases s with
  | ledgerAccountUpdate id increment => exact fun _ => hs .ledgerAccounts rfl (by decide)
  | _ => exact id

namespace LedgerService

variable {Z₀ Z : Data → Prop} {entries : List LedgerEntryInput}

/-- The entry and the increment that the loop writes for an input are a line of
it. -/
theorem line_of_execs {env env' : Env} {txnId : String} {e : LedgerEntryInput} {account : LedgerAccount}
    {v' : Data} {row : LedgerEntry} {row' : LedgerAccount} {ws ws' : List RowWrite}
    (h : postgres.exec (.ledgerEntryCreate ⟨txnId, e.accountId, e.entryType, e.amount⟩) env v = .ok (row, ws))
    (h' : postgres.exec (.ledgerAccountUpdate e.accountId
      (calculateBalanceChange account.accountType e.entryType e.amount)) env' v' = .ok (row', ws')) :
    ∃ line, LineOf e line ∧ line.type = account.accountType ∧ ws ++ ws' = line.writes := by
  obtain ⟨n, hn, rfl, hrow⟩ := exec_ledgerEntryCreate h
  obtain ⟨m, hm, rfl⟩ := exec_ledgerAccountUpdate h'
  have hn : e.amount = .int n := Js.int32?_eq_some hn
  have hamount : row.amount = n := congrArg (·.amount) hrow
  have hline : LineOf e ⟨account.accountType, row⟩ :=
    ⟨congrArg (·.accountId) hrow, congrArg (·.entryType) hrow, by rw [hn, hamount]⟩
  have hchange : m = Line.change ⟨account.accountType, row⟩ := by
    rw [hline.amount, calculateBalanceChange_int] at hm
    rw [Line.change, hline.entryType]
    exact (Js.int_inj.mp (Js.int32?_eq_some hm)).symm
  exact ⟨_, hline, rfl, by rw [Line.writes, hline.accountId, hchange]; rfl⟩

/-- The loop never overflows a balance if none leaves its column on the way. -/
theorem roomy_recordEntries {txnId : String}
    (hfit : ∀ v, schema.Valid v → Z v → BalancesFit entries v) :
    Roomy Z₀ (recordEntries txnId entries) (fun _ _ => True) Z := by
  induction entries generalizing Z with
  | nil => exact Discipline.avoidsIn_pure trivial
  | cons e entries ih =>
      refine (Discipline.avoidsIn_other (Q := fun found Z' => ∃ v, found = schema.find .ledgerAccounts
        e.accountId v ∧ Z' = locking.after Z v []) id fun env v found ws _ _ hx => ?_).bind ?_
      · obtain ⟨rfl, rfl⟩ := exec_ledgerAccountFindUnique hx
        exact ⟨v, rfl, rfl⟩
      rintro found _ ⟨v, rfl, rfl⟩
      cases hfound : schema.find .ledgerAccounts e.accountId v with
      | none => exact Discipline.avoidsIn_throw _
      | some account =>
          -- the account is still there, with the same type
          have haccount : ∀ v', schema.Valid v' → locking.after Z v [] v' → BalancesFit (e :: entries) v' ∧
              ∃ account', schema.find .ledgerAccounts e.accountId v' = some account' ∧
                account.accountType = account'.accountType := by
            rintro v' - ⟨_, hz, hv', hle, -, rfl⟩
            obtain ⟨account', hfind, hfix⟩ := hle _ _ _ hfound
            exact ⟨hfit v' hv' hz, account', hfind, (congrArg (·.accountType) hfix).symm⟩
          refine (Discipline.avoidsIn_other (Q := fun row Z' => ∃ v₂ ws env, postgres.exec
            (.ledgerEntryCreate ⟨txnId, e.accountId, e.entryType, e.amount⟩) env v₂ = .ok (row, ws) ∧
              Z' = locking.after (locking.after Z v []) v₂ ws) id
            fun env v₂ row ws _ _ hx => ⟨v₂, ws, env, hx, rfl⟩).bind ?_
          rintro row _ ⟨v₂, ws, env, hx, rfl⟩
          refine (Discipline.avoidsIn_exec (Q := fun _ Z' => ∀ v, schema.Valid v → Z' v →
            BalancesFit entries v) (fun env' v₃ err hv₃ hz₃ hx' hrange => ?_)
            fun env' v₃ row' ws' hv₃ hz₃ hx' => ?_).bind fun _ Z' hz => ih hz
          · rw [show err = .rejected .range from hrange.2] at hx'
            obtain ⟨v₁, hz₁, hv₁, -, -, rfl⟩ := hz₃
            obtain ⟨hfit₁, account', hfind, htype⟩ := haccount v₁ hv₁ hz₁
            obtain ⟨n, hn, rfl, -⟩ := exec_ledgerEntryCreate hx
            have hfind₃ : schema.find .ledgerAccounts e.accountId
                (postgres.applyAll [.insert .ledgerEntries row] v₁) = some account' := by
              rw [Schema.find, applyAll_other fun w hw => ?_]
              · exact hfind
              · rw [List.mem_singleton.mp hw]
                exact (by decide : Table.ledgerEntries ≠ .ledgerAccounts)
            refine ledgerAccountUpdate_inRange hv₃ hfind₃ (fun m hm => ?_) hx'
            have hamount : e.amount = .int n := Js.int32?_eq_some hn
            rw [hamount, calculateBalanceChange_int, htype] at hm
            obtain rfl := Js.int_inj.mp (Js.int32?_eq_some hm)
            have hfirst := hfit₁ [e] (List.cons_prefix_cons.mpr ⟨rfl, List.nil_prefix⟩) account'
              (Schema.mem_of_find hfind)
            have hid : e.accountId = account'.id := (Schema.id_of_find hfind).symm
            rw [inputChange_cons, if_pos hid, inputChange_nil, Int.add_zero, hamount, Js.whole_int]
              at hfirst
            exact hfirst
          · rintro _ _ ⟨v₄, ⟨v₁, hz₁, hv₁, -, hfits, rfl⟩, -, -, hfits', rfl⟩
            obtain ⟨hfit₁, account', hfind, htype⟩ := haccount v₁ hv₁ hz₁
            obtain ⟨line, hline, hlineType, hwrites⟩ := line_of_execs hx hx'
            rw [← postgres.applyAll_append, hwrites]
            exact (balancesFit_cons hv₁ hline hfind (hlineType.trans htype)).mp hfit₁

/-- A transaction is written under a key that is not taken. -/
theorem roomy_executeRecord {userId : Js} {description key : String} {status : LedgerTransactionStatus}
    {metadata : Metadata} (hfit : ∀ v, schema.Valid v → Z v → ¬KeyTaken key v → BalancesFit entries v) :
    Roomy Z₀ (executeRecord userId description entries status metadata (some key)) (fun _ _ => True)
      Z := by
  refine (Discipline.avoidsIn_other (Q := fun _ Z' => ∀ v, schema.Valid v → Z' v →
    BalancesFit entries v) id fun env v txn ws _ _ hx => ?_).bind fun txn Z' hz => ?_
  · rintro _ - ⟨v₁, hz₁, hv₁, -, hfits, rfl⟩
    obtain ⟨user, -, rfl, hrow⟩ := exec_ledgerTransactionCreate hx
    have hnew : ¬KeyTaken key v₁ := by
      rintro ⟨t, ht⟩
      have hfree := (Schema.accepts_insert.mp hfits.1).2.2.1 (.idempotencyKey key)
        (by rw [hrow]; simp [schema])
      rw [hfree] at ht
      cases ht
    refine (hfit v₁ hv₁ hz₁ hnew).congr (applyAll_other fun w hw => ?_)
    rw [List.mem_singleton.mp hw]
    exact (by decide : Table.ledgerTransactions ≠ .ledgerAccounts)
  · refine (roomy_recordEntries hz).bind fun _ Z' _ => ?_
    refine (Discipline.avoidsIn_other (Q := fun _ _ => True) id fun _ _ _ _ _ _ _ => trivial).bind
      fun found Z' _ => ?_
    cases found with
    | none => exact Discipline.avoidsIn_throw _
    | some result => exact Discipline.avoidsIn_pure trivial

/-- A transaction whose key is taken adds nothing. -/
theorem roomy_recordTransaction {userId : Js} {description key : String}
    {status : LedgerTransactionStatus} {metadata : Metadata} (hne : key ≠ "")
    (hfit : validate entries = .ok () → ∀ v, schema.Valid v → Z v → ¬KeyTaken key v →
      BalancesFit entries v) :
    Roomy Z₀ (recordTransaction userId description entries status metadata true (some key))
      (fun _ _ => True) Z := by
  have hkey : (some key).filter (fun k => k ≠ "") = some key :=
    Option.filter_some_pos (decide_eq_true hne)
  rw [recordTransaction, hkey]
  refine (Discipline.avoidsIn_other (Q := fun _ Z' => ∃ v, Z' = locking.after Z v []) id
    fun env v found ws _ _ hx => ?_).bind fun found _ hz => ?_
  · obtain ⟨rfl, -⟩ := exec_ledgerTransactionFindFirst hx
    exact ⟨v, rfl⟩
  · obtain ⟨v, rfl⟩ := hz
    cases found with
    | some t => exact Discipline.avoidsIn_pure trivial
    | none =>
        show Roomy Z₀ (validateAndRecord ..) _ _
        unfold validateAndRecord
        cases hvalid : validate entries with
        | error e => exact Discipline.avoidsIn_throw e
        | ok _ =>
            refine roomy_executeRecord ?_
            rintro v' - ⟨_, hz', hv', -, -, rfl⟩
            exact hfit hvalid v' hv' hz'

/-- An account is found or opened. -/
theorem roomy_accountUpsert {userId : Js} {type : LedgerAccountType} :
    Roomy Z₀ (do let account ← query (.ledgerAccountUpsert userId type); return account.id)
      (fun id Z' => ∃ user, userId = .str user ∧ ∀ v', schema.Valid v' → Z' v' →
        HasAccount id user type v' ∧ ∃ v, Z v ∧ schema.Valid v ∧ Opened v v') Z := by
  refine (Discipline.avoidsIn_other id fun env v account ws hv _ hx => ?_).bind
    fun account Z' hq => Discipline.avoidsIn_pure hq
  obtain ⟨user, rfl, huser, htype, hrow⟩ := exec_ledgerAccountUpsert hx
  refine ⟨user, rfl, ?_⟩
  rintro _ hv'' ⟨v', hz, hv', hle, hfits, rfl⟩
  rcases hrow with ⟨hfind, rfl⟩ | ⟨-, hbal, rfl⟩
  · have haccount : HasAccount account.id user type v :=
      ⟨account, hv.find_of_mem (Schema.mem_of_findBy hfind), huser, htype⟩
    exact ⟨haccount.mono hle, v', hz, hv', opened_of_upsert hv'' hfits (.inl rfl)⟩
  · refine ⟨⟨account, ?_, huser, htype⟩, v', hz, hv', opened_of_upsert hv'' hfits
      (.inr ⟨account, hbal, rfl⟩)⟩
    refine hv''.find_of_mem ?_
    rw [applyAll_single, Schema.apply_insert_self]
    exact List.mem_append_right _ List.mem_cons_self

/-- Two entries that pass the validation are of a positive amount, or of one
that is no integer. -/
theorem whole_of_validate {debit credit : String} {amount : Js}
    (h : validate (pairEntries debit credit amount) = .ok ()) :
    amount.whole = 0 ∨ amount = .int amount.whole ∧ 0 < amount.whole := by
  cases hle : amount.le (.int 0) with
  | true =>
      simp [validate, pairEntries, totals, hle] at h
  | false =>
      by_cases hzero : amount.whole = 0
      · exact .inl hzero
      · have hint := Js.int_of_whole hzero
        rw [hint, Js.le_int, decide_eq_false_iff_not] at hle
        exact .inr ⟨hint, Int.not_le.mp hle⟩

/-- Whatever a transaction may see, revenue and the asset of the user have room for
the amount, unless the key is taken. -/
def Ready (userId amount : Js) (key : String) (Z : Data → Prop) : Prop :=
  ∀ v, schema.Valid v → Z v → ¬KeyTaken key v → ∀ user n, userId = .str user → amount = .int n →
    0 < n → HasRoom SYSTEM_USER_ID .REVENUE .DEBIT n v ∧ HasRoom user .ASSET .CREDIT n v

/-- A statement off the ledger leaves the room. -/
theorem roomy_offLedger {α : Type} {s : Stmt α} {userId amount : Js} {key : String}
    (hs : OffLedger α s) (hready : Ready userId amount key Z) :
    Roomy Z₀ (query s) (fun _ Z' => Ready userId amount key Z') Z := by
  refine Discipline.avoidsIn_other (not_increments_of_offLedger _ s hs) fun env v a ws _ _ hx => ?_
  rintro _ - ⟨v₁, hz₁, hv₁, -, -, rfl⟩ hnew user n huser hamount hpos
  have hsame : ∀ t ∈ ledgerTables, postgres.applyAll ws v₁ t = v₁ t := fun t ht =>
    applyAll_other fun w hin he => offLedger_of_exec _ s hs env v a ws hx w hin (he ▸ ht)
  have hbalance : ∀ user type, accountBalance user type (postgres.applyAll ws v₁) =
      accountBalance user type v₁ := fun user type => accountBalance_of_same (hsame _ (by decide))
  rw [KeyTaken, Schema.findBy, hsame _ (by decide)] at hnew
  rw [HasRoom, HasRoom, hbalance, hbalance]
  exact hready v₁ hv₁ hz₁ hnew user n huser hamount hpos

/-- A transfer never overflows a balance if both accounts have room for it. -/
theorem roomy_transfer {β : Type} {userId owner amount : Js} {description key : String}
    {status : LedgerTransactionStatus} {metadata : Metadata}
    {rest : TransactionResponse → Action β} (hne : key ≠ "")
    (hready : Ready userId amount key Z)
    (hrest : ∀ response Z', Roomy Z₀ (rest response) (fun _ _ => True) Z') :
    Roomy Z₀ (getOrCreateAssetAccount userId >>= fun asset =>
        getOrCreateSystemAccount .REVENUE >>= fun revenue =>
          recordTransaction owner description (pairEntries revenue asset amount) status metadata true
            (some key) >>= rest) (fun _ _ => True) Z := by
  refine roomy_accountUpsert.bind fun asset Z₁ h₁ => ?_
  obtain ⟨user, huser, hasset⟩ := h₁
  refine roomy_accountUpsert.bind fun revenue Z₂ h₂ => ?_
  obtain ⟨system, hsystem, hrevenue⟩ := h₂
  obtain rfl := Js.str.inj hsystem
  refine (roomy_recordTransaction hne fun hvalid v₂ hv₂ hz₂ hnew => ?_).bind
    fun response Z₃ _ => hrest response Z₃
  obtain ⟨hrevenue, v₁, hz₁, hv₁, hopened₂⟩ := hrevenue v₂ hv₂ hz₂
  obtain ⟨hasset, v, hz, hv, hopened₁⟩ := hasset v₁ hv₁ hz₁
  have hopened := hopened₁.trans hopened₂
  have hroom : HasRoom SYSTEM_USER_ID .REVENUE .DEBIT amount.whole v₂ ∧
      HasRoom user .ASSET .CREDIT amount.whole v₂ := by
    cases whole_of_validate hvalid with
    | inl hzero =>
        rw [hzero]
        exact ⟨hasRoom_zero hv₂, hasRoom_zero hv₂⟩
    | inr hwhole =>
        obtain ⟨hroom, hroom'⟩ := hready v hv hz (fun h => hnew (hopened.keyTaken.mpr h)) user _ huser
          hwhole.1 hwhole.2
        exact ⟨hopened.hasRoom.mpr hroom, hopened.hasRoom.mpr hroom'⟩
  exact balancesFit_pair hv₂ hrevenue (hasset.mono hopened₂.le) (by decide) hroom.1 hroom.2

end LedgerService

end PaymentBilling
