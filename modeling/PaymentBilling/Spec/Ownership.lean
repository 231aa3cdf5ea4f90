import PaymentBilling.Spec.Accounts
import PaymentBilling.Spec.CreditBooks
import PaymentBilling.Spec.Writes
import PaymentBilling.Transact.Nested

/-!
# Spec.Ownership

Whose row is whose.

Balances, what is logged of them, subscriptions, refund requests and disputes
belong to a user, and so does the balance of an asset account; a row never
changes hands.  Writes to the rows of some users leave all the others untouched.
-/

namespace PaymentBilling

open Relational Transact

/-! ## Owners -/

/-- The tables whose rows belong to a user. -/
def ownedTables : List Table :=
  [.credits, .creditTransactions, .subscriptions, .refundRequests, .disputes]

/-- The user whose row it is; other rows are nobody's. -/
def rowOwner (db : Data) {t : Table} : Row t → Option String :=
  match t with
  | .credits => fun r => some r.userId
  | .creditTransactions => fun r => ownerOf db r
  | .subscriptions => fun r => some r.userId
  | .refundRequests => fun r => some r.userId
  | .disputes => fun r => some r.userId
  | _ => fun _ => none

/-- The rows of a user in a table. -/
def rowsOf (user : String) (t : Table) (db : Data) : List (Row t) :=
  (db t).filter fun r => rowOwner db r = some user

/-- A user has the same rows as before, and the same asset balance. -/
structure Untouched (user : String) (db db' : Data) : Prop where
  rows : ∀ t, rowsOf user t db' = rowsOf user t db
  asset : accountBalance user .ASSET db' = accountBalance user .ASSET db

/-- The row belongs to one of the users in `U`. -/
def OwnedIn (U : String → Prop) (db : Data) {t : Table} (r : Row t) : Prop :=
  ∃ user, rowOwner db r = some user ∧ U user

/-- The write is to a row of one of the users in `U`, or to nobody's. -/
def Concerns (U : String → Prop) (db : Data) : RowWrite → Prop
  | .insert t row => t ∈ ownedTables → OwnedIn U db row
  | .update t id _ => t ∈ ownedTables → ∃ row, schema.find t id db = some row ∧ OwnedIn U db row

section Owners

variable {U : String → Prop} {db db' db₁ : Data} {t : Table} {r r' : Row t} {user : String}
  {w : RowWrite} {ws ws' : List RowWrite}

theorem Untouched.refl (user : String) (db : Data) : Untouched user db db := ⟨fun _ => rfl, rfl⟩

theorem Untouched.trans (h : Untouched user db db₁) (h' : Untouched user db₁ db') :
    Untouched user db db' := ⟨fun t => (h'.rows t).trans (h.rows t), h'.asset.trans h.asset⟩

theorem rowOwner_of_not_mem (h : t ∉ ownedTables) (r : Row t) : rowOwner db r = none := by
  cases t <;> first | rfl | exact (h (by decide)).elim

/-- A row never changes hands. -/
theorem rowOwner_of_fixed (h : schema.fixed r' = schema.fixed r) : rowOwner db r' = rowOwner db r := by
  cases t with
  | credits => exact congrArg some (Credits.mk.inj h).2.1
  | creditTransactions => exact congrArg (ownerOf db) h
  | subscriptions => exact congrArg some (Subscription.mk.inj h).2.1
  | refundRequests => exact congrArg some (RefundRequest.mk.inj h).2.1
  | disputes => exact congrArg some (Dispute.mk.inj h).2.1
  | _ => rfl

/-- What is there keeps its owner. -/
theorem rowOwner_of_le (hv : schema.Valid db) (hle : schema.le db db') (h : r ∈ db t) :
    rowOwner db' r = rowOwner db r := by
  cases t with
  | creditTransactions => exact ownerOf_of_le hv hle h
  | _ => rfl

theorem OwnedIn.mono (h : OwnedIn U db r) (hle : schema.le db db')
    (hfix : schema.fixed r' = schema.fixed r) : OwnedIn U db' r' := by
  obtain ⟨user, howner, hu⟩ := h
  refine ⟨user, ?_, hu⟩
  rw [rowOwner_of_fixed hfix, ← howner]
  cases t with
  | creditTransactions =>
      obtain ⟨row, hrow, -⟩ := Option.map_eq_some_iff.mp howner
      obtain ⟨row', hrow', hfix'⟩ := hle _ _ _ hrow
      show ownerOf db' r = ownerOf db r
      rw [ownerOf, ownerOf, hrow, hrow']
      exact congrArg some (Credits.mk.inj hfix').2.1
  | _ => rfl

theorem Concerns.mono (h : Concerns U db w) (hle : schema.le db db') : Concerns U db' w := by
  cases w with
  | insert t row => exact fun ht => (h ht).mono hle rfl
  | update t id p =>
      intro ht
      obtain ⟨row, hrow, howned⟩ := h ht
      obtain ⟨row', hrow', hfix⟩ := hle _ _ _ hrow
      exact ⟨row', hrow', howned.mono hle hfix⟩

/-- Whoever owns a row of `U` is in `U`. -/
theorem OwnedIn.eq (h : OwnedIn U db r) (howner : rowOwner db r = some user) : U user := by
  obtain ⟨user', howner', hu⟩ := h
  rw [howner] at howner'
  exact Option.some.inj howner' ▸ hu

/-- A write that concerns some users leaves the rows of the others. -/
theorem rowsOf_apply (hv : schema.Valid db) (hw : schema.accepts w db)
    (hle : schema.le (schema.apply w db) db') (hc : Concerns U db' w) (hu : ¬U user) (t : Table) :
    rowsOf user t (schema.apply w db) = rowsOf user t db := by
  have hsame : ∀ r ∈ db t, rowOwner (schema.apply w db) r = rowOwner db r := fun r hr =>
    rowOwner_of_le hv (schema.le_apply w db) hr
  -- a row of the user is not the one that is written
  have hother : ∀ r : Row t, OwnedIn (· = user) (schema.apply w db) r → ¬OwnedIn U db' r := by
    intro r hr hrU
    obtain ⟨_, howner, rfl⟩ := hr.mono hle rfl
    exact hu (hrU.eq howner)
  by_cases ht : t = w.table
  · cases w with
    | insert t₀ row =>
        obtain rfl : t = t₀ := ht
        have hold : (db t).filter (fun r => rowOwner (schema.apply (.insert t row) db) r = some user) =
            rowsOf user t db := List.filter_congr fun r hr => by rw [hsame r hr]
        rw [rowsOf, Schema.apply_insert_self, List.filter_append, hold, List.filter_eq_nil_iff.mpr,
          List.append_nil]
        intro r hr hmine
        obtain rfl := List.mem_singleton.mp hr
        have hmine := of_decide_eq_true hmine
        by_cases howned : t ∈ ownedTables
        · exact hother r ⟨user, hmine, rfl⟩ (hc howned)
        · rw [rowOwner_of_not_mem howned] at hmine
          cases hmine
    | update t₀ id p =>
        obtain rfl : t = t₀ := ht
        have howner : ∀ r ∈ db t, rowOwner (schema.apply (.update t id p) db) (schema.revise id p r) =
            rowOwner db r := fun r hr => by rw [rowOwner_of_fixed Schema.fixed_revise, hsame r hr]
        have hkept : ∀ r ∈ rowsOf user t db, schema.revise id p r = r := by
          intro r hr
          obtain ⟨hr, hmine⟩ := List.mem_filter.mp hr
          have hmine := of_decide_eq_true hmine
          by_cases howned : t ∈ ownedTables
          · refine Schema.revise_of_ne fun hid => ?_
            subst hid
            have hfind : schema.find t (schema.id r) (schema.apply (.update t (schema.id r) p) db) =
                some (schema.revise (schema.id r) p r) := by
              rw [Schema.find_update, hv.find_of_mem hr, Option.map_some]
            obtain ⟨row, hrow, hfix⟩ := hle _ _ _ hfind
            obtain ⟨row', hrow', hrowU⟩ := hc howned
            obtain rfl := Option.some.inj (hrow'.symm.trans hrow)
            refine hother _ ⟨user, (howner r hr).trans hmine, rfl⟩ ?_
            exact hrowU.mono (schema.le_refl db') hfix.symm
          · rw [rowOwner_of_not_mem howned] at hmine
            cases hmine
        have hfilter : (db t).filter ((fun r => decide (rowOwner (schema.apply (.update t id p) db) r =
            some user)) ∘ schema.revise id p) = rowsOf user t db :=
          List.filter_congr fun r hr => by rw [Function.comp_apply, howner r hr]
        rw [rowsOf, Schema.apply_update_self, List.filter_map, hfilter, List.map_congr_left hkept,
          List.map_id']
  · rw [rowsOf, Schema.apply_of_ne ht, rowsOf]
    exact List.filter_congr fun r hr => by rw [hsame r hr]

/-- The same for several writes. -/
theorem rowsOf_applyAll (hv : schema.Valid db) (hfits : locking.fitsAll ws db)
    (hle : schema.le (postgres.applyAll ws db) db') (hc : ∀ w ∈ ws, Concerns U db' w) (hu : ¬U user)
    (t : Table) : rowsOf user t (postgres.applyAll ws db) = rowsOf user t db := by
  induction ws generalizing db with
  | nil => rfl
  | cons w ws ih =>
      rw [List.forall_mem_cons] at hc
      rw [Engine.applyAll_cons] at hle ⊢
      have hfirst := rowsOf_apply hv hfits.1 (schema.le_trans (locking.le_applyAll ws _) hle) hc.1 hu t
      exact (ih (hv.apply hfits.1) hfits.2 hle hc.2).trans hfirst

/-- Where nothing that is owned is written, the rows are the same. -/
theorem rowsOf_of_same (hv : schema.Valid db) (hle : schema.le db db')
    (h : t ∈ ownedTables → db' t = db t) : rowsOf user t db' = rowsOf user t db := by
  by_cases ht : t ∈ ownedTables
  · rw [rowsOf, h ht, rowsOf]
    exact List.filter_congr fun r hr => by rw [rowOwner_of_le hv hle hr]
  · have hnone : ∀ db, rowsOf user t db = [] := by
      intro db
      rw [rowsOf, List.filter_eq_nil_iff]
      intro r _
      rw [rowOwner_of_not_mem ht]
      exact nofun
    rw [hnone, hnone]

/-- Writes that concern some users leave the others untouched. -/
theorem untouched_of_concerns (hv : schema.Valid db) (hfits : locking.fitsAll ws db)
    (hc : ∀ w ∈ ws, Concerns U (postgres.applyAll ws db) w) (hl : ∀ w ∈ ws, w.table ≠ .ledgerAccounts)
    (hu : ¬U user) : Untouched user db (postgres.applyAll ws db) where
  rows := rowsOf_applyAll hv hfits (schema.le_refl _) hc hu
  asset := accountBalance_of_same (applyAll_other hl)

end Owners

/-! ## Writes for a user -/

/-- Writes that concern some users, none of them to the ledger or to a dispute. -/
def Personal (U : String → Prop) (ws : List RowWrite) (db : Data) : Prop :=
  ∀ w ∈ ws, Concerns U (postgres.applyAll ws db) w ∧ w.table ∉ .disputes :: ledgerTables

/-- Such writes are added to a transaction. -/
def personalEffect (U : String → Prop) (α : Type) : Effect locking α where
  rel _ ws db := Personal U ws db
  stable hf hf' hle h := fun w hw => ⟨(h w hw).1.mono (locking.applyAll_le hf hf' hle), (h w hw).2⟩

section Personal

variable {U : String → Prop} {db db' : Data} {user : String} {ws ws' : List RowWrite}

theorem Personal.nil : Personal U [] db := List.forall_mem_nil _

theorem Personal.append (h : Personal U ws db) (h' : Personal U ws' (postgres.applyAll ws db)) :
    Personal U (ws ++ ws') db := by
  intro w hw
  rw [postgres.applyAll_append]
  cases List.mem_append.mp hw with
  | inl hw => exact ⟨(h w hw).1.mono (locking.le_applyAll ws' _), (h w hw).2⟩
  | inr hw => exact h' w hw

/-- Writes of other tables are nobody's. -/
theorem personal_of_table (h : ∀ w ∈ ws, w.table ∉ .disputes :: ledgerTables ++ ownedTables) :
    Personal U ws db := by
  intro w hw
  have ht := h w hw
  rw [List.cons_append, ← List.cons_append, List.mem_append, not_or] at ht
  refine ⟨?_, ht.1⟩
  cases w with
  | insert t row => exact fun howned => (ht.2 howned).elim
  | update t id p => exact fun howned => (ht.2 howned).elim

theorem Personal.untouched (h : Personal U ws db) (hv : schema.Valid db)
    (hfits : locking.fitsAll ws db) (hu : ¬U user) : Untouched user db (postgres.applyAll ws db) := by
  refine untouched_of_concerns hv hfits (fun w hw => (h w hw).1) (fun w hw he => (h w hw).2 ?_) hu
  rw [he]
  decide

theorem Personal.other (h : Personal U ws db) {t : Table} (ht : t ∈ .disputes :: ledgerTables) :
    postgres.applyAll ws db t = db t :=
  applyAll_other fun w hw he => (h w hw).2 (he ▸ ht)

/-- A change of credits is about the credits of its user. -/
theorem CreditChange.personal {n : Int} {key : Option String} (h : CreditChange user n key ws db)
    (hfits : locking.fitsAll ws db) (hU : U user) : Personal U ws db := by
  have hpair : ∀ {w : RowWrite} {log : CreditTransaction} {row : Credits} {db' : Data},
      w.table = .credits → Concerns U db' w → schema.find .credits row.id db' = some row →
      row.userId = user → log.creditsId = row.id →
      ∀ w' ∈ [w, .insert .creditTransactions log], Concerns U db' w' ∧
        w'.table ∉ .disputes :: ledgerTables := by
    intro w log row db' htable hw hfind huser hlog
    refine List.forall_mem_cons.mpr ⟨⟨hw, by rw [htable]; decide⟩, List.forall_mem_singleton.mpr
      ⟨fun _ => ⟨user, ?_, hU⟩, (by decide : Table.creditTransactions ∉ .disputes :: ledgerTables)⟩⟩
    show ownerOf db' log = some user
    rw [ownerOf, hlog, hfind, Option.map_some, huser]
  cases h with
  | move row log hrow huser hlog hcover =>
      obtain ⟨row', hrow', hfix⟩ := locking.le_applyAll
        [.update .credits row.id n, .insert .creditTransactions log] db _ _ _ hrow
      have hid : row'.id = row.id := (Credits.mk.inj hfix).1
      have huser' : row'.userId = user := (Credits.mk.inj hfix).2.1.trans huser
      exact hpair rfl (fun _ => ⟨row', hrow', user, congrArg some huser', hU⟩) (hid ▸ hrow') huser'
        (hlog.1.trans hid.symm)
  | create row log huser hbalance hlog hpos =>
      have hnone : schema.find .credits row.id db = none := (Schema.accepts_insert.mp hfits.1).2.1
      have hfind : schema.find .credits row.id (postgres.applyAll
          [.insert .credits row, .insert .creditTransactions log] db) = some row := by
        rw [applyAll_pair, Schema.find_apply_of_ne (by simp [Write.table]), Schema.find_insert, hnone]
        exact if_pos rfl
      exact hpair rfl (fun _ => ⟨user, congrArg some huser, hU⟩) hfind huser hlog.1

end Personal

/-! ## Transfers -/

section Transfers

variable {x : Transfer} {txn : LedgerTransaction} {ws : List RowWrite} {db : Data} {user : String}
  {type : LedgerAccountType}

/-- An account has one owner and one type. -/
theorem HasAccount.unique {id user' : String} {type' : LedgerAccountType}
    (h : HasAccount id user type db) (h' : HasAccount id user' type' db) : user = user' ∧ type = type' := by
  obtain ⟨account, hf, rfl, rfl⟩ := h
  obtain ⟨account', hf', rfl, rfl⟩ := h'
  rw [hf] at hf'
  rw [Option.some.inj hf']
  exact ⟨rfl, rfl⟩

/-- Lines on other accounts do not change an account. -/
theorem changeOf_eq_zero {id : String} {entries : List LedgerEntryInput} {lines : List Line}
    (h : List.Forall₂ LineOf entries lines) (hne : ∀ e ∈ entries, e.accountId ≠ id) :
    changeOf id lines = 0 := by
  induction h with
  | nil => rfl
  | cons hline _ ih =>
      rw [List.forall_mem_cons] at hne
      rw [changeOf_cons, if_neg (hline.accountId ▸ hne.1), ih hne.2]
      rfl

/-- A transfer moves the balances of its two accounts only. -/
theorem Transferred.accountBalance_other (h : Transferred x txn ws db) (hv : schema.Valid db)
    (hfits : locking.fitsAll ws db)
    (hentries : ∀ a b, ∀ e ∈ x.entries a b, e.accountId = a ∨ e.accountId = b)
    (hfirst : ¬(x.firstUser = .str user ∧ x.firstType = type))
    (hsecond : ¬(x.secondUser = .str user ∧ x.secondType = type)) :
    accountBalance user type (postgres.applyAll ws db) = accountBalance user type db := by
  obtain ⟨user₁, user₂, id₁, id₂, opened, recorded, hu₁, hu₂, rfl, hopens, hacc₁, hacc₂, hrecord⟩ :=
    h.split
  have hfits' := locking.fitsAll_append.mp hfits
  rw [postgres.applyAll_append] at hacc₁ hacc₂ ⊢
  rcases hrecord with ⟨rfl, -, -⟩ | ⟨lines, hp, -, hlines⟩
  · exact hopens.accountBalance hfits'.1 user type
  rw [← hopens.accountBalance hfits'.1 user type]
  have hfound : schema.findBy .ledgerAccounts (.userAccount user type)
      (postgres.applyAll recorded (postgres.applyAll opened db)) =
      (schema.findBy .ledgerAccounts (.userAccount user type) (postgres.applyAll opened db)).map
        (addLines lines) := by
    rw [Schema.findBy, hp.accounts, List.find?_map, Schema.findBy]
    rfl
  rw [accountBalance, hfound, accountBalance]
  cases hf : schema.findBy .ledgerAccounts (.userAccount user type) (postgres.applyAll opened db) with
  | none => rfl
  | some account =>
      have hk := Schema.key_of_findBy hf
      simp only [schema, List.mem_singleton, UniqueKey.userAccount.injEq] at hk
      have haccount : HasAccount account.id user type
          (postgres.applyAll recorded (postgres.applyAll opened db)) := by
        refine HasAccount.mono (locking.le_applyAll recorded _) ⟨account, ?_, hk.1.symm, hk.2.symm⟩
        exact (locking.valid_applyAll hfits'.1 hv).find_of_mem (Schema.mem_of_findBy hf)
      -- the account is neither of the two
      have hne : ∀ e ∈ x.entries id₁ id₂, e.accountId ≠ account.id := by
        intro e he hid
        rcases hentries id₁ id₂ e he with hid₁ | hid₂
        · have hsame := haccount.unique (hid.symm.trans hid₁ ▸ hacc₁)
          exact hfirst ⟨hu₁.trans (congrArg Js.str hsame.1.symm), hsame.2.symm⟩
        · have hsame := haccount.unique (hid.symm.trans hid₂ ▸ hacc₂)
          exact hsecond ⟨hu₂.trans (congrArg Js.str hsame.1.symm), hsame.2.symm⟩
      show account.balance + changeOf account.id lines = account.balance
      rw [changeOf_eq_zero hlines hne, Int.add_zero]

/-- A transfer between an asset account and a system account leaves the users
untouched whose asset account it is not. -/
theorem Transferred.untouched (h : Transferred x txn ws db) (hv : schema.Valid db)
    (hfits : locking.fitsAll ws db)
    (hentries : ∀ a b, ∀ e ∈ x.entries a b, e.accountId = a ∨ e.accountId = b)
    (hfirst : ¬(x.firstUser = .str user ∧ x.firstType = .ASSET))
    (hsecond : ¬(x.secondUser = .str user ∧ x.secondType = .ASSET)) :
    Untouched user db (postgres.applyAll ws db) where
  rows t := by
    refine rowsOf_of_same hv (locking.le_applyAll ws db) fun ht => h.other ?_
    revert ht
    cases t <;> decide
  asset := h.accountBalance_other hv hfits hentries hfirst hsecond

end Transfers

end PaymentBilling
