import PaymentBilling.Spec.Ledger
import PaymentBilling.Spec.OffLedger

/-!
# Spec.Transfer

A transaction between two accounts that are found or created first: the shape
of a payment refund, a chargeback and both outcomes of a dispute.
-/

namespace PaymentBilling

open Relational Transact

/-- What it takes to record a transaction between two accounts. -/
structure Transfer where
  firstUser : Js
  firstType : LedgerAccountType
  secondUser : Js
  secondType : LedgerAccountType
  key : Option String
  entries : String → String → List LedgerEntryInput

/-- The effect of a transfer. -/
def transferEffect (x : Transfer) : Effect locking TransactionResponse :=
  (LedgerService.accountEffect x.firstUser x.firstType).bind fun a =>
    (LedgerService.accountEffect x.secondUser x.secondType).bind fun b =>
      LedgerService.recordEffect x.key (x.entries a b)

/-- Writes that only open accounts. -/
def Opens (ws : List RowWrite) : Prop :=
  ∀ w ∈ ws, ∃ row : LedgerAccount, row.balance = 0 ∧ w = .insert .ledgerAccounts row

/-- A transfer opens accounts at most before it records its transaction. -/
structure Transferred (x : Transfer) (txn : LedgerTransaction) (ws : List RowWrite) (db : Data) :
    Prop where
  split : ∃ user₁ user₂ id₁ id₂ opened recorded,
    x.firstUser = .str user₁ ∧ x.secondUser = .str user₂ ∧ ws = opened ++ recorded ∧
      Opens opened ∧ HasAccount id₁ user₁ x.firstType (postgres.applyAll ws db) ∧
      HasAccount id₂ user₂ x.secondType (postgres.applyAll ws db) ∧
      ((recorded = [] ∧ HasTransaction txn (postgres.applyAll opened db) ∧
          ∃ k, x.key = some k ∧ txn.idempotencyKey = some k) ∨
        ∃ lines, Posting txn lines recorded (postgres.applyAll opened db) ∧
          txn.idempotencyKey = x.key ∧ List.Forall₂ LineOf (x.entries id₁ id₂) lines)

section Transfer

variable {x : Transfer} {response : TransactionResponse} {txn : LedgerTransaction}
  {ws : List RowWrite} {db : Data}

theorem Opens.append {ws' : List RowWrite} (h : Opens ws) (h' : Opens ws') : Opens (ws ++ ws') :=
  fun w hw => (List.mem_append.mp hw).elim (h w) (h' w)

/-- Opening accounts changes nothing else. -/
theorem Opens.applyAll_of_ne (h : Opens ws) {t : Table} (ht : t ≠ .ledgerAccounts) :
    postgres.applyAll ws db t = db t := by
  refine applyAll_other fun w hw => ?_
  obtain ⟨row, -, rfl⟩ := h w hw
  exact ht.symm

theorem transferred_of_rel (h : (transferEffect x).rel response ws db) :
    Transferred x response.transaction ws db := by
  obtain ⟨a, ws₁, ws', rfl, ⟨user₁, hu₁, hopen₁, hacc₁⟩, b, ws₂, ws₃, rfl,
    ⟨user₂, hu₂, hopen₂, hacc₂⟩, hrecord⟩ := h
  have hopens : ∀ {ws : List RowWrite},
      (ws = [] ∨ ∃ row : LedgerAccount, row.balance = 0 ∧ ws = [.insert .ledgerAccounts row]) →
      Opens ws := by
    rintro ws (rfl | ⟨row, hbal, rfl⟩)
    · intro w hw
      cases hw
    · intro w hw
      exact ⟨row, hbal, List.mem_singleton.mp hw⟩
  rw [← postgres.applyAll_append] at hacc₂
  refine ⟨user₁, user₂, a, b, ws₁ ++ ws₂, ws₃, hu₁, hu₂, by rw [List.append_assoc],
    (hopens hopen₁).append (hopens hopen₂), ?_, ?_, ?_⟩
  · rw [postgres.applyAll_append]
    exact hacc₁.mono (locking.le_applyAll _ _)
  · rw [← List.append_assoc, postgres.applyAll_append]
    exact hacc₂.mono (locking.le_applyAll _ _)
  · rw [postgres.applyAll_append]
    exact hrecord

/-- A transfer in front of the rest of a body. -/
theorem does_transfer {I : Data → Prop} {P : Protocol locking I} {past : List (Event Stmt Err)}
    {β : Type} {first second : Action String} {rest : TransactionResponse → Action β}
    {Z : TransactionResponse → Effect locking β} {userId : Js} {description : String}
    {status : LedgerTransactionStatus} {metadata : Metadata} {key : Option String}
    (hfirst : P.Does past first (LedgerService.accountEffect x.firstUser x.firstType))
    (hsecond : P.Does past second (LedgerService.accountEffect x.secondUser x.secondType))
    (hkey : key.filter (· ≠ "") = x.key) (hrest : ∀ response, P.Does past (rest response) (Z response)) :
    P.Does past
      (first >>= fun a => second >>= fun b =>
        LedgerService.recordTransaction userId description (x.entries a b) status metadata true key
          >>= rest)
      ((transferEffect x).bind Z) := by
  refine Protocol.does_weaken (Protocol.does_bind hfirst fun a => Protocol.does_bind hsecond fun b =>
    Protocol.does_bind (LedgerService.does_recordTransaction P userId description (x.entries a b)
      status metadata key) hrest) ?_
  rintro z ws db ⟨a, ws₁, _, rfl, h₁, b, ws₂, _, rfl, h₂, response, ws₃, ws₄, rfl, h₃, h₄⟩
  refine ⟨response, ws₁ ++ (ws₂ ++ ws₃), ws₄, by simp, ⟨a, ws₁, _, rfl, h₁, b, ws₂, ws₃, rfl, h₂, ?_⟩,
    ?_⟩
  · rw [← hkey]
    exact h₃
  · rw [postgres.applyAll_append, postgres.applyAll_append]
    exact h₄

/-! ## The commit -/

/-- A transfer writes the ledger only. -/
theorem Transferred.other (h : Transferred x txn ws db) {t : Table} (ht : t ∉ ledgerTables) :
    postgres.applyAll ws db t = db t := by
  simp only [ledgerTables, List.mem_cons, List.not_mem_nil, or_false, not_or] at ht
  obtain ⟨user₁, user₂, id₁, id₂, opened, recorded, -, -, rfl, hopens, -, -, hrecord⟩ := h.split
  rw [postgres.applyAll_append]
  rcases hrecord with ⟨rfl, -, -⟩ | ⟨lines, hp, -, -⟩
  · exact hopens.applyAll_of_ne ht.1
  · rw [hp.other ht.2.1 ht.2.2 ht.1]
    exact hopens.applyAll_of_ne ht.1

/-- Either the key was recorded before and nothing is, or the transaction is
new and its entries are the given ones. -/
theorem Transferred.transactions (h : Transferred x txn ws db) (hv : schema.Valid db)
    (hf : locking.fitsAll ws db) :
    (postgres.applyAll ws db .ledgerTransactions = db .ledgerTransactions ∧
        (∀ id, entriesOf id (postgres.applyAll ws db) = entriesOf id db) ∧
        txn ∈ db .ledgerTransactions ∧ ∃ k, x.key = some k ∧ txn.idempotencyKey = some k) ∨
      (postgres.applyAll ws db .ledgerTransactions = db .ledgerTransactions ++ [txn] ∧
        txn.idempotencyKey = x.key ∧
        (∀ k, x.key = some k → ∀ t ∈ db .ledgerTransactions, t.idempotencyKey ≠ some k) ∧
        (∀ t ∈ db .ledgerTransactions,
          entriesOf t.id (postgres.applyAll ws db) = entriesOf t.id db) ∧
        ∃ user₁ user₂ id₁ id₂ lines, x.firstUser = .str user₁ ∧ x.secondUser = .str user₂ ∧
          HasAccount id₁ user₁ x.firstType (postgres.applyAll ws db) ∧
          HasAccount id₂ user₂ x.secondType (postgres.applyAll ws db) ∧
          entriesOf txn.id (postgres.applyAll ws db) = lines.map Line.entry ∧
          List.Forall₂ LineOf (x.entries id₁ id₂) lines) := by
  obtain ⟨user₁, user₂, id₁, id₂, opened, recorded, hu₁, hu₂, rfl, hopens, hacc₁, hacc₂, hrecord⟩ :=
    h.split
  rw [locking.fitsAll_append] at hf
  have htxns : postgres.applyAll opened db .ledgerTransactions = db .ledgerTransactions :=
    hopens.applyAll_of_ne (by decide)
  have hentries : ∀ id, entriesOf id (postgres.applyAll opened db) = entriesOf id db := by
    intro id
    rw [entriesOf, hopens.applyAll_of_ne (by decide), entriesOf]
  rw [postgres.applyAll_append] at hacc₁ hacc₂ ⊢
  rcases hrecord with ⟨rfl, htxn, hk⟩ | ⟨lines, hp, hk, hlines⟩
  · refine .inl ⟨htxns, hentries, ?_, hk⟩
    rw [← htxns]
    exact Schema.mem_of_find htxn
  · have hfresh := hp.fresh hf.2
    refine .inr ⟨by rw [hp.transactions, htxns], hk, fun k hkey t ht he => ?_, fun t ht => ?_,
      user₁, user₂, id₁, id₂, lines, hu₁, hu₂, hacc₁, hacc₂, ?_, hlines⟩
    · rw [← htxns] at ht
      refine Schema.ne_of_findBy_none (hfresh.2 k (hk.trans hkey)) t ht ?_
      simp [schema, he]
    · rw [← htxns] at ht
      rw [hp.entriesOf_of_ne (hp.ne_of_mem hf.2 ht), hentries]
    · exact hp.entriesOf_self (locking.valid_applyAll hf.1 hv) hf.2

end Transfer

end PaymentBilling
