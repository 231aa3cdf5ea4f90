import Mathlib

/-!
# Bookkeeping

Double-entry bookkeeping, in general form.

An entry debits or credits one account and belongs to one transaction.  An
account grows by the entries on its normal side and shrinks by the others.
When every transaction debits as much as it credits, the accounts whose normal
side is the debit side add up to as much as the others: the trial balance.
-/

namespace Bookkeeping

/-- What an entry adds to an account. -/
def signed (debitNormal debit : Bool) (amount : Int) : Int :=
  if debit = debitNormal then amount else -amount

/-- What an entry adds to debits minus credits. -/
def net (debit : Bool) (amount : Int) : Int := signed true debit amount

/-- Credit-normal accounts count negatively in debits minus credits. -/
theorem net_eq_signed (debitNormal debit : Bool) (amount : Int) :
    net debit amount =
      if debitNormal then signed debitNormal debit amount
      else -signed debitNormal debit amount := by
  cases debitNormal <;> cases debit <;> simp [net, signed]

section Sums

variable {ε κ : Type} [DecidableEq κ]

/-- One entry is counted under its own key only. -/
theorem sum_ite_key {keys : List κ} (hn : keys.Nodup) {k : κ} (hk : k ∈ keys) (n : Int) :
    (keys.map fun k' => if k = k' then n else 0).sum = n := by
  induction keys with
  | nil => cases hk
  | cons k' keys ih =>
      rw [List.nodup_cons] at hn
      rw [List.map_cons, List.sum_cons]
      by_cases he : k = k'
      · subst he
        have hzero : ∀ x ∈ keys.map fun k' => if k = k' then n else 0, x = 0 := by
          intro x hx
          obtain ⟨k'', hk'', rfl⟩ := List.mem_map.mp hx
          exact if_neg fun he' => hn.1 (by rw [he']; exact hk'')
        rw [if_pos rfl, List.sum_eq_zero hzero, Int.add_zero]
      · have hk : k ∈ keys := (List.mem_cons.mp hk).resolve_left he
        rw [if_neg he, ih hn.2 hk, Int.zero_add]

/-- Adding up the entries of each key adds up all entries. -/
theorem sum_by_key {keys : List κ} (hn : keys.Nodup) (key : ε → κ) (f : ε → Int)
    {entries : List ε} (h : ∀ e ∈ entries, key e ∈ keys) :
    (keys.map fun k => ((entries.filter (key · = k)).map f).sum).sum = (entries.map f).sum := by
  induction entries with
  | nil => simp
  | cons e entries ih =>
      rw [List.forall_mem_cons] at h
      have hsplit : ∀ k, (((e :: entries).filter (key · = k)).map f).sum =
          (if key e = k then f e else 0) + ((entries.filter (key · = k)).map f).sum := by
        intro k
        by_cases hk : key e = k <;> simp [hk]
      simp only [hsplit, List.sum_map_add]
      rw [sum_ite_key hn h.1, ih h.2, List.map_cons, List.sum_cons]

/-- What adds nothing may be left out. -/
theorem sum_filter_of_zero {p : ε → Bool} {f : ε → Int} {entries : List ε}
    (h : ∀ e ∈ entries, p e = false → f e = 0) :
    ((entries.filter p).map f).sum = (entries.map f).sum := by
  induction entries with
  | nil => rfl
  | cons e entries ih =>
      rw [List.forall_mem_cons] at h
      cases he : p e with
      | true => simp [he, ih h.2]
      | false => simp [he, ih h.2, h.1 he]

/-- Adding up some entries is adding up all of them, the others as nothing. -/
theorem sum_filter_eq_ite (p : ε → Bool) (f : ε → Int) (entries : List ε) :
    ((entries.filter p).map f).sum = (entries.map fun e => if p e then f e else 0).sum := by
  induction entries with
  | nil => rfl
  | cons e entries ih =>
      cases he : p e <;> simp [he, ih]

theorem sum_map_neg (f : ε → Int) (entries : List ε) :
    (entries.map fun e => -f e).sum = -(entries.map f).sum := by
  rw [List.sum_neg, List.map_map]
  rfl

end Sums

/-! ## The trial balance -/

section TrialBalance

variable {α ι τ ε : Type} [DecidableEq ι] [DecidableEq τ]

/-- The accounts of one normal side add up to those of the other when their
difference is zero. -/
theorem sum_sides (accounts : List α) (normal : α → Bool) (balance : α → Int)
    (h : (accounts.map fun a => if normal a then balance a else -balance a).sum = 0) :
    ((accounts.filter (normal ·)).map balance).sum =
      ((accounts.filter (!normal ·)).map balance).sum := by
  have hsplit : (accounts.map fun a => if normal a then balance a else -balance a).sum =
      ((accounts.filter (normal ·)).map balance).sum -
        ((accounts.filter (!normal ·)).map balance).sum := by
    clear h
    induction accounts with
    | nil => rfl
    | cons a accounts ih =>
        rw [List.map_cons, List.sum_cons, ih]
        cases hn : normal a with
        | false =>
            simp [hn]
            omega
        | true =>
            simp [hn]
            omega
  omega

/-- The trial balance: accounts that hold what their entries add up to are
even as soon as every transaction is. -/
theorem trial_balance (accounts : List α) (transactions : List τ) (entries : List ε)
    (id : α → ι) (normal : α → Bool) (balance : α → Int) (account : ε → ι) (transaction : ε → τ)
    (debit : ε → Bool) (amount : ε → Int) (hid : (accounts.map id).Nodup)
    (htxn : transactions.Nodup)
    (haccount : ∀ e ∈ entries, account e ∈ accounts.map id)
    (htransaction : ∀ e ∈ entries, transaction e ∈ transactions)
    (hbalance : ∀ a ∈ accounts, balance a = ((entries.filter (account · = id a)).map fun e =>
      signed (normal a) (debit e) (amount e)).sum)
    (heven : ∀ t ∈ transactions,
      ((entries.filter (transaction · = t)).map fun e => net (debit e) (amount e)).sum = 0) :
    ((accounts.filter (normal ·)).map balance).sum =
      ((accounts.filter (!normal ·)).map balance).sum := by
  refine sum_sides accounts normal balance ?_
  -- each account contributes the net amounts of its entries
  have hnet : ∀ a ∈ accounts, (if normal a then balance a else -balance a) =
      ((entries.filter (account · = id a)).map fun e => net (debit e) (amount e)).sum := by
    intro a ha
    rw [hbalance a ha]
    generalize entries.filter (account · = id a) = es
    induction es with
    | nil => cases normal a <;> rfl
    | cons e es ih =>
        rw [List.map_cons, List.sum_cons, List.map_cons, List.sum_cons, ← ih,
          net_eq_signed (normal a)]
        cases normal a with
        | false =>
            simp
            omega
        | true => simp
  have htotal : (accounts.map fun a => if normal a then balance a else -balance a).sum =
      (entries.map fun e => net (debit e) (amount e)).sum := by
    rw [List.map_congr_left hnet, ← sum_by_key hid account _ haccount, List.map_map]
    rfl
  rw [htotal, ← sum_by_key htxn transaction _ htransaction]
  refine List.sum_eq_zero fun n hn => ?_
  obtain ⟨t, ht, rfl⟩ := List.mem_map.mp hn
  exact heven t ht

end TrialBalance

end Bookkeeping
