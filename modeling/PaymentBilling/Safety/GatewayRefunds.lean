import PaymentBilling.Gateways.Solana
import PaymentBilling.Replies

/-!
# Safety.GatewayRefunds

The refunds of the gateways, over whole histories of calls.

Both gateways log the answer to an idempotency key.  A new key draws a random
text for the refund, except that the card gateway names the refund of a charge
after the charge when it was refunded before.
-/

namespace PaymentBilling

open Replies

/-- The identifier of the refund in an answer. -/
def GatewayAnswer.refundId : GatewayAnswer → Option String
  | refunded result => some result.gatewayRefundId
  | _ => none

/-- Random texts for examples: no two of them have one length. -/
def drawnText (n : Nat) : String := String.ofList (List.replicate n 'x')

theorem drawnText_injective : Function.Injective drawnText := by
  intro n n' h
  have hlist : List.replicate n 'x' = List.replicate n' 'x' := by
    have htexts := congrArg String.toList h
    simpa only [drawnText, String.toList_ofList] using htexts
  simpa only [List.length_replicate] using congrArg List.length hlist

/-- A text with another letter is none of them. -/
theorem ne_drawnText {text : String} {c : Char} (hc : c ∈ text.toList) (hx : c ≠ 'x') (n : Nat) :
    some text ≠ some (drawnText n) := by
  intro h
  rw [Option.some.inj h, drawnText, String.toList_ofList] at hc
  exact hx (List.eq_of_mem_replicate hc)

/-- The answers that are logged, after one more. -/
theorem map_refunded_update {before after : String → Option RefundResult} {k : String}
    {result : RefundResult} (h : after = Function.update before k (some result)) :
    (fun key => (after key).map GatewayAnswer.refunded) =
      Function.update (fun key => (before key).map GatewayAnswer.refunded) k (some (.refunded result)) := by
  funext key
  rw [h]
  by_cases hkey : key = k
  · subst hkey
    rw [Function.update_self, Function.update_self]
    rfl
  · rw [Function.update_of_ne hkey, Function.update_of_ne hkey]

/-! ## The card gateway -/

namespace AuthorizeNetCall

/-- The key of a refund. -/
def key : AuthorizeNetCall → Option String
  | refundCharge _ _ idempotencyKey => some idempotencyKey
  | _ => none

/-- The charge that is refunded. -/
def refunds : AuthorizeNetCall → Option String
  | refundCharge gatewayTransactionId _ _ => some gatewayTransactionId
  | _ => none

/-- A refund has a key. -/
theorem exists_key {c : AuthorizeNetCall} {txn : String} (h : c.refunds = some txn) :
    ∃ k, c.key = some k := by
  cases c with
  | refundCharge txn' amount k => exact ⟨k, rfl⟩
  | _ => cases h

end AuthorizeNetCall

namespace AuthorizeNetGateway

/-- The logged answers. -/
def log (g : AuthorizeNetGateway) (k : String) : Option GatewayAnswer := (g.refundLog k).map .refunded

/-- The charge was refunded at the gateway. -/
def Refunded (g : AuthorizeNetGateway) (gatewayTransactionId : String) : Prop :=
  (g.charges gatewayTransactionId).any (·.status = .refunded) = true

/-- The calls of a run of a new gateway. -/
def history (random : Nat → String) (calls : List AuthorizeNetCall) :
    List (Entry AuthorizeNetGateway AuthorizeNetCall GatewayAnswer) :=
  trace (AuthorizeNetCall.run random) calls {}

variable {random : Nat → String} {g : AuthorizeNetGateway} {txn k : String} {amount : JsNum}

/-- A key that is logged. -/
theorem refundCharge_cached {result : RefundResult} (hlogged : g.refundLog k = some result) :
    g.refundCharge random txn amount k = (result, g) := by
  unfold refundCharge
  rw [hlogged]

/-- A key that is not logged: the charge was refunded before, and the refund is
named after it. -/
theorem refundCharge_late (hnone : g.refundLog k = none) (hlate : g.Refunded txn) :
    g.refundCharge random txn amount k =
      (⟨"an_refund_" ++ txn, .num amount⟩,
        { g with
          refundLog := Function.update g.refundLog k (some ⟨"an_refund_" ++ txn, .num amount⟩) }) := by
  unfold refundCharge
  rw [hnone]
  exact if_pos hlate

/-- Otherwise the refund is named by a random text. -/
theorem refundCharge_new (hnone : g.refundLog k = none) (hnew : ¬g.Refunded txn) :
    (g.refundCharge random txn amount k).1 = ⟨"an_refund_" ++ random g.drawn, .num amount⟩ ∧
      (g.refundCharge random txn amount k).2.refundLog =
        Function.update g.refundLog k (some (g.refundCharge random txn amount k).1) ∧
      (g.refundCharge random txn amount k).2.drawn = g.drawn + 1 := by
  have hcharge : ¬(g.charges txn).any (·.status = .refunded) = true := hnew
  unfold refundCharge
  rw [hnone]
  simp only [if_neg hcharge, and_self]

/-- The card gateway answers a key from its log. -/
theorem logged (random : Nat → String) : Logged (AuthorizeNetCall.run random) AuthorizeNetCall.key log where
  hit := by
    intro c g k r hk hr
    cases c with
    | refundCharge txn amount key =>
        obtain rfl : key = k := Option.some.inj hk
        obtain ⟨result, hresult, rfl⟩ := Option.map_eq_some_iff.mp hr
        simp only [AuthorizeNetCall.run, refundCharge_cached hresult, and_self]
    | _ => cases hk
  miss := by
    intro c g k hk hnone
    cases c with
    | refundCharge txn amount key =>
        obtain rfl : key = k := Option.some.inj hk
        have hnone : g.refundLog key = none := Option.map_eq_none_iff.mp hnone
        have hlog : (g.refundCharge random txn amount key).2.refundLog =
            Function.update g.refundLog key (some (g.refundCharge random txn amount key).1) := by
          by_cases hlate : g.Refunded txn
          · rw [refundCharge_late hnone hlate]
          · exact (refundCharge_new hnone hlate).2.1
        exact map_refunded_update hlog
    | _ => cases hk
  other := by
    intro c g hk
    cases c with
    | refundCharge txn amount key => cases hk
    | cancelSubscription id =>
        simp only [AuthorizeNetCall.run, cancelSubscription]
        split <;> rfl
    | _ => rfl

theorem drawn_le (random : Nat → String) (c : AuthorizeNetCall) (g : AuthorizeNetGateway) :
    g.drawn ≤ (c.run random g).2.drawn := by
  cases c with
  | createSubscription userId plan => exact Nat.le_add_right _ _
  | cancelSubscription id =>
      simp only [AuthorizeNetCall.run, cancelSubscription]
      split <;> exact Nat.le_refl _
  | registerCharge txn subscription amount => exact Nat.le_refl _
  | refundCharge txn amount key =>
      simp only [AuthorizeNetCall.run]
      cases hr : g.refundLog key with
      | some result =>
          exact Nat.le_of_eq (by rw [refundCharge_cached hr])
      | none =>
          by_cases hlate : g.Refunded txn
          · exact Nat.le_of_eq (by rw [refundCharge_late hr hlate])
          · rw [(refundCharge_new hr hlate).2.2]
            exact Nat.le_add_right _ _

/-- In a run, the key was first used on a charge that had been refunded before. -/
def FirstUsedLate (random : Nat → String) (calls : List AuthorizeNetCall) (k txn : String) : Prop :=
  ∃ x ∈ history random calls, x.call.key = some k ∧ x.call.refunds = some txn ∧
    x.before.refundLog k = none ∧ x.before.Refunded txn

section History

variable {calls : List AuthorizeNetCall} {k' : String}
  {x y : Entry AuthorizeNetGateway AuthorizeNetCall GatewayAnswer}

/-- A key has a first use, either late or with a random text of its own, whose
answer is that of each use. -/
theorem exists_firstUse (hx : x ∈ history random calls) (hk : x.call.key = some k) :
    ∃ first ∈ history random calls, first.call.key = some k ∧
      ((∃ txn, first.call.refunds = some txn ∧ FirstUsedLate random calls k txn ∧
          x.answer.refundId = some ("an_refund_" ++ txn)) ∨
        first.before.drawn < (first.call.run random first.before).2.drawn ∧
          x.answer.refundId = some ("an_refund_" ++ random first.before.drawn)) := by
  obtain ⟨first, hfirst, hkey, hnone, hanswer⟩ := (logged random).exists_first rfl hx hk
  refine ⟨first, hfirst, hkey, ?_⟩
  rw [← hanswer, answer_of_mem hfirst]
  have hnone : first.before.refundLog k = none := Option.map_eq_none_iff.mp hnone
  cases hc : first.call with
  | refundCharge txn amount key =>
      have hfirstKey := hkey
      rw [hc] at hfirstKey
      obtain rfl : key = k := Option.some.inj hfirstKey
      simp only [AuthorizeNetCall.run, GatewayAnswer.refundId]
      by_cases hlate : first.before.Refunded txn
      · have hrefunds : first.call.refunds = some txn := by rw [hc]; rfl
        rw [refundCharge_late hnone hlate]
        exact .inl ⟨txn, rfl, ⟨first, hfirst, hkey, hrefunds, hnone, hlate⟩, rfl⟩
      · have hnew := @refundCharge_new random _ _ _ amount hnone hlate
        rw [hnew.1, hnew.2.2]
        exact .inr ⟨Nat.lt_succ_self _, rfl⟩
  | _ =>
      rw [hc] at hkey
      cases hkey

/-- The answer to a key that was first used late. -/
theorem refundId_of_late (hlate : FirstUsedLate random calls k txn) (hx : x ∈ history random calls)
    (hk : x.call.key = some k) : x.answer.refundId = some ("an_refund_" ++ txn) := by
  obtain ⟨first, hfirst, hkey, hrefunds, hnone, hrefunded⟩ := hlate
  rw [(logged random).answers_agree hx hfirst hk hkey, answer_of_mem hfirst]
  cases hc : first.call with
  | refundCharge txn' amount key =>
      rw [hc] at hkey hrefunds
      obtain rfl : key = k := Option.some.inj hkey
      obtain rfl : txn' = txn := Option.some.inj hrefunds
      simp only [AuthorizeNetCall.run, GatewayAnswer.refundId, refundCharge_late hnone hrefunded]
  | _ =>
      rw [hc] at hkey
      cases hkey

/-- Two refunds have one identifier if and only if they have one key, or both
keys were first used on one charge that had been refunded before. -/
theorem refundId_eq_iff (hdistinct : Function.Injective random)
    (hfresh : ∀ n, ∀ c ∈ calls, c.refunds ≠ some (random n)) (hx : x ∈ history random calls)
    (hy : y ∈ history random calls) (hkx : x.call.key = some k) (hky : y.call.key = some k') :
    x.answer.refundId = y.answer.refundId ↔
      k = k' ∨ ∃ txn, FirstUsedLate random calls k txn ∧ FirstUsedLate random calls k' txn := by
  constructor
  · intro hsame
    obtain ⟨first, hfirst, hkey, hid⟩ := exists_firstUse hx hkx
    obtain ⟨first', hfirst', hkey', hid'⟩ := exists_firstUse hy hky
    rcases hid with ⟨txn, hrefunds, hlate, hid⟩ | ⟨hup, hid⟩
    · rcases hid' with ⟨txn', hrefunds', hlate', hid'⟩ | ⟨hup', hid'⟩
      · rw [hid, hid', Option.some.injEq, String.append_right_inj] at hsame
        subst hsame
        exact .inr ⟨txn, hlate, hlate'⟩
      · rw [hid, hid', Option.some.injEq, String.append_right_inj] at hsame
        exact (hfresh _ _ (call_mem hfirst) (hsame ▸ hrefunds)).elim
    · rcases hid' with ⟨txn', hrefunds', hlate', hid'⟩ | ⟨hup', hid'⟩
      · rw [hid, hid', Option.some.injEq, String.append_right_inj] at hsame
        exact (hfresh _ _ (call_mem hfirst') (hsame ▸ hrefunds')).elim
      · rw [hid, hid', Option.some.injEq, String.append_right_inj] at hsame
        have hone := eq_of_count_eq (drawn_le random) hfirst hfirst' hup hup' (hdistinct hsame)
        subst hone
        exact .inl (Option.some.inj (hkey.symm.trans hkey'))
  · rintro (rfl | ⟨txn, hlate, hlate'⟩)
    · rw [(logged random).answers_agree hx hy hkx hky]
    · rw [refundId_of_late hlate hx hkx, refundId_of_late hlate' hy hky]

/-- The call refunds the charge, which is registered. -/
def RefundsRegistered (txn : String) (x : Entry AuthorizeNetGateway AuthorizeNetCall GatewayAnswer) :
    Prop :=
  x.call.refunds = some txn ∧ (x.before.charges txn).isSome

/-- The refunds of a registered charge carry one identifier if and only if any
two of them have one key, or keys that were both first used on one charge that
had been refunded before. -/
theorem refundIds_agree (random : Nat → String) (calls : List AuthorizeNetCall) (txn : String)
    (hdistinct : Function.Injective random)
    (hfresh : ∀ n, ∀ c ∈ calls, c.refunds ≠ some (random n)) :
    (∀ x ∈ history random calls, ∀ y ∈ history random calls, RefundsRegistered txn x →
        RefundsRegistered txn y → x.answer.refundId = y.answer.refundId) ↔
      ∀ x ∈ history random calls, ∀ y ∈ history random calls, RefundsRegistered txn x →
        RefundsRegistered txn y → x.call.key = y.call.key ∨
          ∃ k k' late, x.call.key = some k ∧ y.call.key = some k' ∧
            FirstUsedLate random calls k late ∧ FirstUsedLate random calls k' late := by
  have hpair : ∀ x ∈ history random calls, ∀ y ∈ history random calls, RefundsRegistered txn x →
      RefundsRegistered txn y → (x.answer.refundId = y.answer.refundId ↔
        x.call.key = y.call.key ∨ ∃ k k' late, x.call.key = some k ∧ y.call.key = some k' ∧
            FirstUsedLate random calls k late ∧ FirstUsedLate random calls k' late) := by
    intro x hx y hy hrx hry
    obtain ⟨k, hkx⟩ := AuthorizeNetCall.exists_key hrx.1
    obtain ⟨k', hky⟩ := AuthorizeNetCall.exists_key hry.1
    rw [refundId_eq_iff hdistinct hfresh hx hy hkx hky, hkx, hky]
    simp only [Option.some.injEq, exists_and_left, exists_eq_left']
  constructor
  · intro h x hx y hy hrx hry
    exact (hpair x hx y hy hrx hry).mp (h x hx y hy hrx hry)
  · intro h x hx y hy hrx hry
    exact (hpair x hx y hy hrx hry).mpr (h x hx y hy hrx hry)

/-- Two refunds of a charge with two keys. -/
def twoKeys : List AuthorizeNetCall :=
  [.registerCharge "txn" "arb" (.fin 1500), .refundCharge "txn" (.fin 1500) "refund_1",
    .refundCharge "txn" (.fin 1500) "refund_2"]

theorem oneKey_agrees :
    (∀ n, ∀ c ∈ twoKeys.take 2, c.refunds ≠ some (drawnText n)) ∧
      ((∀ x ∈ history drawnText (twoKeys.take 2), ∀ y ∈ history drawnText (twoKeys.take 2),
          RefundsRegistered "txn" x → RefundsRegistered "txn" y →
            x.answer.refundId = y.answer.refundId) ↔
        ∀ x ∈ history drawnText (twoKeys.take 2), ∀ y ∈ history drawnText (twoKeys.take 2),
          RefundsRegistered "txn" x → RefundsRegistered "txn" y → x.call.key = y.call.key ∨
            ∃ k k' late, x.call.key = some k ∧ y.call.key = some k' ∧
              FirstUsedLate drawnText (twoKeys.take 2) k late ∧
                FirstUsedLate drawnText (twoKeys.take 2) k' late) := by
  have hfresh : ∀ n, ∀ c ∈ twoKeys.take 2, c.refunds ≠ some (drawnText n) := by
    intro n c hc
    simp only [twoKeys, List.take_succ_cons, List.take_zero, List.mem_cons, List.not_mem_nil,
      or_false] at hc
    obtain rfl | rfl := hc
    · exact nofun
    · exact ne_drawnText (c := 't') (by decide) (by decide) n
  exact ⟨hfresh, refundIds_agree drawnText (twoKeys.take 2) "txn" drawnText_injective hfresh⟩

/-- The second refund answers another identifier. -/
theorem twoKeys_disagree :
    ¬∀ x ∈ history drawnText twoKeys, ∀ y ∈ history drawnText twoKeys, RefundsRegistered "txn" x →
      RefundsRegistered "txn" y → x.answer.refundId = y.answer.refundId := by
  intro h
  have hsame := h _ (.tail _ (.head _)) _ (.tail _ (.tail _ (.head _))) ⟨rfl, rfl⟩ ⟨rfl, rfl⟩
  revert hsame
  decide +kernel

end History

end AuthorizeNetGateway

/-! ## The on-chain gateway -/

/-- The key of a refund. -/
def SolanaCall.key : SolanaCall → Option String
  | refundCharge _ _ idempotencyKey => some idempotencyKey
  | _ => none

namespace SolanaGateway

/-- The logged answers. -/
def log (g : SolanaGateway) (k : String) : Option GatewayAnswer := (g.refundLog k).map .refunded

/-- The calls of a run of a new gateway. -/
def history (random : Nat → String) (calls : List SolanaCall) :
    List (Entry SolanaGateway SolanaCall GatewayAnswer) :=
  trace (SolanaCall.run random) calls {}

variable {random : Nat → String} {g : SolanaGateway} {txn k : String} {amount : JsNum}

/-- A key that is logged. -/
theorem refundCharge_cached {result : RefundResult} (hlogged : g.refundLog k = some result) :
    g.refundCharge random txn amount k = (result, g) := by
  unfold refundCharge
  rw [hlogged]

/-- A key that is not logged: the refund is named by a random text. -/
theorem refundCharge_new (hnone : g.refundLog k = none) :
    (g.refundCharge random txn amount k).1 = ⟨"sol_refund_" ++ random g.drawn, .num amount⟩ ∧
      (g.refundCharge random txn amount k).2.refundLog =
        Function.update g.refundLog k (some (g.refundCharge random txn amount k).1) ∧
      (g.refundCharge random txn amount k).2.drawn = g.drawn + 1 := by
  unfold refundCharge
  rw [hnone]
  simp only [and_self]

/-- The on-chain gateway answers a key from its log. -/
theorem logged (random : Nat → String) : Logged (SolanaCall.run random) SolanaCall.key log where
  hit := by
    intro c g k r hk hr
    cases c with
    | refundCharge txn amount key =>
        obtain rfl : key = k := Option.some.inj hk
        obtain ⟨result, hresult, rfl⟩ := Option.map_eq_some_iff.mp hr
        simp only [SolanaCall.run, refundCharge_cached hresult, and_self]
    | _ => cases hk
  miss := by
    intro c g k hk hnone
    cases c with
    | refundCharge txn amount key =>
        obtain rfl : key = k := Option.some.inj hk
        have hnone : g.refundLog key = none := Option.map_eq_none_iff.mp hnone
        have hlog := (@refundCharge_new random g txn key amount hnone).2.1
        exact map_refunded_update hlog
    | _ => cases hk
  other := by
    intro c g hk
    cases c with
    | refundCharge txn amount key => cases hk
    | cancelSubscription id =>
        simp only [SolanaCall.run, cancelSubscription]
        split <;> rfl
    | _ => rfl

theorem drawn_le (random : Nat → String) (c : SolanaCall) (g : SolanaGateway) :
    g.drawn ≤ (c.run random g).2.drawn := by
  cases c with
  | createSubscription userId plan => exact Nat.le_add_right _ _
  | cancelSubscription id =>
      simp only [SolanaCall.run, cancelSubscription]
      split <;> exact Nat.le_refl _
  | registerCharge txn amount => exact Nat.le_refl _
  | refundCharge txn amount key =>
      simp only [SolanaCall.run]
      cases hr : g.refundLog key with
      | some result =>
          exact Nat.le_of_eq (by rw [refundCharge_cached hr])
      | none =>
          rw [(refundCharge_new hr).2.2]
          exact Nat.le_add_right _ _

section History

variable {calls : List SolanaCall} {k' : String}
  {x y : Entry SolanaGateway SolanaCall GatewayAnswer}

/-- A key has a first use, with a random text of its own, whose answer is that
of each use. -/
theorem exists_firstUse (hx : x ∈ history random calls) (hk : x.call.key = some k) :
    ∃ first ∈ history random calls, first.call.key = some k ∧
      first.before.drawn < (first.call.run random first.before).2.drawn ∧
      x.answer.refundId = some ("sol_refund_" ++ random first.before.drawn) := by
  obtain ⟨first, hfirst, hkey, hnone, hanswer⟩ := (logged random).exists_first rfl hx hk
  have hnone : first.before.refundLog k = none := Option.map_eq_none_iff.mp hnone
  refine ⟨first, hfirst, hkey, ?_⟩
  rw [← hanswer, answer_of_mem hfirst]
  cases hc : first.call with
  | refundCharge txn amount key =>
      rw [hc] at hkey
      obtain rfl : key = k := Option.some.inj hkey
      have hnew := @refundCharge_new random _ txn _ amount hnone
      simp only [SolanaCall.run, GatewayAnswer.refundId]
      rw [hnew.1, hnew.2.2]
      exact ⟨Nat.lt_succ_self _, rfl⟩
  | _ =>
      rw [hc] at hkey
      cases hkey

/-- Refunds with different keys have different identifiers. -/
theorem refundId_ne (hdistinct : Function.Injective random) (hx : x ∈ history random calls)
    (hy : y ∈ history random calls) (hkx : x.call.key = some k) (hky : y.call.key = some k')
    (hne : k ≠ k') : x.answer.refundId ≠ y.answer.refundId := by
  obtain ⟨first, hfirst, hkey, hup, hid⟩ := exists_firstUse hx hkx
  obtain ⟨first', hfirst', hkey', hup', hid'⟩ := exists_firstUse hy hky
  intro hsame
  rw [hid, hid', Option.some.injEq, String.append_right_inj] at hsame
  have hone := eq_of_count_eq (drawn_le random) hfirst hfirst' hup hup' (hdistinct hsame)
  subst hone
  exact hne (Option.some.inj (hkey.symm.trans hkey'))

end History

end SolanaGateway

/-! ## Both gateways -/

/-- Two keys are first used on a charge that was refunded before, and then on
charges that are not registered. -/
def reusedKeys : List AuthorizeNetCall :=
  [.registerCharge "txn" "arb" (.fin 1500), .refundCharge "txn" (.fin 1500) "refund_1",
    .refundCharge "txn" (.fin 1500) "refund_2", .refundCharge "txn" (.fin 1500) "refund_3",
    .refundCharge "other" (.fin 900) "refund_2", .refundCharge "another" (.fin 700) "refund_3"]

end PaymentBilling
