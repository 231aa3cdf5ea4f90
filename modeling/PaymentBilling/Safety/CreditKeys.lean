import PaymentBilling.Safety.CreditBalance

/-!
# Safety.CreditKeys

Any number of credit operations at once: how often an idempotency key is
logged.

A call looks its key up inside its transaction, but nothing locks a key that
is not there: two calls that both miss a key both log it.  As long as no two
open transactions have missed the same key, each key is logged at most once.
-/

namespace PaymentBilling

open Relational Transact

/-- No key is logged twice. -/
def KeysLoggedOnce (db : Data) : Prop :=
  ∀ key, ((db .creditTransactions).filter (·.idempotencyKey = some key)).length ≤ 1

/-- A client whose open transaction has looked `key` up and not found it. -/
def Missed (key : String) (c : LocalState) : Prop :=
  c.stack ≠ [] ∧ Event.stmt (.creditTransactionFindFirst key) (.ok none) ∈ c.trace

/-- After the step of client `i`, no other client has missed a key that `i`
has missed. -/
def NoSharedMiss {ι α : Type} (_ : Sys Stmt Data RowWrite RowLock Err α ι) (i : ι)
    (s' : Sys Stmt Data RowWrite RowLock Err α ι) : Prop :=
  ∀ j, j ≠ i → ∀ key, Missed key (s'.clients i).loc → ¬Missed key (s'.clients j).loc

theorem Missed.of_searching {key : String} {c c' : LocalState}
    (h : CreditsService.Searching key c c') : Missed key c' := by
  obtain ⟨⟨t, ht⟩, events, he⟩ := h
  exact ⟨by rw [ht]; exact List.cons_ne_nil _ _, by rw [he]; simp⟩

/-- A client logs only keys that it has missed, and relies on the others not to
log those. -/
def keyProtocol (I : Data → Prop) : Protocol locking I where
  env c db db' := ∀ key, Missed key c → CreditsService.Unlogged key db →
    CreditsService.Unlogged key db'
  guar c db db' := ∀ key, ¬Missed key c → CreditsService.Unlogged key db →
    CreditsService.Unlogged key db'
  env_refl _ _ _ _ h := h
  env_trans h h' key hk hu := h' key hk (h key hk hu)
  guar_refl _ _ _ _ h := h

/-- Clients that never miss the same key. -/
def keyContract (I : Data → Prop) (ι : Type) : Contract locking I ι where
  proto _ := keyProtocol I
  apart _ c _ c' := ∀ key, Missed key c → ¬Missed key c'
  apart_symm h key hk hk' := h key hk' hk
  compat _ hapart _ _ _ _ hguar key hk := hguar key fun hk' => hapart key hk' hk

section Calls

variable {I : Data → Prop} {Q : Post Stmt Data RowWrite RowLock Err CreditsResult}
  {c : LocalState} {db : Data}

/-- What a call has missed stays unlogged. -/
theorem unlogged_of_sees {key : String} {c' : LocalState} {db₁ db₂ : Data}
    (hc : CreditsService.Searching key c c') (hs : (keyProtocol I).Sees c' db₁ db₂)
    (hu : CreditsService.Unlogged key db₁) : CreditsService.Unlogged key db₂ :=
  hs.env key (.of_searching hc) hu

/-- The commit of a change logs only what its call has missed. -/
theorem keeps_change {c' : LocalState} {t : Tx RowWrite RowLock} {user : String} {n : Int}
    {key : Option String} (hc : c'.stack = t :: c.stack) (hs : (keyProtocol I).Sees c' db db)
    (hk : ∀ k, key = some k → CreditsService.Searching k c c')
    (hchange : CreditChange user n key t.writes db) (hI : I (postgres.view t db)) :
    (keyProtocol I).Keeps c' db (postgres.view t db) := by
  refine ⟨hI, fun k hmiss hu => hchange.unlogged (hs.fits hc) (fun he => hmiss ?_) hu⟩
  exact .of_searching (hk k he)

/-- A grant whose change keeps the invariant has logged its key when it
returns. -/
theorem wp_grantCredits_keys {userId amount : Js} {type : CreditTransactionType}
    {description key : String} {metadata : Metadata}
    (hI : ∀ db ws user n, locking.valid db → I db → locking.fitsAll ws db →
      CreditsService.Unlogged key db → userId = .str user → amount = .int n →
      CreditChange user n (some key) ws db → I (postgres.applyAll ws db)) :
    (keyProtocol I).wp
      (CreditsService.grantCredits userId amount type description key metadata)
      (fun r _ db => ∀ a, r = .ok a → CreditsService.Logged key db) c db := by
  refine CreditsService.wp_grantCredits _ (K := fun _ => True)
    (N := CreditsService.Unlogged key) (fun _ _ _ _ _ _ => trivial) trivial (fun _ _ h => h)
    (fun _ _ _ => unlogged_of_sees) (fun _ _ _ _ _ _ => nofun) (fun _ _ _ _ _ h _ _ => h) ?_
  intro r t c' db₁ user n huser hamount _ hstack hc hs _ hu hchange
  have hkept := hI db₁ t.writes user n hs.valid hs.inv (hs.fits hstack) hu huser hamount hchange
  refine ⟨keeps_change hstack hs (fun k hk => ?_) hchange hkept, fun _ _ => ?_⟩
  · obtain rfl := Option.some.inj hk
    exact hc
  · exact hchange.logged_self (hs.fits hstack)

/-- A deduction whose change keeps the invariant. -/
theorem wp_deductCredits_keys {userId amount : Js} {description : String} {key : Option String}
    {metadata : Metadata}
    (hI : ∀ db ws user n, locking.valid db → I db → locking.fitsAll ws db →
      (∀ k, CreditsService.givenKey key = some k → CreditsService.Unlogged k db) →
      userId = .str user → amount = .int n →
      CreditChange user (-n) (CreditsService.givenKey key) ws db → I (postgres.applyAll ws db)) :
    (keyProtocol I).wp (CreditsService.deductCredits userId amount description key metadata)
      (fun _ _ _ => True) c db := by
  refine CreditsService.wp_deductCredits _ (K := fun _ => True)
    (N := fun db => ∀ k, CreditsService.givenKey key = some k → CreditsService.Unlogged k db)
    (fun _ _ _ _ _ _ => trivial) trivial (fun k hk _ _ hu k' hk' => ?_)
    (fun k hk _ _ _ hc hs hu k' hk' => ?_) (fun _ _ _ _ _ _ => trivial)
    (fun _ _ _ _ _ _ _ _ => trivial) ?_
  · obtain rfl := Option.some.inj (hk.symm.trans hk')
    exact hu
  · obtain rfl := Option.some.inj (hk.symm.trans hk')
    exact unlogged_of_sees hc hs (hu k hk)
  · intro r t c' db₁ user n huser hamount _ hstack hk hs _ hchange
    have hkept := hI db₁ t.writes user n hs.valid hs.inv (hs.fits hstack)
      (fun k he => (hk k he).2 k he) huser hamount hchange
    exact ⟨keeps_change hstack hs (fun k he => (hk k he).1) hchange hkept, trivial⟩

end Calls

/-- The step: the change of a key that is not logged logs it once. -/
theorem KeysLoggedOnce.commit {db : Data} {ws : List RowWrite} {user : String} {n : Int}
    {key : Option String} (h : KeysLoggedOnce db) (hfits : locking.fitsAll ws db)
    (hchange : CreditChange user n key ws db)
    (hkey : ∀ k, key = some k → CreditsService.Unlogged k db) :
    KeysLoggedOnce (postgres.applyAll ws db) := fun k => hchange.loggedOnce hfits hkey (h k)

/-- Every call logs only what it has missed. -/
theorem wp_creditCall_keys (call : CreditCall) (c : LocalState) (db : Data) :
    (keyProtocol KeysLoggedOnce).wp call.run (fun _ _ _ => True) c db := by
  have hgrant : ∀ (userId amount : Js) (type : CreditTransactionType) (description key : String)
      (metadata : Metadata), (keyProtocol KeysLoggedOnce).wp
        (CreditsService.grantCredits userId amount type description key metadata)
        (fun _ _ _ => True) c db := by
    intro userId amount type description key metadata
    refine Protocol.wp_mono _ (fun _ _ _ _ => trivial) (wp_grantCredits_keys ?_)
    intro db ws user n _ honce hfits hu _ _ hchange
    refine honce.commit hfits hchange fun k hk => ?_
    obtain rfl := Option.some.inj hk
    exact hu
  cases call with
  | add userId amount type description key metadata => exact hgrant ..
  | refund userId amount description key metadata => exact hgrant ..
  | deduct userId amount description key metadata =>
      refine wp_deductCredits_keys ?_
      intro db ws user n _ honce hfits hu _ _ hchange
      exact honce.commit hfits hchange hu

/-- In every run in which no two open transactions have missed the same key,
each key is logged at most once in every committed state. -/
theorem creditKeys_loggedOnce {ι : Type} [DecidableEq ι] (db : Database) (calls : ι → CreditCall)
    (honce : KeysLoggedOnce db.rows) (s : Sys Stmt Data RowWrite RowLock Err CreditsResult ι)
    (h : Runs postgres NoSharedMiss (creditSystem db calls) s) : KeysLoggedOnce s.db := by
  have hsafe : (keyContract KeysLoggedOnce ι).Safe (fun _ _ _ _ => True) (creditSystem db calls) :=
    .start db.valid honce (fun _ _ _ _ hmiss => (hmiss.1 rfl).elim)
      fun i => wp_creditCall_keys (calls i) _ _
  have hclean : Runs postgres (keyContract KeysLoggedOnce ι).Clean (creditSystem db calls) s :=
    h.mono fun _ _ _ hmiss _ j hj _ key => hmiss j hj key
  exact (hsafe.runs (T := fun _ _ => True) (fun _ _ _ _ _ _ _ _ h => h) (fun _ => trivial)
    (fun _ _ => trivial) (fun _ _ _ _ => trivial) hclean).1.inv

/-! ## Two deliveries of one grant -/

/-- Two deliveries of one grant. -/
def grantTwice (_ : Fin 2) : CreditCall :=
  .add (.str "user") (.int 100) .PURCHASE "Credit purchase" "charge_1" []

/-- One delivery after the other: the second finds the key. -/
def grantInTurn : List (Fin 2 × Choice Env) :=
  [(0, .go (.ordinary "a")), (0, .go (.ordinary "a")), (0, .go (.ordinary "c1")),
    (0, .go (.ordinary "t1")), (0, .go (.ordinary "a")), (1, .go (.ordinary "b")),
    (1, .go (.ordinary "b")), (1, .go (.ordinary "b")), (1, .go (.ordinary "b"))]

/-- Both deliveries look the key up before either commits. -/
def missTwice : List (Fin 2 × Choice Env) :=
  [(0, .go (.ordinary "a")), (0, .go (.ordinary "a")), (1, .go (.ordinary "b")),
    (1, .go (.ordinary "b")), (0, .go (.ordinary "c1")), (0, .go (.ordinary "t1")),
    (0, .go (.ordinary "x")), (1, .go (.ordinary "c2")), (1, .go (.ordinary "t2")),
    (1, .go (.ordinary "x"))]

/-- Whether a key is logged `n` times. -/
def loggedTimes (n : Nat) (key : String) (db : Data) : Bool :=
  ((db .creditTransactions).filter (·.idempotencyKey = some key)).length = n

theorem noSharedMiss_of_alone {n : Nat} {α : Type} (s : Sys Stmt Data RowWrite RowLock Err α (Fin n))
    (i : Fin n) (s' : Sys Stmt Data RowWrite RowLock Err α (Fin n)) (h : alone i s' = true) :
    NoSharedMiss s i s' :=
  fun _ hj _ _ hmiss => hmiss.1 (of_alone h hj).1

/-- Deliveries that follow each other log the key once. -/
theorem grantInTurn_loggedOnce :
    ∃ s, Runs postgres NoSharedMiss (creditSystem oneUser grantTwice) s ∧
      loggedTimes 1 "charge_1" s.db = true ∧ KeysLoggedOnce s.db := by
  have hplay : (replay postgres alone grantInTurn (creditSystem oneUser grantTwice)).any
      (fun s => loggedTimes 1 "charge_1" s.db) = true := by decide +kernel
  obtain ⟨s, hs, hlogged⟩ := exists_run_of_replay noSharedMiss_of_alone hplay
  exact ⟨s, hs, hlogged, creditKeys_loggedOnce oneUser grantTwice (fun _ => Nat.zero_le 1) s hs⟩

/-- Some interleaving of two equal grants logs their key twice. -/
theorem grantTwice_loggedTwice :
    ∃ s, Runs postgres AnyStep (creditSystem oneUser grantTwice) s ∧
      KeysLoggedOnce oneUser.rows ∧ ¬KeysLoggedOnce s.db := by
  have hplay : (replay postgres anyTime missTwice (creditSystem oneUser grantTwice)).any
      (fun s => loggedTimes 2 "charge_1" s.db) = true := by decide +kernel
  obtain ⟨s, hs, htwice⟩ := exists_run hplay
  refine ⟨s, hs, fun _ => Nat.zero_le 1, fun honce => ?_⟩
  have hone := honce "charge_1"
  have htwo := of_decide_eq_true htwice
  omega

end PaymentBilling
