import PaymentBilling.Spec.CreditBooks
import PaymentBilling.Transact.Replay

/-!
# Safety.CreditBalance

Any number of credit operations at once: no balance becomes negative, and every
balance is what the log says.

A deduction compares the balance under a row lock and keeps the lock until it
commits, so its commit finds the balance it has compared.  A grant takes no
lock first, but it only ever adds, to a balance that exists or to one that it
creates under a unique column.
-/

namespace PaymentBilling

open Relational Transact

/-- A call of the credits service. -/
inductive CreditCall
  | add (userId amount : Js) (type : CreditTransactionType) (description idempotencyKey : String)
      (metadata : Metadata)
  | deduct (userId amount : Js) (description : String) (idempotencyKey : Option String)
      (metadata : Metadata)
  | refund (userId amount : Js) (description idempotencyKey : String) (metadata : Metadata)

/-- The program of a call. -/
def CreditCall.run : CreditCall → Action CreditsResult
  | add userId amount type description key metadata =>
    CreditsService.addCredits userId amount type description key metadata
  | deduct userId amount description key metadata =>
    CreditsService.deductCredits userId amount description key metadata
  | refund userId amount description key metadata =>
    CreditsService.refundCredits userId amount description key metadata

/-- The calls `calls`, about to run on the database `db`. -/
def creditSystem {ι : Type} (db : Database) (calls : ι → CreditCall) :
    Sys Stmt Data RowWrite RowLock Err CreditsResult ι :=
  Sys.start db.rows fun i => (calls i).run

/-- The balance that the logged changes of a user started from. -/
def initialBalance (user : String) (db : Data) : Int := balanceOf user db - loggedTotal user db

/-- No balance is negative, and each is its initial one plus what is logged. -/
structure BalancesKept (initial : String → Int) (db : Data) : Prop where
  nonneg : ∀ row ∈ db .credits, 0 ≤ row.balance
  logged : ∀ user, initialBalance user db = initial user

variable {initial : String → Int} {db : Data} {user : String} {n : Int} {key : Option String}
  {ws : List RowWrite}

/-- The step: the commit of a change keeps the balances. -/
theorem BalancesKept.commit (h : BalancesKept initial db) (hv : schema.Valid db)
    (hfits : locking.fitsAll ws db) (hchange : CreditChange user n key ws db) :
    BalancesKept initial (postgres.applyAll ws db) := by
  obtain ⟨log, hlog, howner, hamount, -⟩ := hchange.logged hfits
  have hbal := hchange.balanceOf hv hfits
  refine ⟨hchange.nonneg hv h.nonneg, fun user' => ?_⟩
  have htotal := loggedTotal_append hv (locking.le_applyAll ws db) hlog user'
  rw [howner, hamount] at htotal
  have hold := h.logged user'
  unfold initialBalance at hold ⊢
  rw [hbal, htotal]
  by_cases hu : user' = user
  · subst hu
    simp only [if_true]
    omega
  · have hu' : ¬some user = some user' := fun he => hu (Option.some.inj he).symm
    rw [if_neg hu, if_neg hu']
    omega

/-- Every call keeps the balances at each of its steps. -/
theorem wp_creditCall (call : CreditCall) (db : Data) :
    (Protocol.sharing locking (BalancesKept initial)).wp call.run (fun _ _ _ => True) {} db := by
  -- the commit of a call is the only step that matters
  have hcommit : ∀ {t : Tx RowWrite RowLock} {c c' : LocalState} {db₁ : Data} {user : String}
      {n : Int} {key : Option String}, c'.stack = t :: c.stack →
      (Protocol.sharing locking (BalancesKept initial)).Sees c' db₁ db₁ →
      CreditChange user n key t.writes db₁ →
      (Protocol.sharing locking (BalancesKept initial)).Keeps c' db₁ (postgres.view t db₁) := by
    intro t c c' db₁ user n key hc hs hchange
    exact ⟨hs.inv.commit hs.valid (hs.fits hc) hchange, trivial⟩
  cases call with
  | add userId amount type description key metadata =>
      refine CreditsService.wp_grantCredits _ (K := fun _ => True) (N := fun _ => True)
        (fun _ _ _ _ _ _ => trivial) trivial (fun _ _ _ => trivial) (fun _ _ _ _ _ _ => trivial)
        (fun _ _ _ _ _ _ => trivial) (fun _ _ _ _ _ _ => trivial) ?_
      intro r t c' db₁ user n _ _ _ hc _ hs _ _ hchange
      exact ⟨hcommit hc hs hchange, trivial⟩
  | deduct userId amount description key metadata =>
      refine CreditsService.wp_deductCredits _ (K := fun _ => True) (N := fun _ => True)
        (fun _ _ _ _ _ _ => trivial) trivial (fun _ _ _ _ _ => trivial)
        (fun _ _ _ _ _ _ _ _ => trivial) (fun _ _ _ _ _ _ => trivial)
        (fun _ _ _ _ _ _ _ _ => trivial) ?_
      intro r t c' db₁ user n _ _ _ hc _ hs _ hchange
      exact ⟨hcommit hc hs hchange, trivial⟩
  | refund userId amount description key metadata =>
      refine CreditsService.wp_grantCredits _ (K := fun _ => True) (N := fun _ => True)
        (fun _ _ _ _ _ _ => trivial) trivial (fun _ _ _ => trivial) (fun _ _ _ _ _ _ => trivial)
        (fun _ _ _ _ _ _ => trivial) (fun _ _ _ _ _ _ => trivial) ?_
      intro r t c' db₁ user n _ _ _ hc _ hs _ _ hchange
      exact ⟨hcommit hc hs hchange, trivial⟩

/-- In every state that any interleaving of credit operations commits, no
user's balance is negative, and it is the initial one plus the sum of the
user's logged changes. -/
theorem creditBalances_safe {ι : Type} [DecidableEq ι] (db : Database) (calls : ι → CreditCall)
    (hpos : ∀ row ∈ db.rows .credits, 0 ≤ row.balance)
    (s : Sys Stmt Data RowWrite RowLock Err CreditsResult ι)
    (h : Runs postgres AnyStep (creditSystem db calls) s) (user : String) :
    0 ≤ balanceOf user s.db ∧
      balanceOf user s.db = initialBalance user db.rows + loggedTotal user s.db := by
  have hstart : BalancesKept (initialBalance · db.rows) db.rows := ⟨hpos, fun _ => rfl⟩
  obtain ⟨-, hkept, -⟩ := inv_of_runs db.valid hstart (fun i => wp_creditCall (calls i) _) h
  refine ⟨?_, ?_⟩
  · cases hf : schema.findBy .credits (.userId user) s.db with
    | none => simp [balanceOf, hf, CreditsService.balanceOrZero]
    | some row =>
        have hrow := hkept.nonneg row (Schema.mem_of_findBy hf)
        simpa [balanceOf, hf, CreditsService.balanceOrZero] using hrow
  · have hlog := hkept.logged user
    simp only [initialBalance] at hlog ⊢
    omega

/-! ## A grant and a deduction at once -/

/-- A database with one user. -/
def oneUser : Database :=
  .ofWrites [.insert .users ⟨"user"⟩, .insert .users ⟨"test-admin-1"⟩] (by decide)

/-- One call grants 100 credits, another takes 60. -/
def grantAndDeduct (i : Fin 2) : CreditCall :=
  if i = 0 then .add (.str "user") (.int 100) .PURCHASE "Credit purchase" "charge_1" []
  else .deduct (.str "user") (.int 60) "Usage" none []

/-- The deduction begins before the grant commits, and then finds the balance. -/
def deductDuringGrant : List (Fin 2 × Choice Env) :=
  [(0, .go (.ordinary "a")), (0, .go (.ordinary "a")), (0, .go (.ordinary "c1")),
    (1, .go (.ordinary "b")), (0, .go (.ordinary "t1")), (0, .go (.ordinary "a")),
    (1, .go (.ordinary "b")), (1, .go (.ordinary "b")), (1, .go (.ordinary "t2")),
    (1, .go (.ordinary "b"))]

/-- Whether a user has the balance `n`. -/
def hasBalance (user : String) (n : Int) (db : Data) : Bool := balanceOf user db = n

/-- Both changes are in the balance. -/
theorem deductDuringGrant_safe :
    ∃ s, Runs postgres AnyStep (creditSystem oneUser grantAndDeduct) s ∧
      balanceOf "user" s.db = 40 ∧ 0 ≤ balanceOf "user" s.db ∧
      balanceOf "user" s.db = initialBalance "user" oneUser.rows + loggedTotal "user" s.db := by
  have hplay : (replay postgres anyTime deductDuringGrant
      (creditSystem oneUser grantAndDeduct)).any (fun s => hasBalance "user" 40 s.db) = true := by
    decide +kernel
  obtain ⟨s, hs, hbal⟩ := exists_run hplay
  have hpos : ∀ row ∈ oneUser.rows .credits, 0 ≤ row.balance := by
    intro row hrow
    cases hrow
  exact ⟨s, hs, of_decide_eq_true hbal,
    creditBalances_safe oneUser grantAndDeduct hpos s hs "user"⟩

end PaymentBilling
