import PaymentBilling.Transact.Engine

/-!
# Relational.Store

A relational store, given by its schema.

A database is a list of rows for each table, in the order of their insertion.
A `Schema` says which columns identify a row, which are unique, which refer to
other rows, which can still change after the insertion, and which values fit
their columns.  Rows are written one at a time, and `violation` is the check
that the store makes before it accepts a write.

A statement over such a store is a *plan*: what it answers and the one row it
writes, computed from what its transaction sees.  `engine` runs plans, rejects
the ones whose write violates the schema, and locks the written row and the
unique values it takes.
-/

set_option linter.unusedSectionVars false

namespace Relational

/-- A schema over the tables `T`: row identifiers are in `I`, values of unique
columns in `K`.  A patch never changes a row's identifier, its unique columns
or what `fixed` keeps of it. -/
structure Schema (T I K : Type) (Row Patch : T → Type) where
  id : ∀ {t}, Row t → I
  keys : ∀ {t}, Row t → List K
  refs : ∀ {t}, Row t → List (T × I)
  fixed : ∀ {t}, Row t → Row t
  fits : ∀ {t}, Row t → Bool
  patch : ∀ {t}, Patch t → Row t → Row t
  id_patch : ∀ {t} (p : Patch t) (r : Row t), id (patch p r) = id r
  keys_patch : ∀ {t} (p : Patch t) (r : Row t), keys (patch p r) = keys r
  fixed_patch : ∀ {t} (p : Patch t) (r : Row t), fixed (patch p r) = fixed r

/-- The rows of every table. -/
abbrev Db (T : Type) (Row : T → Type) : Type := (t : T) → List (Row t)

/-- One write. -/
inductive Write (T I : Type) (Row Patch : T → Type)
  | insert (t : T) (row : Row t)
  | update (t : T) (id : I) (patch : Patch t)

/-- What can be locked: a row, or a value of a unique column. -/
inductive Lock (T I K : Type)
  | row (t : T) (id : I)
  | key (t : T) (k : K)
  deriving DecidableEq

/-- The table that is locked in. -/
def Lock.table {T I K : Type} : Lock T I K → T
  | row t _ => t
  | key t _ => t

/-- Why the store rejects a write. -/
inductive Violation
  | range
  | unique
  | foreign
  | missing
  deriving DecidableEq, Repr

variable {T I K : Type} {Row Patch : T → Type} [DecidableEq T] [DecidableEq I] [DecidableEq K]

namespace Write

/-- The table that is written. -/
def table : Write T I Row Patch → T
  | insert t _ => t
  | update t _ _ => t

end Write

namespace Schema

variable (Sc : Schema T I K Row Patch)

/-- The row of `t` with identifier `i`. -/
def find (t : T) (i : I) (db : Db T Row) : Option (Row t) := (db t).find? (Sc.id · = i)

/-- The row of `t` with the unique value `k`. -/
def findBy (t : T) (k : K) (db : Db T Row) : Option (Row t) := (db t).find? (k ∈ Sc.keys ·)

/-- All that rows refer to exists. -/
def resolves (refs : List (T × I)) (db : Db T Row) : Bool :=
  refs.all fun (t, i) => (Sc.find t i db).isSome

/-- Why `db` does not accept a write, if it does not. -/
def violation : Write T I Row Patch → Db T Row → Option Violation
  | .insert t row, db =>
    if !Sc.fits row then some .range
    else if (Sc.find t (Sc.id row) db).isSome || (Sc.keys row).any fun k => (Sc.findBy t k db).isSome
    then some .unique
    else if !Sc.resolves (Sc.refs row) db then some .foreign
    else none
  | .update t i p, db =>
    match Sc.find t i db with
    | none => some .missing
    | some row =>
      if !Sc.fits (Sc.patch p row) then some .range
      else if !Sc.resolves (Sc.refs (Sc.patch p row)) db then some .foreign
      else none

/-- A row after a patch of the row `i`. -/
def revise {t : T} (i : I) (p : Patch t) (row : Row t) : Row t :=
  if Sc.id row = i then Sc.patch p row else row

/-- Make a write. -/
def apply : Write T I Row Patch → Db T Row → Db T Row
  | .insert t row, db => Function.update db t (db t ++ [row])
  | .update t i p, db =>
    Function.update db t ((db t).map (Sc.revise i p))

/-- The locks of a write: its row and, for a new row, its unique values. -/
def locks : Write T I Row Patch → List (Lock T I K)
  | .insert t row => .row t (Sc.id row) :: (Sc.keys row).map (.key t)
  | .update t i _ => [.row t i]

theorem table_of_locks {w : Write T I Row Patch} {l : Lock T I K} (h : l ∈ Sc.locks w) :
    l.table = w.table := by
  cases w with
  | insert t row =>
      rcases List.mem_cons.mp h with rfl | h
      · rfl
      · obtain ⟨k, -, rfl⟩ := List.mem_map.mp h
        rfl
  | update t i p =>
      obtain rfl := List.mem_singleton.mp h
      rfl

/-- The schema's constraints hold. -/
structure Valid (db : Db T Row) : Prop where
  ids : ∀ t, ((db t).map Sc.id).Nodup
  keys : ∀ t, (db t).Pairwise fun row row' => ∀ k ∈ Sc.keys row, k ∉ Sc.keys row'
  refs : ∀ t, ∀ row ∈ db t, Sc.resolves (Sc.refs row) db = true
  fits : ∀ t, ∀ row ∈ db t, Sc.fits row = true

/-! ## Finding rows -/

section Find

variable {Sc} {t : T} {i : I} {k : K} {db : Db T Row} {row : Row t}

theorem mem_of_find (h : Sc.find t i db = some row) : row ∈ db t := List.mem_of_find?_eq_some h

theorem id_of_find (h : Sc.find t i db = some row) : Sc.id row = i := by
  simpa using List.find?_some h

theorem mem_of_findBy (h : Sc.findBy t k db = some row) : row ∈ db t :=
  List.mem_of_find?_eq_some h

theorem key_of_findBy (h : Sc.findBy t k db = some row) : k ∈ Sc.keys row := by
  simpa using List.find?_some h

theorem ne_of_find_none (h : Sc.find t i db = none) : ∀ row ∈ db t, Sc.id row ≠ i := by
  simpa [find, List.find?_eq_none] using h

theorem ne_of_findBy_none (h : Sc.findBy t k db = none) : ∀ row ∈ db t, k ∉ Sc.keys row := by
  simpa [findBy, List.find?_eq_none] using h

/-- In a valid database a row is the one found under its identifier. -/
theorem Valid.find_of_mem (hv : Sc.Valid db) (h : row ∈ db t) :
    Sc.find t (Sc.id row) db = some row := by
  have hn := hv.ids t
  rw [find]
  generalize db t = rows at h hn
  induction rows with
  | nil => cases h
  | cons r rows ih =>
      rw [List.map_cons, List.nodup_cons] at hn
      cases h with
      | head => simp
      | tail _ h =>
          have hne : Sc.id r ≠ Sc.id row := fun he => hn.1 (he ▸ List.mem_map_of_mem h)
          rw [List.find?_cons_of_neg (by simpa using hne)]
          exact ih h hn.2

/-- In a valid database a row is the one found under each of its unique values. -/
theorem Valid.findBy_of_mem (hv : Sc.Valid db) (h : row ∈ db t) (hk : k ∈ Sc.keys row) :
    Sc.findBy t k db = some row := by
  have hn := hv.keys t
  rw [findBy]
  generalize db t = rows at h hn
  induction rows with
  | nil => cases h
  | cons r rows ih =>
      rw [List.pairwise_cons] at hn
      cases h with
      | head => simp [hk]
      | tail _ h =>
          have hne : k ∉ Sc.keys r := fun hr => hn.1 row h k hr hk
          rw [List.find?_cons_of_neg (by simpa using hne)]
          exact ih h hn.2

theorem Valid.eq_of_key {row' : Row t} (hv : Sc.Valid db) (h : row ∈ db t) (h' : row' ∈ db t)
    (hk : k ∈ Sc.keys row) (hk' : k ∈ Sc.keys row') : row = row' :=
  Option.some.inj ((hv.findBy_of_mem h hk).symm.trans (hv.findBy_of_mem h' hk'))

/-- A unique column holds each of its values once. -/
theorem Valid.length_filter_le_one {q : Row t → Bool} (hv : Sc.Valid db)
    (hq : ∀ row, q row = true → k ∈ Sc.keys row) : ((db t).filter q).length ≤ 1 := by
  have hpair := (hv.keys t).filter q
  have hkeys : ∀ row ∈ (db t).filter q, k ∈ Sc.keys row :=
    fun row hrow => hq row (List.mem_filter.mp hrow).2
  generalize (db t).filter q = rows at hpair hkeys
  match rows with
  | [] => exact Nat.zero_le 1
  | [_] => exact Nat.le_refl 1
  | r :: r' :: _ =>
      exact ((List.pairwise_cons.mp hpair).1 r' (.head _) k (hkeys r (.head _))
        (hkeys r' (.tail _ (.head _)))).elim

theorem Valid.eq_of_id {row' : Row t} (hv : Sc.Valid db) (h : row ∈ db t) (h' : row' ∈ db t)
    (hid : Sc.id row = Sc.id row') : row = row' :=
  Option.some.inj ((hv.find_of_mem h).symm.trans (hid ▸ hv.find_of_mem h'))

end Find

/-! ## What a write does to what is found -/

section Apply

variable {Sc} {t t' : T} {i j : I} {k : K} {db : Db T Row} {row : Row t} {p : Patch t}

@[simp] theorem apply_insert_self : Sc.apply (.insert t row) db t = db t ++ [row] :=
  Function.update_self ..

@[simp] theorem apply_update_self :
    Sc.apply (.update t i p) db t = (db t).map (Sc.revise i p) :=
  Function.update_self ..

@[simp] theorem id_revise : Sc.id (Sc.revise i p row) = Sc.id row := by
  unfold revise
  split
  · exact Sc.id_patch p row
  · rfl

@[simp] theorem keys_revise : Sc.keys (Sc.revise i p row) = Sc.keys row := by
  unfold revise
  split
  · exact Sc.keys_patch p row
  · rfl

@[simp] theorem fixed_revise : Sc.fixed (Sc.revise i p row) = Sc.fixed row := by
  unfold revise
  split
  · exact Sc.fixed_patch p row
  · rfl

theorem revise_self : Sc.revise (Sc.id row) p row = Sc.patch p row := if_pos rfl

theorem revise_of_ne (h : Sc.id row ≠ i) : Sc.revise i p row = row := if_neg h

/-- A patch changes a total by what it changes of its row. -/
theorem sum_revise {rows : List (Row t)} (hn : (rows.map Sc.id).Nodup) (h : row ∈ rows)
    (f : Row t → Int) :
    ((rows.map (Sc.revise (Sc.id row) p)).map f).sum =
      (rows.map f).sum - f row + f (Sc.patch p row) := by
  induction rows with
  | nil => cases h
  | cons r rows ih =>
      rw [List.map_cons, List.nodup_cons] at hn
      simp only [List.map_cons, List.sum_cons]
      cases h with
      | head =>
          -- no other row has this identifier
          have hrest : rows.map (Sc.revise (Sc.id row) p) = rows := by
            have hsame : ∀ r ∈ rows, Sc.revise (Sc.id row) p r = r := fun r hr =>
              revise_of_ne fun he => hn.1 (he ▸ List.mem_map_of_mem hr)
            rw [List.map_congr_left hsame, List.map_id']
          rw [hrest, revise_self]
          omega
      | tail _ h =>
          rw [ih hn.2 h, revise_of_ne fun he => hn.1 (he ▸ List.mem_map_of_mem h)]
          omega

/-- A write changes only its own table. -/
theorem apply_of_ne {w : Write T I Row Patch} (h : t' ≠ w.table) : Sc.apply w db t' = db t' := by
  cases w <;> exact Function.update_of_ne h ..

/-- A table whose rows have no patches only ever gains what is inserted. -/
theorem mem_apply_of_noPatch {w : Write T I Row Patch} (hnone : Patch t → False)
    (h : row ∈ Sc.apply w db t) : row ∈ db t ∨ w = .insert t row := by
  cases w with
  | insert t' row' =>
      by_cases ht : t = t'
      · subst ht
        rw [apply_insert_self] at h
        cases List.mem_append.mp h with
        | inl h => exact .inl h
        | inr h => exact .inr (by rw [List.mem_singleton.mp h])
      · rw [apply_of_ne ht] at h
        exact .inl h
  | update t' i p =>
      by_cases ht : t = t'
      · subst ht
        exact (hnone p).elim
      · rw [apply_of_ne ht] at h
        exact .inl h

theorem find_apply_of_ne {w : Write T I Row Patch} (h : t' ≠ w.table) :
    Sc.find t' j (Sc.apply w db) = Sc.find t' j db := by
  rw [find, apply_of_ne h, find]

theorem findBy_apply_of_ne {w : Write T I Row Patch} (h : t' ≠ w.table) :
    Sc.findBy t' k (Sc.apply w db) = Sc.findBy t' k db := by
  rw [findBy, apply_of_ne h, findBy]

theorem find_insert :
    Sc.find t j (Sc.apply (.insert t row) db) =
      (Sc.find t j db).or (if Sc.id row = j then some row else none) := by
  rw [find, apply_insert_self, List.find?_append, find]
  by_cases h : Sc.id row = j <;> simp [h]

theorem findBy_insert :
    Sc.findBy t k (Sc.apply (.insert t row) db) =
      (Sc.findBy t k db).or (if k ∈ Sc.keys row then some row else none) := by
  rw [findBy, apply_insert_self, List.find?_append, findBy]
  by_cases h : k ∈ Sc.keys row <;> simp [h]

theorem find_update :
    Sc.find t j (Sc.apply (.update t i p) db) = (Sc.find t j db).map (Sc.revise i p) := by
  rw [find, apply_update_self, List.find?_map, find]
  congr 2
  funext row
  simp

theorem findBy_update :
    Sc.findBy t k (Sc.apply (.update t i p) db) = (Sc.findBy t k db).map (Sc.revise i p) := by
  rw [findBy, apply_update_self, List.find?_map, findBy]
  congr 2
  funext row
  simp

end Apply

end Schema

/-! ## The engine -/

/-- What a statement answers and writes. -/
structure Plan (T I : Type) (Row Patch : T → Type) (β : Type) where
  answer : β
  write : Option (Write T I Row Patch) := none

/-- The engine that runs plans.  `claims` are the locks a statement takes
besides those of its write, `reject` the errors for rejected writes. -/
def engine (Sc : Schema T I K Row Patch) {S : Type → Type} {ε η : Type}
    (plan : {β : Type} → S β → η → Db T Row → Except ε (Plan T I Row Patch β))
    (claims : {β : Type} → S β → Db T Row → List (Lock T I K))
    (reject : Write T I Row Patch → Violation → ε) (fault : String → ε) :
    Transact.Engine S (Db T Row) (Write T I Row Patch) (Lock T I K) ε η where
  exec s env db :=
    match plan s env db with
    | .error e => .error e
    | .ok p =>
      match p.write with
      | none => .ok (p.answer, [])
      | some w =>
        match Sc.violation w db with
        | some v => .error (reject w v)
        | none => .ok (p.answer, [w])
  claims := claims
  apply := Sc.apply
  locks := Sc.locks
  fault := fault

end Relational
