import PaymentBilling.Relational.Store

/-!
# Relational.Laws

The engine of a schema keeps the discipline of its locks: a write changes only
the row and the unique values it locks, rows never disappear and keep their
fixed columns, and a write that was accepted stays acceptable while its locks
are held — the rows it refers to cannot go away.
-/

set_option linter.unusedSectionVars false

namespace Relational

variable {T I K : Type} {Row Patch : T → Type} [DecidableEq T] [DecidableEq I] [DecidableEq K]

namespace Schema

variable (Sc : Schema T I K Row Patch)

/-- Agreement on what a lock protects: the row, or who has the unique value. -/
def same : Lock T I K → Db T Row → Db T Row → Prop
  | .row t i, db, db' => Sc.find t i db = Sc.find t i db'
  | .key t k, db, db' => (Sc.findBy t k db).map Sc.id = (Sc.findBy t k db').map Sc.id

/-- Every row is still there, with its fixed columns. -/
def le (db db' : Db T Row) : Prop :=
  ∀ t i row, Sc.find t i db = some row →
    ∃ row', Sc.find t i db' = some row' ∧ Sc.fixed row' = Sc.fixed row

/-- The database accepts a write. -/
def accepts (w : Write T I Row Patch) (db : Db T Row) : Prop := Sc.violation w db = none

variable {Sc} {t : T} {i : I} {row : Row t} {p : Patch t} {db db' db₁ db₂ : Db T Row}
  {w : Write T I Row Patch}

theorem accepts_insert : Sc.accepts (.insert t row) db ↔
    Sc.fits row = true ∧ Sc.find t (Sc.id row) db = none ∧
      (∀ k ∈ Sc.keys row, Sc.findBy t k db = none) ∧ Sc.resolves (Sc.refs row) db = true := by
  simp only [accepts, violation, Option.isSome_iff_ne_none, Bool.or_eq_true, List.any_eq_true,
    Bool.not_eq_true']
  grind

theorem accepts_update : Sc.accepts (.update t i p) db ↔
    ∃ row, Sc.find t i db = some row ∧ Sc.fits (Sc.patch p row) = true ∧
      Sc.resolves (Sc.refs (Sc.patch p row)) db = true := by
  simp only [accepts, violation]
  cases Sc.find t i db with
  | none => simp
  | some row => grind

/-- A row that is rejected as a duplicate has its identifier or a unique value in
common with one that is there. -/
theorem taken_of_violation (h : Sc.violation (.insert t row) db = some .unique) :
    (∃ r, Sc.find t (Sc.id row) db = some r) ∨ ∃ k ∈ Sc.keys row, ∃ r, Sc.findBy t k db = some r := by
  simp only [violation] at h
  split at h
  · cases h
  · split at h
    · next htaken =>
      simpa only [Bool.or_eq_true, List.any_eq_true, Option.isSome_iff_exists] using htaken
    · split at h <;> cases h

theorem le_refl (db : Db T Row) : Sc.le db db := fun _ _ row h => ⟨row, h, rfl⟩

theorem le_trans {db₃ : Db T Row} (h : Sc.le db₁ db₂) (h' : Sc.le db₂ db₃) : Sc.le db₁ db₃ := by
  intro t i row hrow
  obtain ⟨row₂, h₂, hf₂⟩ := h t i row hrow
  obtain ⟨row₃, h₃, hf₃⟩ := h' t i row₂ h₂
  exact ⟨row₃, h₃, hf₃.trans hf₂⟩

/-- What is referred to stays there. -/
theorem resolves_mono {refs : List (T × I)} (hle : Sc.le db db')
    (h : Sc.resolves refs db = true) : Sc.resolves refs db' = true := by
  simp only [resolves, List.all_eq_true, Option.isSome_iff_exists] at h ⊢
  intro r hr
  obtain ⟨row, hrow⟩ := h r hr
  obtain ⟨row', hrow', -⟩ := hle _ _ row hrow
  exact ⟨row', hrow'⟩

theorem le_apply (w : Write T I Row Patch) (db : Db T Row) : Sc.le db (Sc.apply w db) := by
  intro t i row hrow
  by_cases ht : t = w.table
  · subst ht
    cases w with
    | insert t new =>
        simp only [Write.table] at row hrow ⊢
        exact ⟨row, by rw [find_insert, hrow, Option.some_or], rfl⟩
    | update t j p =>
        simp only [Write.table] at row hrow ⊢
        exact ⟨Sc.revise j p row, by rw [find_update, hrow, Option.map_some], fixed_revise⟩
  · exact ⟨row, by rw [find_apply_of_ne ht, hrow], rfl⟩

theorem same_apply {l : Lock T I K} (db : Db T Row) (h : l ∉ Sc.locks w) :
    Sc.same l db (Sc.apply w db) := by
  cases l with
  | row t i =>
      by_cases ht : t = w.table
      · subst ht
        cases w with
        | insert t new =>
            have hne : Sc.id new ≠ i := fun he => h (by simp [locks, Write.table, he])
            simp only [same, Write.table, find_insert, if_neg hne, Option.or_none]
        | update t j p =>
            have hne : i ≠ j := fun he => h (by simp [locks, Write.table, he])
            simp only [same, Write.table, find_update]
            cases hf : Sc.find t i db with
            | none => rfl
            | some row =>
                rw [Option.map_some, revise_of_ne fun he => hne ((id_of_find hf).symm.trans he)]
      · simp only [same, find_apply_of_ne ht]
  | key t k =>
      by_cases ht : t = w.table
      · subst ht
        cases w with
        | insert t new =>
            have hk : k ∉ Sc.keys new := fun hk => h (by simp [locks, Write.table, hk])
            simp only [same, Write.table, findBy_insert, if_neg hk, Option.or_none]
        | update t j p =>
            simp only [same, Write.table, findBy_update, Option.map_map, Function.comp_def,
              id_revise]
      · simp only [same, findBy_apply_of_ne ht]

theorem apply_same {l : Lock T I K} (w : Write T I Row Patch) (h : Sc.same l db₁ db₂) :
    Sc.same l (Sc.apply w db₁) (Sc.apply w db₂) := by
  cases l with
  | row t i =>
      by_cases ht : t = w.table
      · subst ht
        cases w <;> simp only [same, Write.table, find_insert, find_update] at h ⊢ <;> rw [h]
      · simpa only [same, find_apply_of_ne ht] using h
  | key t k =>
      by_cases ht : t = w.table
      · subst ht
        cases w with
        | insert t new =>
            simp only [same, Write.table, findBy_insert] at h ⊢
            cases h₁ : Sc.findBy t k db₁ <;> cases h₂ : Sc.findBy t k db₂ <;> simp_all
        | update t j p =>
            simpa only [same, Write.table, findBy_update, Option.map_map, Function.comp_def,
              id_revise] using h
      · simpa only [same, findBy_apply_of_ne ht] using h

theorem apply_le (h₁ : Sc.accepts w db₁) (h₂ : Sc.accepts w db₂) (h : Sc.le db₁ db₂) :
    Sc.le (Sc.apply w db₁) (Sc.apply w db₂) := by
  intro t i row hrow
  by_cases ht : t = w.table
  · subst ht
    cases w with
    | insert t new =>
        simp only [Write.table] at row hrow ⊢
        have hnew := (accepts_insert.mp h₂).2.1
        rw [find_insert] at hrow
        cases hf : Sc.find t i db₁ with
        | some old =>
            obtain ⟨old', hf', hfix⟩ := h t i old hf
            rw [hf, Option.some_or, Option.some.injEq] at hrow
            exact ⟨old', by rw [find_insert, hf', Option.some_or], hrow ▸ hfix⟩
        | none =>
            rw [hf, Option.none_or] at hrow
            split at hrow
            · next hid =>
              subst hid
              exact ⟨new, by rw [find_insert, hnew]; simp, by cases hrow; rfl⟩
            · cases hrow
    | update t j p =>
        simp only [Write.table] at row hrow ⊢
        rw [find_update, Option.map_eq_some_iff] at hrow
        obtain ⟨old, hf, rfl⟩ := hrow
        obtain ⟨old', hf', hfix⟩ := h t i old hf
        exact ⟨Sc.revise j p old', by rw [find_update, hf']; rfl, by simpa using hfix⟩
  · rw [find_apply_of_ne ht] at hrow
    obtain ⟨row', hrow', hfix⟩ := h t i row hrow
    exact ⟨row', by rw [find_apply_of_ne ht, hrow'], hfix⟩

/-- A write stays acceptable while its locks are held. -/
theorem accepts_of_same (hsame : ∀ l ∈ Sc.locks w, Sc.same l db₁ db₂) (hle : Sc.le db₁ db₂)
    (h : Sc.accepts w db₁) : Sc.accepts w db₂ := by
  cases w with
  | insert t row =>
      rw [accepts_insert] at h ⊢
      obtain ⟨hfits, hid, hkeys, hrefs⟩ := h
      refine ⟨hfits, ?_, fun k hk => ?_, resolves_mono hle hrefs⟩
      · rw [← hid]
        exact (hsame (.row t (Sc.id row)) (by simp [locks])).symm
      · have hs := hsame (.key t k) (by simp [locks, hk])
        simpa only [same, hkeys k hk, Option.map_none, eq_comm (a := none),
          Option.map_eq_none_iff] using hs
  | update t i p =>
      rw [accepts_update] at h ⊢
      obtain ⟨row, hf, hfits, hrefs⟩ := h
      have hs : Sc.find t i db₁ = Sc.find t i db₂ := hsame (.row t i) (by simp [locks])
      exact ⟨row, hs ▸ hf, hfits, resolves_mono hle hrefs⟩

theorem Valid.apply (h : Sc.accepts w db) (hv : Sc.Valid db) : Sc.Valid (Sc.apply w db) := by
  have hle : Sc.le db (Sc.apply w db) := le_apply w db
  have hold : ∀ t, ∀ row ∈ db t, Sc.resolves (Sc.refs row) (Sc.apply w db) = true :=
    fun t row hrow => resolves_mono hle (hv.refs t row hrow)
  cases w with
  | insert t new =>
      obtain ⟨hfits, hid, hkeys, hrefs⟩ := accepts_insert.mp h
      refine ⟨fun t' => ?_, fun t' => ?_, fun t' row hrow => ?_, fun t' row hrow => ?_⟩ <;>
        by_cases ht : t' = t
      · subst ht
        rw [apply_insert_self, List.map_append, List.nodup_append]
        refine ⟨hv.ids t', by simp, fun i hi j hj => ?_⟩
        obtain ⟨row, hrow, rfl⟩ := List.mem_map.mp hi
        obtain rfl : j = Sc.id new := by simpa using hj
        exact ne_of_find_none hid row hrow
      · rw [apply_of_ne ht]; exact hv.ids t'
      · subst ht
        rw [apply_insert_self, List.pairwise_append]
        refine ⟨hv.keys t', by simp, fun row hrow row' hrow' k hk hk' => ?_⟩
        obtain rfl := List.mem_singleton.mp hrow'
        exact ne_of_findBy_none (hkeys k hk') row hrow hk
      · rw [apply_of_ne ht]; exact hv.keys t'
      · subst ht
        rw [apply_insert_self, List.mem_append, List.mem_singleton] at hrow
        rcases hrow with hrow | rfl
        · exact hold t' row hrow
        · exact resolves_mono hle hrefs
      · rw [apply_of_ne ht] at hrow
        exact hold t' row hrow
      · subst ht
        rw [apply_insert_self, List.mem_append, List.mem_singleton] at hrow
        rcases hrow with hrow | rfl
        · exact hv.fits t' row hrow
        · exact hfits
      · rw [apply_of_ne ht] at hrow
        exact hv.fits t' row hrow
  | update t i p =>
      obtain ⟨old, hf, hfits, hrefs⟩ := accepts_update.mp h
      -- a row of the written table is an untouched one or the patched one
      have hrows : ∀ row ∈ Sc.apply (.update t i p) db t, row ∈ db t ∨ row = Sc.patch p old := by
        intro row hrow
        rw [apply_update_self, List.mem_map] at hrow
        obtain ⟨row, hrow, rfl⟩ := hrow
        by_cases hid : Sc.id row = i
        · have he : row = old := hv.eq_of_id hrow (mem_of_find hf) (hid.trans (id_of_find hf).symm)
          exact .inr (by rw [← he, ← hid, revise_self])
        · exact .inl (by rwa [revise_of_ne hid])
      refine ⟨fun t' => ?_, fun t' => ?_, fun t' row hrow => ?_, fun t' row hrow => ?_⟩ <;>
        by_cases ht : t' = t
      · subst ht
        simpa only [apply_update_self, List.map_map, Function.comp_def, id_revise] using hv.ids t'
      · rw [apply_of_ne ht]; exact hv.ids t'
      · subst ht
        simpa only [apply_update_self, List.pairwise_map, keys_revise] using hv.keys t'
      · rw [apply_of_ne ht]; exact hv.keys t'
      · subst ht
        rcases hrows row hrow with hrow | rfl
        · exact hold t' row hrow
        · exact resolves_mono hle hrefs
      · rw [apply_of_ne ht] at hrow
        exact hold t' row hrow
      · subst ht
        rcases hrows row hrow with hrow | rfl
        · exact hv.fits t' row hrow
        · exact hfits
      · rw [apply_of_ne ht] at hrow
        exact hv.fits t' row hrow

theorem valid_nil : Sc.Valid (fun _ => []) where
  ids _ := .nil
  keys _ := .nil
  refs _ _ h := by cases h
  fits _ _ h := by cases h

/-- Whether each write is accepted after the ones before it. -/
def acceptsAll (Sc : Schema T I K Row Patch) : List (Write T I Row Patch) → Db T Row → Bool
  | [], _ => true
  | w :: ws, db => Sc.violation w db == none && acceptsAll Sc ws (Sc.apply w db)

/-- Accepted writes lead from a valid database to a valid one. -/
theorem Valid.applyAll {ws : List (Write T I Row Patch)} (hv : Sc.Valid db)
    (h : Sc.acceptsAll ws db = true) :
    Sc.Valid (ws.foldl (fun db w => Sc.apply w db) db) := by
  induction ws generalizing db with
  | nil => exact hv
  | cons w ws ih =>
      rw [acceptsAll, Bool.and_eq_true, beq_iff_eq] at h
      exact ih (hv.apply h.1) h.2

end Schema

/-! ## The discipline of the engine -/

section Engine

variable {Sc : Schema T I K Row Patch} {S : Type → Type} {ε η : Type}
  {plan : {β : Type} → S β → η → Db T Row → Except ε (Plan T I Row Patch β)}
  {claims : {β : Type} → S β → Db T Row → List (Lock T I K)}
  {reject : Write T I Row Patch → Violation → ε} {fault : String → ε}

/-- A statement that succeeds follows its plan, and what it writes is accepted. -/
theorem exec_eq_ok {β : Type} {s : S β} {env : η} {db : Db T Row} {b : β}
    {ws : List (Write T I Row Patch)} :
    (engine Sc plan claims reject fault).exec s env db = .ok (b, ws) ↔
      (plan s env db = .ok ⟨b, none⟩ ∧ ws = []) ∨
        ∃ w, plan s env db = .ok ⟨b, some w⟩ ∧ Sc.accepts w db ∧ ws = [w] := by
  simp only [engine, Schema.accepts]
  cases hp : plan s env db with
  | error e => simp
  | ok p =>
      obtain ⟨a, w⟩ := p
      cases w with
      | none => simp [eq_comm]
      | some w => cases hv : Sc.violation w db <;> grind

/-- A statement that fails has a plan that fails, or writes what is rejected. -/
theorem exec_eq_error {β : Type} {s : S β} {env : η} {db : Db T Row} {e : ε}
    (h : (engine Sc plan claims reject fault).exec s env db = .error e) :
    plan s env db = .error e ∨ ∃ b w v, plan s env db = .ok ⟨b, some w⟩ ∧
      Sc.violation w db = some v ∧ e = reject w v := by
  simp only [engine] at h
  cases hp : plan s env db with
  | error e' =>
      simp only [hp, Except.error.injEq] at h
      exact .inl (congrArg _ h)
  | ok p =>
      obtain ⟨b, w⟩ := p
      cases w with
      | none => simp [hp] at h
      | some w =>
          cases hv : Sc.violation w db with
          | none => simp [hp, hv] at h
          | some v =>
              simp only [hp, hv, Except.error.injEq] at h
              exact .inr ⟨b, w, v, rfl, hv, h.symm⟩

/-- The discipline that the locks of a schema's engine keep. -/
def discipline : Transact.Discipline (engine Sc plan claims reject fault) where
  same := Sc.same
  le := Sc.le
  valid := Sc.Valid
  fits := Sc.accepts
  same_refl l db := by cases l <;> rfl
  same_trans {l _ _ _} h h' := by cases l <;> exact Eq.trans h h'
  le_refl := Schema.le_refl
  le_trans := Schema.le_trans
  same_apply := Schema.same_apply
  apply_same := Schema.apply_same
  le_apply := Schema.le_apply
  apply_le := Schema.apply_le
  fits_of_same := Schema.accepts_of_same
  valid_apply := Schema.Valid.apply
  exec_fits _ h := by
    rcases exec_eq_ok.mp h with ⟨-, rfl⟩ | ⟨w, -, hw, rfl⟩
    · trivial
    · exact ⟨hw, trivial⟩

end Engine

end Relational
