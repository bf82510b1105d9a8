import Mathlib.Algebra.GroupWithZero.Nat
import Mathlib.Data.List.AList

/-!
# Finite maps with an order of their entries

Mathlib's association lists, with values of one type. The order of the entries is the order in which
a program iterates over the map.
-/

/-- A finite map from `α` to `β`. -/
abbrev Assoc (α β : Type*) := AList fun _ : α => β

namespace Assoc

variable {α β : Type*} [DecidableEq α]

def modify (m : Assoc α β) (k : α) (f : β → β) : Assoc α β :=
  match m.lookup k with
  | some v => m.insert k (f v)
  | none => m

theorem modify_of_lookup {m : Assoc α β} {k : α} {v : β} (f : β → β) (h : m.lookup k = some v) :
    m.modify k f = m.insert k (f v) := by
  simp only [modify, h]

theorem modify_of_none {m : Assoc α β} {k : α} (f : β → β) (h : m.lookup k = none) :
    m.modify k f = m := by
  simp only [modify, h]

@[simp] theorem lookup_modify_self (m : Assoc α β) (k : α) (f : β → β) :
    (m.modify k f).lookup k = (m.lookup k).map f := by
  cases h : m.lookup k with
  | none => rw [modify_of_none f h, h]; rfl
  | some v => rw [modify_of_lookup f h, AList.lookup_insert]; rfl

@[simp] theorem lookup_modify_of_ne (m : Assoc α β) {k k' : α} (f : β → β) (h : k' ≠ k) :
    (m.modify k f).lookup k' = m.lookup k' := by
  cases hk : m.lookup k with
  | none => rw [modify_of_none f hk]
  | some v => rw [modify_of_lookup f hk, AList.lookup_insert_ne h]

/-! ## The keys of the values with a property -/

/-- The keys whose entry has the property, in the order of the map. -/
def keysWhere (m : Assoc α β) (p : α → β → Bool) : List α :=
  (m.entries.filter fun e => p e.1 e.2).map Sigma.fst

theorem mem_keysWhere {m : Assoc α β} {p : α → β → Bool} {k : α} :
    k ∈ m.keysWhere p ↔ ∃ v, m.lookup k = some v ∧ p k v = true := by
  simp only [keysWhere, List.mem_map, List.mem_filter]
  constructor
  · rintro ⟨⟨k', v⟩, ⟨hmem, hp⟩, rfl⟩
    exact ⟨v, AList.mem_lookup_iff.mpr hmem, hp⟩
  · rintro ⟨v, hv, hp⟩
    exact ⟨⟨k, v⟩, ⟨AList.mem_lookup_iff.mp hv, hp⟩, rfl⟩

omit [DecidableEq α] in
theorem keysWhere_nodup (m : Assoc α β) (p : α → β → Bool) : (m.keysWhere p).Nodup :=
  m.keys_nodup.sublist (List.filter_sublist.map _)

theorem keysWhere_congr {m : Assoc α β} {p q : α → β → Bool}
    (h : ∀ k v, m.lookup k = some v → p k v = q k v) : m.keysWhere p = m.keysWhere q := by
  refine congrArg (List.map Sigma.fst) (List.filter_congr fun e he => ?_)
  exact h e.1 e.2 (AList.mem_lookup_iff.mpr he)

omit [DecidableEq α] in
theorem filter_keysWhere (m : Assoc α β) (p : α → β → Bool) (q : α → Bool) :
    (m.keysWhere p).filter q = m.keysWhere fun k v => p k v && q k := by
  simp only [keysWhere, List.filter_map, List.filter_filter, Function.comp_def, Bool.and_comm]

/-! ## Maps in which one entry matters -/

theorem flatMap_of_only {γ : Type*} {l : List (Σ _ : α, β)} (hl : l.NodupKeys) (f : α → β → List γ)
    {k : α} (h : ∀ e ∈ l, e.1 ≠ k → f e.1 e.2 = []) :
    (l.flatMap fun e => f e.1 e.2) = (l.dlookup k).elim [] (f k) := by
  induction l with
  | nil => rfl
  | cons e l ih =>
    obtain ⟨he, hl⟩ := List.nodupKeys_cons.mp hl
    rw [List.flatMap_cons]
    by_cases hk : e.1 = k
    · subst hk
      have hrest : (l.flatMap fun e => f e.1 e.2) = [] := by
        refine List.flatMap_eq_nil_iff.mpr fun e' he' => h e' (List.mem_cons_of_mem e he') fun heq => ?_
        exact he (heq ▸ List.mem_keys_of_mem he')
      rw [hrest, List.append_nil, List.dlookup_cons_eq l e.1 e.2]
      rfl
    · rw [h e List.mem_cons_self hk, List.nil_append, List.dlookup_cons_ne l e (Ne.symm hk)]
      exact ih hl fun e' he' => h e' (List.mem_cons_of_mem e he')

theorem flatMap_entries_of_only {γ : Type*} {m : Assoc α β} {f : α → β → List γ} {k : α}
    (h : ∀ k', k' ≠ k → ∀ v, m.lookup k' = some v → f k' v = []) :
    (m.entries.flatMap fun e => f e.1 e.2) = (m.lookup k).elim [] (f k) :=
  flatMap_of_only m.nodupKeys f fun e he hk => h e.1 hk e.2 (AList.mem_lookup_iff.mpr he)

/-! ## Totals -/

def total (weight : β → Nat) (m : Assoc α β) : Nat := (m.entries.map fun e => weight e.2).sum

/-- The weight of the value at `k`, nothing if there is none. -/
def weightAt (weight : β → Nat) (m : Assoc α β) (k : α) : Nat := (m.lookup k).elim 0 weight

theorem total_entries_kerase (weight : β → Nat) (l : List (Σ _ : α, β)) (k : α) :
    ((l.kerase k).map fun e => weight e.2).sum + (l.dlookup k).elim 0 weight =
      (l.map fun e => weight e.2).sum := by
  induction l with
  | nil => rfl
  | cons e l ih =>
    by_cases h : k = e.1
    · subst h
      rw [List.kerase_cons_eq rfl, List.dlookup_cons_eq l e.1 e.2]
      simp only [List.map_cons, List.sum_cons, Option.elim_some]
      omega
    · rw [List.kerase_cons_ne h, List.dlookup_cons_ne l e h]
      simp only [List.map_cons, List.sum_cons]
      omega

theorem total_erase (weight : β → Nat) (m : Assoc α β) (k : α) :
    total weight (m.erase k) + weightAt weight m k = total weight m :=
  total_entries_kerase weight m.entries k

theorem total_insert (weight : β → Nat) (m : Assoc α β) (k : α) (v : β) :
    total weight (m.insert k v) + weightAt weight m k = total weight m + weight v := by
  have h := total_entries_kerase weight m.entries k
  simp only [total, weightAt, AList.lookup, AList.entries_insert, List.map_cons, List.sum_cons]
  omega

theorem total_erase_le (weight : β → Nat) (m : Assoc α β) (k : α) :
    total weight (m.erase k) ≤ total weight m := by
  have := total_erase weight m k
  omega

/-! ## Erasing several keys -/

def eraseAll (m : Assoc α β) (keys : List α) : Assoc α β := keys.foldl (fun m k => m.erase k) m

theorem lookup_eraseAll (m : Assoc α β) (keys : List α) (k : α) :
    (m.eraseAll keys).lookup k = if k ∈ keys then none else m.lookup k := by
  induction keys generalizing m with
  | nil => rfl
  | cons k' keys ih =>
    rw [eraseAll, List.foldl_cons]
    refine (ih _).trans ?_
    by_cases hk : k = k'
    · subst hk
      simp
    · simp [hk, AList.lookup_erase_ne hk]

/-! ## Another value for each key -/

section

variable {γ : Type*}

omit [DecidableEq α] in
theorem nodupKeys_map (f : β → γ) {l : List (Σ _ : α, β)} (h : l.NodupKeys) :
    (l.map fun e => (⟨e.1, f e.2⟩ : Σ _ : α, γ)).NodupKeys := by
  rw [List.NodupKeys, List.keys, List.map_map]
  exact h

def mapValues (m : Assoc α β) (f : β → γ) : Assoc α γ :=
  ⟨m.entries.map fun e => ⟨e.1, f e.2⟩, nodupKeys_map f m.nodupKeys⟩

omit [DecidableEq α] in
@[simp] theorem keys_mapValues (m : Assoc α β) (f : β → γ) : (m.mapValues f).keys = m.keys := by
  simp only [AList.keys, mapValues, List.keys, List.map_map]
  rfl

@[simp] theorem lookup_mapValues (m : Assoc α β) (f : β → γ) (k : α) :
    (m.mapValues f).lookup k = (m.lookup k).map f := by
  obtain ⟨entries, hnodup⟩ := m
  induction entries with
  | nil => rfl
  | cons e entries ih =>
    have hrest := ih (List.nodupKeys_cons.mp hnodup).2
    simp only [AList.lookup, mapValues] at hrest ⊢
    by_cases hk : k = e.1
    · subst hk
      rw [List.map_cons, List.dlookup_cons_eq, List.dlookup_cons_eq entries e.1 e.2]
      rfl
    · rw [List.map_cons, List.dlookup_cons_ne, List.dlookup_cons_ne entries e hk]
      · exact hrest
      · exact hk

theorem kerase_map (l : List (Σ _ : α, β)) (f : β → γ) (k : α) :
    (l.map fun e => (⟨e.1, f e.2⟩ : Σ _ : α, γ)).kerase k =
      (l.kerase k).map fun e => ⟨e.1, f e.2⟩ := by
  induction l with
  | nil => rfl
  | cons e l ih =>
    rw [List.map_cons]
    by_cases hk : k = e.1
    · rw [List.kerase_cons_eq hk]
      exact List.kerase_cons_eq hk
    · rw [List.kerase_cons_ne hk, List.map_cons, ← ih]
      exact List.kerase_cons_ne hk

theorem mapValues_erase (m : Assoc α β) (f : β → γ) (k : α) :
    mapValues (m.erase k) f = (m.mapValues f).erase k :=
  AList.ext (kerase_map m.entries f k).symm

theorem mapValues_insert (m : Assoc α β) (f : β → γ) (k : α) (v : β) :
    mapValues (m.insert k v) f = (m.mapValues f).insert k (f v) := by
  refine AList.ext ?_
  rw [AList.entries_insert]
  exact congrArg (List.cons _) (kerase_map m.entries f k).symm

theorem mapValues_eraseAll (m : Assoc α β) (f : β → γ) (keys : List α) :
    (m.eraseAll keys).mapValues f = (m.mapValues f).eraseAll keys := by
  induction keys generalizing m with
  | nil => rfl
  | cons k keys ih =>
    refine (ih (m.erase k)).trans ?_
    rw [mapValues_erase]
    rfl

omit [DecidableEq α] in
theorem keysWhere_mapValues (m : Assoc α β) (f : β → γ) (p : α → Bool) :
    ((m.mapValues f).keysWhere fun k _ => p k) = m.keysWhere fun k _ => p k := by
  simp only [keysWhere, mapValues, List.filter_map, List.map_map, Function.comp_def]

/-! ## What the values hold together -/

/-- What all values hold, in the order of the map. -/
def gathered (m : Assoc α β) (f : β → List γ) : List γ := m.entries.flatMap fun e => f e.2

/-- What the value at `k` holds, nothing if there is none. -/
def heldAt (m : Assoc α β) (f : β → List γ) (k : α) : List γ := (m.lookup k).elim [] f

theorem gathered_kerase (l : List (Σ _ : α, β)) (f : β → List γ) (k : α) :
    ((l.dlookup k).elim [] f ++ (l.kerase k).flatMap fun e => f e.2).Perm
      (l.flatMap fun e => f e.2) := by
  induction l with
  | nil => exact .refl _
  | cons e l ih =>
    by_cases hk : k = e.1
    · subst hk
      rw [List.kerase_cons_eq rfl, List.dlookup_cons_eq l e.1 e.2]
      exact .refl _
    · rw [List.kerase_cons_ne hk, List.dlookup_cons_ne l e hk, List.flatMap_cons, List.flatMap_cons]
      exact (List.perm_append_comm_assoc ..).trans (ih.append_left _)

theorem gathered_erase (m : Assoc α β) (f : β → List γ) (k : α) :
    (m.heldAt f k ++ gathered (m.erase k) f).Perm (m.gathered f) :=
  gathered_kerase m.entries f k

theorem gathered_insert (m : Assoc α β) (f : β → List γ) (k : α) (v : β) :
    (m.heldAt f k ++ gathered (m.insert k v) f).Perm (f v ++ m.gathered f) := by
  have hinsert : gathered (m.insert k v) f = f v ++ gathered (m.erase k) f := by
    rw [gathered, AList.entries_insert, List.flatMap_cons]
    rfl
  rw [hinsert]
  exact (List.perm_append_comm_assoc ..).trans ((m.gathered_erase f k).append_left _)

theorem gathered_eraseAll (m : Assoc α β) (f : β → List γ) (keys : List α) (hkeys : keys.Nodup) :
    (keys.flatMap (m.heldAt f) ++ (m.eraseAll keys).gathered f).Perm (m.gathered f) := by
  induction keys generalizing m with
  | nil => exact .refl _
  | cons k keys ih =>
    obtain ⟨hk, hkeys⟩ := List.nodup_cons.mp hkeys
    have hsame : keys.flatMap (m.heldAt f) = keys.flatMap (heldAt (m.erase k) f) := by
      refine List.flatMap_congr fun k' hk' => ?_
      have hne : k' ≠ k := fun h => hk (h ▸ hk')
      simp only [heldAt, AList.lookup_erase_ne hne]
    rw [List.flatMap_cons, List.append_assoc, hsame]
    exact ((ih (m.erase k) hkeys).append_left _).trans (m.gathered_erase f k)

end

end Assoc
