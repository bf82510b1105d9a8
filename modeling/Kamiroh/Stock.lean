import Kamiroh.Run

/-!
# What is in stock

What a machine takes from a stock, and what is left of a list once its first match is taken. This module
knows nothing of what the states, the inputs and the items are.
-/

namespace Stock

variable {α σ : Type*}

/-! ## Taking the first match -/

section

variable {p q : α → Bool} {l : List α} {x : α}

theorem perm_of_find (h : l.find? p = some x) : (x :: l.eraseP p).Perm l := by
  induction l with
  | nil => cases h
  | cons y l ih =>
    by_cases hy : p y = true
    · rw [List.find?_cons_of_pos hy] at h
      cases h
      rw [List.eraseP_cons_of_pos hy]
    · rw [List.find?_cons_of_neg hy] at h
      rw [List.eraseP_cons_of_neg hy]
      exact (List.Perm.swap y x _).trans ((ih h).cons y)

theorem filter_of_find (h : l.find? p = some x) : l.filter p = x :: (l.eraseP p).filter p := by
  induction l with
  | nil => cases h
  | cons y l ih =>
    by_cases hy : p y = true
    · rw [List.find?_cons_of_pos hy] at h
      cases h
      rw [List.eraseP_cons_of_pos hy, List.filter_cons_of_pos hy]
    · rw [List.find?_cons_of_neg hy] at h
      rw [List.eraseP_cons_of_neg hy, List.filter_cons_of_neg hy, List.filter_cons_of_neg hy]
      exact ih h

theorem filter_eraseP (hpq : ∀ x, p x = true → q x = false) : (l.eraseP p).filter q = l.filter q := by
  induction l with
  | nil => rfl
  | cons y l ih =>
    by_cases hy : p y = true
    · rw [List.eraseP_cons_of_pos hy, List.filter_cons_of_neg (by simp [hpq y hy])]
    · rw [List.eraseP_cons_of_neg hy, List.filter_cons, List.filter_cons, ih]

theorem filter_eraseIdx {i : Nat} (hi : ∀ x, l[i]? = some x → q x = false) :
    (l.eraseIdx i).filter q = l.filter q := by
  induction l generalizing i with
  | nil => rfl
  | cons y l ih =>
    cases i with
    | zero => rw [List.eraseIdx_cons_zero, List.filter_cons_of_neg (by simp [hi y rfl])]
    | succ i => rw [List.eraseIdx_cons_succ, List.filter_cons, List.filter_cons, ih hi]

end

/-! ## What the items of a list weigh -/

section

variable (weight : α → Nat) {p : α → Bool} {l : List α} {x : α}

theorem sum_of_find (h : l.find? p = some x) :
    (l.map weight).sum = weight x + ((l.eraseP p).map weight).sum := by
  rw [← ((perm_of_find h).map weight).sum_nat, List.map_cons, List.sum_cons]

theorem sum_set {i : Nat} (h : l[i]? = some x) (y : α) :
    ((l.set i y).map weight).sum + weight x = (l.map weight).sum + weight y := by
  induction l generalizing i with
  | nil => cases h
  | cons z l ih =>
    cases i with
    | zero =>
      cases h
      simp only [List.set_cons_zero, List.map_cons, List.sum_cons]
      omega
    | succ i =>
      rw [List.getElem?_cons_succ] at h
      have hrest := ih h
      simp only [List.set_cons_succ, List.map_cons, List.sum_cons]
      omega

theorem sum_le_of_sublist {l' : List α} (h : l'.Sublist l) : (l'.map weight).sum ≤ (l.map weight).sum := by
  induction h with
  | slnil => exact Nat.le_refl _
  | cons y _ ih =>
    rw [List.map_cons, List.sum_cons]
    omega
  | cons_cons y _ ih =>
    simp only [List.map_cons, List.sum_cons]
    omega

end

/-! ## The rule of supply -/

/-- If no step costs more than what it takes from the stock and what it is supplied with, then no run
does. -/
theorem cost_le (step : σ → α → σ) {c : σ → α → Nat} {ok : σ → α → Prop} {I : σ → Prop}
    (stock supply : σ → Nat) (hI : ∀ s a, I s → ok s a → I (step s a))
    (hstep : ∀ s a, I s → ok s a →
      c s a + stock (step s a) + supply s ≤ stock s + supply (step s a))
    (s : σ) (as : List α) (h0 : I s) (hok : Run.Along step ok s as) :
    Run.cost step c s as + stock (Run.after step s as) + supply s ≤
      stock s + supply (Run.after step s as) := by
  induction as generalizing s with
  | nil =>
    simp only [Run.cost, Run.after_nil]
    omega
  | cons a as ih =>
    have hfirst := hstep s a h0 hok.1
    have hrest := ih _ (hI s a h0 hok.1) hok.2
    simp only [Run.cost, Run.after_cons]
    omega

end Stock
