import Mathlib.Algebra.GroupWithZero.Nat
import Mathlib.Data.List.Basic

/-!
# Runs of a machine

A machine is a function from a state and an input to the next state. This module knows nothing of
what the states and the inputs are.
-/

namespace Run

variable {σ τ α β : Type*}

def after (step : σ → α → σ) (s : σ) (as : List α) : σ := as.foldl step s

def outputs {ω : Type*} (step : σ → α → σ × List ω) : σ → List α → List ω
  | _, [] => []
  | s, a :: as => (step s a).2 ++ outputs step (step s a).1 as

/-- Each input meets `ok` in the state that it finds. -/
def Along (step : σ → α → σ) (ok : σ → α → Prop) : σ → List α → Prop
  | _, [] => True
  | s, a :: as => ok s a ∧ Along step ok (step s a) as

section

variable (step : σ → α → σ) {ok ok' : σ → α → Prop}

@[simp] theorem after_nil (s : σ) : after step s [] = s := rfl

@[simp] theorem after_cons (s : σ) (a : α) (as : List α) :
    after step s (a :: as) = after step (step s a) as := rfl

@[simp] theorem after_append (s : σ) (as bs : List α) :
    after step s (as ++ bs) = after step (after step s as) bs := List.foldl_append

@[simp] theorem outputs_append {ω : Type*} (step : σ → α → σ × List ω) (s : σ) (as bs : List α) :
    outputs step s (as ++ bs) =
      outputs step s as ++ outputs step (after (fun s a => (step s a).1) s as) bs := by
  induction as generalizing s with
  | nil => rfl
  | cons a as ih => simp [outputs, ih]

theorem outputs_map {ω : Type*} (step : σ → α → σ × List ω) (f : β → α) (s : σ) (bs : List β) :
    outputs step s (bs.map f) = outputs (fun s b => step s (f b)) s bs := by
  induction bs generalizing s with
  | nil => rfl
  | cons b bs ih => rw [List.map_cons, outputs, outputs, ih]

theorem outputs_flatMap {ω ω' : Type*} (step : σ → α → σ × List ω) (f : ω → List ω') (s : σ) (as : List α) :
    (outputs step s as).flatMap f = outputs (fun s a => ((step s a).1, (step s a).2.flatMap f)) s as := by
  induction as generalizing s with
  | nil => rfl
  | cons a as ih => rw [outputs, outputs, List.flatMap_append, ih]

theorem after_map (f : β → α) (s : σ) (bs : List β) :
    after step s (bs.map f) = after (fun s b => step s (f b)) s bs := List.foldl_map

@[simp] theorem along_nil (s : σ) : Along step ok s [] := trivial

@[simp] theorem along_cons (s : σ) (a : α) (as : List α) :
    Along step ok s (a :: as) ↔ ok s a ∧ Along step ok (step s a) as := Iff.rfl

theorem along_append (s : σ) (as bs : List α) :
    Along step ok s (as ++ bs) ↔ Along step ok s as ∧ Along step ok (after step s as) bs := by
  induction as generalizing s with
  | nil => simp
  | cons a as ih => simp [ih, and_assoc]

theorem along_and (s : σ) (as : List α) :
    Along step (fun s a => ok s a ∧ ok' s a) s as ↔ Along step ok s as ∧ Along step ok' s as := by
  induction as generalizing s with
  | nil => simp
  | cons a as ih =>
    simp only [along_cons, ih]
    exact and_and_and_comm

theorem along_imp (h : ∀ s a, ok s a → ok' s a) (s : σ) (as : List α) :
    Along step ok s as → Along step ok' s as := by
  induction as generalizing s with
  | nil => exact id
  | cons a as ih => exact fun ⟨ha, has⟩ => ⟨h s a ha, ih _ has⟩

theorem along_of_mem {as : List α} (h : ∀ s, ∀ a ∈ as, ok s a) (s : σ) : Along step ok s as := by
  induction as generalizing s with
  | nil => trivial
  | cons a as ih =>
    exact ⟨h s a List.mem_cons_self, ih (fun s b hb => h s b (List.mem_cons_of_mem a hb)) _⟩

theorem along_of_forall (h : ∀ s a, ok s a) (s : σ) (as : List α) : Along step ok s as :=
  along_of_mem step (fun s a _ => h s a) s

instance decidableAlong [∀ s a, Decidable (ok s a)] (s : σ) (as : List α) :
    Decidable (Along step ok s as) :=
  match as with
  | [] => isTrue trivial
  | a :: as => @instDecidableAnd _ _ _ (decidableAlong (step s a) as)

/-! ## The invariant rule -/

theorem invariant {I : σ → Prop} (hstep : ∀ s a, I s → ok s a → I (step s a)) (s : σ) (as : List α)
    (h0 : I s) (hok : Along step ok s as) : I (after step s as) := by
  induction as generalizing s with
  | nil => exact h0
  | cons a as ih => exact ih _ (hstep s a h0 hok.1) hok.2

theorem invariant_all {I : σ → Prop} (hstep : ∀ s a, I s → I (step s a)) (s : σ) (as : List α)
    (h0 : I s) : I (after step s as) :=
  have htrue : Along step (fun _ _ => True) s as := along_of_forall step (fun _ _ => trivial) s as
  invariant step (fun s a h _ => hstep s a h) s as h0 htrue

theorem along_of_invariant {I : σ → Prop} (hstep : ∀ s a, I s → ok s a → I (step s a))
    (hok' : ∀ s a, I s → ok s a → ok' s a) (s : σ) (as : List α) (h0 : I s)
    (hok : Along step ok s as) : Along step ok' s as := by
  induction as generalizing s with
  | nil => trivial
  | cons a as ih => exact ⟨hok' s a h0 hok.1, ih _ (hstep s a h0 hok.1) hok.2⟩

theorem along_of_end {P : σ → Prop} (hback : ∀ s a, P (step s a) → P s) (s : σ) (as : List α)
    (hend : P (after step s as)) : P s ∧ Along step (fun s a => P (step s a)) s as := by
  induction as generalizing s with
  | nil => exact ⟨hend, trivial⟩
  | cons a as ih =>
    obtain ⟨hnext, hrest⟩ := ih (step s a) hend
    exact ⟨hback s a hnext, hnext, hrest⟩

/-- If an input keeps `P` exactly when it meets `ok`, then `P` holds of every state that the run reaches
exactly when the run meets `ok`. -/
theorem along_iff {I P : σ → Prop} (hI : ∀ s a, I s → I (step s a))
    (hP : ∀ s a, I s → P s → (P (step s a) ↔ ok s a)) (s : σ) (as : List α) (h0 : I s) (hP0 : P s) :
    (∀ start, start <+: as → P (after step s start)) ↔ Along step ok s as := by
  induction as generalizing s with
  | nil =>
    refine ⟨fun _ => trivial, fun _ start hstart => ?_⟩
    rw [List.prefix_nil.mp hstart]
    exact hP0
  | cons a as ih =>
    constructor
    · intro hall
      have hstep : P (step s a) := hall [a] (by simp)
      refine ⟨(hP s a h0 hP0).mp hstep, (ih _ (hI s a h0) hstep).mp fun start hstart => ?_⟩
      exact hall (a :: start) (List.cons_prefix_cons.mpr ⟨rfl, hstart⟩)
    · rintro ⟨hok, hrest⟩ start hstart
      have hstep : P (step s a) := (hP s a h0 hP0).mpr hok
      cases start with
      | nil => exact hP0
      | cons b start =>
        obtain ⟨rfl, hprefix⟩ := List.cons_prefix_cons.mp hstart
        exact (ih _ (hI s b h0) hstep).mpr hrest start hprefix

/-! ## The simulation rule -/

def both (step : σ → α → σ) (step' : τ → α → τ) (st : σ × τ) (a : α) : σ × τ :=
  (step st.1 a, step' st.2 a)

theorem along_left (step' : τ → α → τ) {s : σ} {as : List α} (h : Along step ok s as) (t : τ) :
    Along (both step step') (fun st a => ok st.1 a) (s, t) as := by
  induction as generalizing s t with
  | nil => trivial
  | cons a as ih => exact ⟨h.1, ih h.2 (step' t a)⟩

theorem simulation {ω : Type*} (step : σ → α → σ × List ω) (step' : τ → α → τ × List ω)
    {R : σ → τ → Prop} {ok : σ × τ → α → Prop}
    (hstep : ∀ s t a, R s t → ok (s, t) a →
      (step s a).2 = (step' t a).2 ∧ R (step s a).1 (step' t a).1) (s : σ) (t : τ) (as : List α)
    (h0 : R s t)
    (hok : Along (both (fun s a => (step s a).1) (fun t a => (step' t a).1)) ok (s, t) as) :
    outputs step s as = outputs step' t as ∧
      R (after (fun s a => (step s a).1) s as) (after (fun t a => (step' t a).1) t as) := by
  induction as generalizing s t with
  | nil => exact ⟨rfl, h0⟩
  | cons a as ih =>
    obtain ⟨hout, hR⟩ := hstep s t a h0 hok.1
    obtain ⟨houts, hRs⟩ := ih _ _ hR hok.2
    exact ⟨by rw [outputs, outputs, hout, houts], hRs⟩

/-- Two machines that do not go in step: what one puts out for an input, the other puts out for the
inputs that answer it, some or none. These meet `ok'`. -/
theorem simulation_answered {ω : Type*} (step : σ → α → σ × List ω) (step' : τ → β → τ × List ω)
    (answer : σ → α → List β) {R : σ → τ → Prop} {ok' : τ → β → Prop}
    (hstep : ∀ s t a, R s t → ok s a →
      (step s a).2 = outputs step' t (answer s a) ∧
        R (step s a).1 (after (fun t b => (step' t b).1) t (answer s a)) ∧
        Along (fun t b => (step' t b).1) ok' t (answer s a)) (s : σ) (t : τ) (as : List α)
    (h0 : R s t) (hok : Along (fun s a => (step s a).1) ok s as) :
    let answers := outputs (fun s a => ((step s a).1, answer s a)) s as
    outputs step s as = outputs step' t answers ∧
      R (after (fun s a => (step s a).1) s as) (after (fun t b => (step' t b).1) t answers) ∧
      Along (fun t b => (step' t b).1) ok' t answers := by
  induction as generalizing s t with
  | nil => exact ⟨rfl, h0, trivial⟩
  | cons a as ih =>
    obtain ⟨hout, hR, hmet⟩ := hstep s t a h0 hok.1
    obtain ⟨houts, hRs, hmets⟩ := ih _ _ hR hok.2
    refine ⟨?_, ?_, ?_⟩
    · rw [outputs, outputs, outputs_append, hout, houts]
    · rw [outputs, after_append]
      exact hRs
    · rw [outputs, along_append]
      exact ⟨hmet, hmets⟩

/-! ## The conservation rule -/

/-- If in every step what is taken and what is left come in order, as `R` has it, of what was there and what
was added, then so they do in a run. -/
theorem flow {ε ω : Type*} (step : σ → α → σ × List ε) {R : List ω → List ω → Prop} {I : σ → Prop}
    {ok : σ → α → Prop} (content : σ → List ω) (taken added : ε → List ω) (hrefl : ∀ l, R l l)
    (htrans : ∀ {l l' l''}, R l l' → R l' l'' → R l l'')
    (happend : ∀ {l l'} (front back), R l l' → R (front ++ (l ++ back)) (front ++ (l' ++ back)))
    (hkeeps : ∀ s a, I s → ok s a → I (step s a).1)
    (hmoves : ∀ s a, I s → ok s a →
      R ((step s a).2.flatMap taken ++ content (step s a).1) (content s ++ (step s a).2.flatMap added))
    (s : σ) (as : List α) (h0 : I s) (hok : Along (fun s a => (step s a).1) ok s as) :
    R ((outputs step s as).flatMap taken ++ content (after (fun s a => (step s a).1) s as))
      (content s ++ (outputs step s as).flatMap added) := by
  induction as generalizing s with
  | nil =>
    rw [outputs, List.flatMap_nil, List.flatMap_nil, List.nil_append, List.append_nil]
    exact hrefl _
  | cons a as ih =>
    rw [outputs, after_cons, List.flatMap_append, List.flatMap_append, List.append_assoc,
      ← List.append_assoc (content s)]
    have hrest := happend ((step s a).2.flatMap taken) [] (ih _ (hkeeps s a h0 hok.1) hok.2)
    have hfirst := happend [] ((outputs step (step s a).1 as).flatMap added) (hmoves s a h0 hok.1)
    rw [List.append_nil, List.append_nil,
      ← List.append_assoc ((step s a).2.flatMap taken) (content (step s a).1)] at hrest
    exact htrans hrest hfirst

/-- A line of items. While `Open` holds, items are added at its end and taken at its front. Once it does
not hold, it never holds again, and nothing is taken. The act that ends it may still take some. -/
structure Line {ω : Type*} (step : σ → α → σ) (ok : σ → α → Prop) (I Open : σ → Prop)
    (content : σ → List ω) (taken added : σ → α → List ω) : Prop where
  keeps : ∀ s a, I s → ok s a → I (step s a)
  back : ∀ s a, I s → ok s a → Open (step s a) → Open s
  moves : ∀ s a, I s → ok s a → Open (step s a) → taken s a ++ content (step s a) = content s ++ added s a
  last : ∀ s a, I s → ok s a → Open s → taken s a <+: content s ++ added s a
  shut : ∀ s a, I s → ok s a → ¬ Open s → taken s a = []

namespace Line

variable {ω : Type*} {step} {I Open : σ → Prop} {content : σ → List ω} {taken added : σ → α → List ω}

theorem nothing (line : Line step ok I Open content taken added) (s : σ) (as : List α) (h0 : I s)
    (hok : Along step ok s as) (hshut : ¬ Open s) :
    outputs (fun s a => (step s a, taken s a)) s as = [] := by
  induction as generalizing s with
  | nil => rfl
  | cons a as ih =>
    have hstill : ¬ Open (step s a) := fun h => hshut (line.back s a h0 hok.1 h)
    rw [outputs, ih _ (line.keeps s a h0 hok.1) hok.2 hstill, List.append_nil]
    exact line.shut s a h0 hok.1 hshut

/-- What was taken and what is still in the line are what was in it, followed by what was added. -/
theorem conserved (line : Line step ok I Open content taken added) (s : σ) (as : List α) (h0 : I s)
    (hok : Along step ok s as) (hopen : Open (after step s as)) :
    Open s ∧ outputs (fun s a => (step s a, taken s a)) s as ++ content (after step s as) =
      content s ++ outputs (fun s a => (step s a, added s a)) s as := by
  induction as generalizing s with
  | nil => exact ⟨hopen, by simp [outputs]⟩
  | cons a as ih =>
    obtain ⟨hnext, hrest⟩ := ih (step s a) (line.keeps s a h0 hok.1) hok.2 hopen
    refine ⟨line.back s a h0 hok.1 hnext, ?_⟩
    rw [outputs, outputs, after_cons, List.append_assoc, hrest, ← List.append_assoc,
      line.moves s a h0 hok.1 hnext, List.append_assoc]

/-- However the line ends, what was taken comes first in what there was to take. -/
theorem taken_prefix (line : Line step ok I Open content taken added) (s : σ) (as : List α) (h0 : I s)
    (hok : Along step ok s as) (hopen : Open s) :
    outputs (fun s a => (step s a, taken s a)) s as <+:
      content s ++ outputs (fun s a => (step s a, added s a)) s as := by
  induction as generalizing s with
  | nil => exact List.nil_prefix
  | cons a as ih =>
    have hkeeps := line.keeps s a h0 hok.1
    rw [outputs, outputs, ← List.append_assoc]
    by_cases hnext : Open (step s a)
    · rw [← line.moves s a h0 hok.1 hnext, List.append_assoc]
      exact List.prefix_append_right_inj _ |>.mpr (ih _ hkeeps hok.2 hnext)
    · rw [line.nothing _ as hkeeps hok.2 hnext, List.append_nil]
      exact (line.last s a h0 hok.1 hopen).trans (List.prefix_append ..)

end Line

/-! ## The ranking rule -/

/-- If each input reaches the goal or keeps the invariant, and a marked input that misses the goal
lowers the rank, then the goal is reached within as many marked inputs as the rank says. -/
theorem reach_within (I : σ → Prop) (goal : σ → α → Prop) (marked : α → Bool) (rank : σ → Nat)
    (hstep : ∀ s a, I s → ok s a → ¬ goal s a →
      I (step s a) ∧ rank (step s a) + (if marked a then 1 else 0) ≤ rank s)
    (hpos : ∀ s, I s → 0 < rank s) (s : σ) (as : List α) (h0 : I s) (hok : Along step ok s as)
    (hmany : rank s ≤ as.countP marked) :
    ∃ pre a post, as = pre ++ a :: post ∧ goal (after step s pre) a ∧ pre.countP marked < rank s ∧
      Along step (fun s a => I s ∧ ok s a ∧ ¬ goal s a) s pre := by
  induction as generalizing s with
  | nil =>
    have := hpos s h0
    rw [List.countP_nil] at hmany
    omega
  | cons a as ih =>
    by_cases hgoal : goal s a
    · exact ⟨[], a, as, rfl, hgoal, hpos s h0, trivial⟩
    · obtain ⟨hI, hrank⟩ := hstep s a h0 hok.1 hgoal
      rw [List.countP_cons] at hmany
      obtain ⟨pre, b, post, hsplit, hb, hcount, halong⟩ := ih (step s a) hI hok.2 (by omega)
      refine ⟨a :: pre, b, post, by rw [hsplit, List.cons_append], hb, ?_, ⟨h0, hok.1, hgoal⟩, halong⟩
      rw [List.countP_cons]
      omega

/-! ## The potential rule -/

def cost (step : σ → α → σ) (c : σ → α → Nat) : σ → List α → Nat
  | _, [] => 0
  | s, a :: as => c s a + cost step c (step s a) as

@[simp] theorem cost_append (c : σ → α → Nat) (s : σ) (as bs : List α) :
    cost step c s (as ++ bs) = cost step c s as + cost step c (after step s as) bs := by
  induction as generalizing s with
  | nil => simp [cost]
  | cons a as ih => simp [cost, ih, Nat.add_assoc]

/-- If each step pays its cost out of a potential and an income, the whole run costs no more than the
potential that it starts with and what comes in. -/
theorem cost_le {c income : σ → α → Nat} (potential : σ → Nat)
    (hpay : ∀ s a, c s a + potential (step s a) ≤ potential s + income s a) (s : σ) (as : List α) :
    cost step c s as ≤ potential s + cost step income s as := by
  induction as generalizing s with
  | nil => exact Nat.zero_le _
  | cons a as ih =>
    have hrest := ih (step s a)
    have ha := hpay s a
    simp only [cost]
    omega

/-- The same with a credit that a state has, of which there may be more than one, and that `ok` is about. -/
theorem cost_credit {c income : σ → α → Nat} {R : σ → Nat → Prop}
    (hpay : ∀ s a n, R s n → ok s a → ∃ n', R (step s a) n' ∧ c s a + n' ≤ n + income s a) (s : σ)
    (as : List α) (n : Nat) (h0 : R s n) (hok : Along step ok s as) :
    ∃ n', R (after step s as) n' ∧ cost step c s as + n' ≤ n + cost step income s as := by
  induction as generalizing s n with
  | nil => exact ⟨n, h0, by simp only [cost]; omega⟩
  | cons a as ih =>
    obtain ⟨n₁, h₁, hfirst⟩ := hpay s a n h0 hok.1
    obtain ⟨n', h', hrest⟩ := ih (step s a) n₁ h₁ hok.2
    refine ⟨n', h', ?_⟩
    simp only [cost]
    omega

theorem cost_mono {c c' : σ → α → Nat} (h : ∀ s a, c s a ≤ c' s a) (s : σ) (as : List α) :
    cost step c s as ≤ cost step c' s as := by
  induction as generalizing s with
  | nil => exact Nat.le_refl _
  | cons a as ih => exact Nat.add_le_add (h s a) (ih _)

theorem cost_eq_zero {c : σ → α → Nat} (h : ∀ s a, ok s a → c s a = 0) (s : σ) (as : List α)
    (hok : Along step ok s as) : cost step c s as = 0 := by
  induction as generalizing s with
  | nil => rfl
  | cons a as ih => rw [cost, h s a hok.1, ih _ hok.2]

end

end Run
