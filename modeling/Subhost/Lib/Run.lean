import Mathlib.Data.List.Basic
import Mathlib.Data.List.Forall2
import Mathlib.Algebra.GroupWithZero.Nat
/-!
# Runs of a stateful operation

A stateful operation is a function `step : σ → ι → ρ × σ` (input to result and next state). A run
feeds it a list of inputs; `trace` records every call with the states around it, `final` is the
state the run ends in. The lemmas here are the two induction rules every whole-run result uses:
an invariant of the step holds in the final state, and around every call of the trace.
-/
namespace Run

variable {σ ι ρ : Type}

/-- One call of a run. -/
structure Call (σ ι ρ : Type) where
  before : σ
  input : ι
  result : ρ
  after : σ

def trace (step : σ → ι → ρ × σ) : σ → List ι → List (Call σ ι ρ)
  | _, [] => []
  | s, i :: is => ⟨s, i, (step s i).1, (step s i).2⟩ :: trace step (step s i).2 is

def final (step : σ → ι → ρ × σ) : σ → List ι → σ
  | s, [] => s
  | s, i :: is => final step (step s i).2 is

theorem final_append (step : σ → ι → ρ × σ) (s : σ) (is js : List ι) :
    final step s (is ++ js) = final step (final step s is) js := by
  induction is generalizing s with
  | nil => rfl
  | cons i is ih => simp [final, ih]

/-- Inputs that are translated first. -/
theorem final_map {κ : Type} (step : σ → ι → ρ × σ) (f : κ → ι) (s : σ) (ks : List κ) :
    final step s (ks.map f) = final (fun s k => step s (f k)) s ks := by
  induction ks generalizing s with
  | nil => rfl
  | cons k ks ih => exact ih _

theorem trace_append (step : σ → ι → ρ × σ) (s : σ) (is js : List ι) :
    trace step s (is ++ js) = trace step s is ++ trace step (final step s is) js := by
  induction is generalizing s with
  | nil => rfl
  | cons i is ih => simp [trace, final, ih]

/-- The last call of a run is in its trace. -/
theorem last_mem_trace (step : σ → ι → ρ × σ) (s : σ) (is : List ι) (i : ι) :
    ⟨final step s is, i, (step (final step s is) i).1, (step (final step s is) i).2⟩ ∈
      trace step s (is ++ [i]) := by
  rw [trace_append]
  exact List.mem_append_right _ (List.mem_singleton_self _)

/-- Every call of a trace records what the step returned. -/
theorem trace_step (step : σ → ι → ρ × σ) (s : σ) (is : List ι) :
    ∀ c ∈ trace step s is, step c.before c.input = (c.result, c.after) := by
  induction is generalizing s with
  | nil => intro c hc; cases hc
  | cons i is ih =>
    intro c hc
    rcases List.mem_cons.mp hc with rfl | hc
    · rfl
    · exact ih _ c hc

/-- **Invariant rule.** What every step preserves holds in the final state. -/
theorem final_invariant (step : σ → ι → ρ × σ) (Inv : σ → Prop)
    (hstep : ∀ s i, Inv s → Inv (step s i).2) {s : σ} (hs : Inv s) (is : List ι) :
    Inv (final step s is) := by
  induction is generalizing s with
  | nil => exact hs
  | cons i is ih => exact ih (hstep s i hs)

/-- **Conditional trace rule.** If every call of the trace meets `C`, and a step that meets `C` keeps
`Inv`, then `Inv` holds before every call. -/
theorem trace_invariant_of (step : σ → ι → ρ × σ) (Inv : σ → Prop) (C : Call σ ι ρ → Prop)
    (hstep : ∀ s i, Inv s → C ⟨s, i, (step s i).1, (step s i).2⟩ → Inv (step s i).2) {s : σ} (hs : Inv s)
    (is : List ι) (hall : ∀ c ∈ trace step s is, C c) : ∀ c ∈ trace step s is, Inv c.before := by
  induction is generalizing s with
  | nil => intro c hc; cases hc
  | cons i is ih =>
    rw [trace, List.forall_mem_cons] at hall
    intro c hc
    rcases List.mem_cons.mp hc with rfl | hc
    · exact hs
    · exact ih (hstep s i hs hall.1) hall.2 c hc

/-- **Conditional invariant rule.** The same for the state the run ends in. -/
theorem final_invariant_of (step : σ → ι → ρ × σ) (Inv : σ → Prop) (C : Call σ ι ρ → Prop)
    (hstep : ∀ s i, Inv s → C ⟨s, i, (step s i).1, (step s i).2⟩ → Inv (step s i).2) {s : σ} (hs : Inv s)
    (is : List ι) (hall : ∀ c ∈ trace step s is, C c) : Inv (final step s is) := by
  induction is generalizing s with
  | nil => exact hs
  | cons i is ih =>
    rw [trace, List.forall_mem_cons] at hall
    exact ih (hstep s i hs hall.1) hall.2

/-- **Aftermath rule.** What a call establishes and every later step keeps holds in the final state. -/
theorem final_of_trace (step : σ → ι → ρ × σ) (Inv : σ → Prop) (C : Call σ ι ρ → Prop) (K : Call σ ι ρ → σ → Prop)
    (hinv : ∀ s i, Inv s → Inv (step s i).2)
    (hstart : ∀ s i, Inv s → C ⟨s, i, (step s i).1, (step s i).2⟩ →
      K ⟨s, i, (step s i).1, (step s i).2⟩ (step s i).2)
    (hkeep : ∀ c s i, K c s → C ⟨s, i, (step s i).1, (step s i).2⟩ → K c (step s i).2) {s : σ} (hs : Inv s)
    (is : List ι) (hall : ∀ c ∈ trace step s is, C c) : ∀ c ∈ trace step s is, K c (final step s is) := by
  induction is generalizing s with
  | nil => intro c hc; cases hc
  | cons i is ih =>
    rw [trace, List.forall_mem_cons] at hall
    intro c hc
    rcases List.mem_cons.mp hc with rfl | hc
    · exact final_invariant_of step _ C (hkeep _) (hstart s i hs hall.1) is hall.2
    · exact ih (hinv s i hs) hall.2 c hc

/-- **Trace rule.** In a run from an `Inv` state, `Inv` holds before every call. -/
theorem trace_invariant (step : σ → ι → ρ × σ) (Inv : σ → Prop)
    (hstep : ∀ s i, Inv s → Inv (step s i).2) {s : σ} (hs : Inv s) (is : List ι) :
    ∀ c ∈ trace step s is, Inv c.before :=
  trace_invariant_of step Inv (fun _ => True) (fun s i h _ => hstep s i h) hs is fun _ _ => trivial

/-- **Exact rule.** If a step from a state that meets `P` leads to one exactly when it meets `C`, then a run
passes through such states only exactly when all its calls meet `C`. -/
theorem forall_after_iff (step : σ → ι → ρ × σ) (Inv P : σ → Prop) (C : Call σ ι ρ → Prop) {is : List ι}
    (hinv : ∀ s, ∀ i ∈ is, Inv s → Inv (step s i).2)
    (hstep : ∀ s, ∀ i ∈ is, Inv s → P s → (P (step s i).2 ↔ C ⟨s, i, (step s i).1, (step s i).2⟩)) {s : σ}
    (hs : Inv s) (hP : P s) : (∀ c ∈ trace step s is, P c.after) ↔ ∀ c ∈ trace step s is, C c := by
  induction is generalizing s with
  | nil => simp [trace]
  | cons i is ih =>
    have hone := hstep s i (List.mem_cons_self ..) hs hP
    have hrest := ih (fun s j hj => hinv s j (List.mem_cons_of_mem _ hj))
      (fun s j hj => hstep s j (List.mem_cons_of_mem _ hj)) (hinv s i (List.mem_cons_self ..) hs)
    rw [trace, List.forall_mem_cons, List.forall_mem_cons]
    dsimp only
    constructor
    · rintro ⟨hafter, hall⟩
      exact ⟨hone.mp hafter, (hrest hafter).mp hall⟩
    · rintro ⟨hcall, hall⟩
      have hafter := hone.mpr hcall
      exact ⟨hafter, (hrest hafter).mpr hall⟩

/-- **Growth rule.** If every step keeps `Inv` and leads upwards in a preorder `R`, then of two calls of a
run the later one starts above the earlier one. -/
theorem pairwise_trace (step : σ → ι → ρ × σ) (Inv : σ → Prop) (C : Call σ ι ρ → Prop) (R : σ → σ → Prop)
    (hrefl : ∀ s, R s s) (htrans : ∀ {s t u}, R s t → R t u → R s u)
    (hstep : ∀ s i, Inv s → C ⟨s, i, (step s i).1, (step s i).2⟩ → Inv (step s i).2 ∧ R s (step s i).2)
    {s : σ} (hs : Inv s) (is : List ι) (hall : ∀ c ∈ trace step s is, C c) :
    (trace step s is).Pairwise fun c c' => Inv c.before ∧ R c.before c'.before := by
  have habove : ∀ (is : List ι) {s : σ}, Inv s → (∀ c ∈ trace step s is, C c) →
      ∀ c ∈ trace step s is, R s c.before := by
    intro is
    induction is with
    | nil =>
      intro s hs hall c hc
      cases hc
    | cons i is ih =>
      intro s hs hall c hc
      rw [trace, List.forall_mem_cons] at hall
      obtain ⟨hnext, hup⟩ := hstep s i hs hall.1
      rcases List.mem_cons.mp hc with rfl | hc
      · exact hrefl s
      · exact htrans hup (ih hnext hall.2 c hc)
  induction is generalizing s with
  | nil => exact .nil
  | cons i is ih =>
    have hcall := hall
    rw [trace, List.forall_mem_cons] at hcall
    obtain ⟨hnext, hup⟩ := hstep s i hs hcall.1
    refine .cons ?_ (ih hnext hcall.2)
    intro c hc
    exact ⟨hs, htrans hup (habove is hnext hcall.2 c hc)⟩

/-- **Budget rule.** If every step pays for the calls that meet `p` out of a budget, a run makes no more
such calls than the budget it starts with. -/
theorem countP_trace_le (step : σ → ι → ρ × σ) (Inv : σ → Prop)
    (hstep : ∀ s i, Inv s → Inv (step s i).2) (p : Call σ ι ρ → Bool) (budget : σ → Nat)
    (hpay : ∀ s i, Inv s →
      budget (step s i).2 + (if p ⟨s, i, (step s i).1, (step s i).2⟩ then 1 else 0) ≤ budget s)
    {s : σ} (hs : Inv s) (is : List ι) : (trace step s is).countP p ≤ budget s := by
  induction is generalizing s with
  | nil => simp [trace]
  | cons i is ih =>
    have hrest := ih (hstep s i hs)
    have hone := hpay s i hs
    rw [trace, List.countP_cons]
    omega

/-- **Counter rule.** A level that rises by one at the calls that meet `p`, and only there, counts them. -/
theorem level_trace (step : σ → ι → ρ × σ) (p : Call σ ι ρ → Bool) (level : σ → Nat)
    (hstep : ∀ s i, level (step s i).2 = level s + (if p ⟨s, i, (step s i).1, (step s i).2⟩ then 1 else 0))
    (s : σ) (is : List ι) : level (final step s is) = level s + (trace step s is).countP p := by
  induction is generalizing s with
  | nil => simp [trace, final]
  | cons i is ih =>
    rw [final, ih, hstep, trace, List.countP_cons]
    omega

/-- **Turnstile rule.** A state property is switched on and off in turn: over a run it is switched on as
often as it is switched off, up to how it stands at the two ends. -/
theorem countP_turns (step : σ → ι → ρ × σ) (P : σ → Bool) (s : σ) (is : List ι) :
    (trace step s is).countP (fun c => !P c.before && P c.after) + (P s).toNat =
      (trace step s is).countP (fun c => P c.before && !P c.after) + (P (final step s is)).toNat := by
  induction is generalizing s with
  | nil => simp [trace, final]
  | cons i is ih =>
    have hrest := ih (step s i).2
    -- one call switches on, switches off, or leaves the property as it is
    have hone : (if (!P s && P (step s i).2) = true then 1 else 0) + (P s).toNat =
        (if (P s && !P (step s i).2) = true then 1 else 0) + (P (step s i).2).toNat := by
      cases P s
      all_goals
        cases P (step s i).2
        all_goals rfl
    rw [trace, final, List.countP_cons, List.countP_cons]
    dsimp only
    omega

/-- **Account rule.** If every step balances what it takes in and pays out against a level, so does a run. -/
theorem account_trace (step : σ → ι → ρ × σ) (level : σ → Nat) (inflow outflow : Call σ ι ρ → Nat)
    (hstep : ∀ s i, level s + inflow ⟨s, i, (step s i).1, (step s i).2⟩ =
      level (step s i).2 + outflow ⟨s, i, (step s i).1, (step s i).2⟩) (s : σ) (is : List ι) :
    level s + ((trace step s is).map inflow).sum =
      level (final step s is) + ((trace step s is).map outflow).sum := by
  induction is generalizing s with
  | nil => simp [trace, final]
  | cons i is ih =>
    have hone := hstep s i
    have hrest := ih (step s i).2
    simp only [trace, final, List.map_cons, List.sum_cons]
    omega

/-- **Lockstep rule.** Two machines that are fed the same inputs. If related states stay related and make
matching calls as long as the first machine's calls meet `C`, and do not match at a call that does not,
then the two runs match call by call exactly when every call of the first meets `C`. -/
theorem forall₂_trace_iff {σ' ρ' : Type} (step : σ → ι → ρ × σ) (step' : σ' → ι → ρ' × σ') (R : σ → σ' → Prop)
    (C : Call σ ι ρ → Prop) (Q : Call σ ι ρ → Call σ' ι ρ' → Prop)
    (hgood : ∀ s s' i, R s s' → C ⟨s, i, (step s i).1, (step s i).2⟩ →
      R (step s i).2 (step' s' i).2 ∧
        Q ⟨s, i, (step s i).1, (step s i).2⟩ ⟨s', i, (step' s' i).1, (step' s' i).2⟩)
    (hbad : ∀ s s' i, R s s' → ¬ C ⟨s, i, (step s i).1, (step s i).2⟩ →
      ¬ Q ⟨s, i, (step s i).1, (step s i).2⟩ ⟨s', i, (step' s' i).1, (step' s' i).2⟩)
    {s : σ} {s' : σ'} (hs : R s s') (is : List ι) :
    List.Forall₂ Q (trace step s is) (trace step' s' is) ↔ ∀ c ∈ trace step s is, C c := by
  induction is generalizing s s' with
  | nil => simp [trace]
  | cons i is ih =>
    rw [trace, trace, List.forall₂_cons, List.forall_mem_cons]
    by_cases hC : C ⟨s, i, (step s i).1, (step s i).2⟩
    · obtain ⟨hnext, hmatch⟩ := hgood s s' i hs hC
      simp only [hmatch, hC, true_and]
      exact ih hnext
    · have hno := hbad s s' i hs hC
      simp only [hno, hC, false_and]

/-- **Skip rule.** A run with and without its hidden inputs. If related states stay related, where a hidden input
moves only the first, and visible inputs have equal results, then so have the visible calls of the two runs. The
relation may speak of the inputs still to come. -/
theorem results_skip (step : σ → ι → ρ × σ) (hidden : ι → Bool) (R : List ι → σ → σ → Prop)
    (hskip : ∀ s s' i is, hidden i = true → R (i :: is) s s' → R is (step s i).2 s')
    (hsame : ∀ s s' i is, hidden i = false → R (i :: is) s s' →
      (step s i).1 = (step s' i).1 ∧ R is (step s i).2 (step s' i).2)
    {s s' : σ} {is : List ι} (hs : R is s s') :
    ((trace step s is).filter fun c => !hidden c.input).map Call.result =
      (trace step s' (is.filter fun i => !hidden i)).map Call.result := by
  induction is generalizing s s' with
  | nil => rfl
  | cons i is ih =>
    cases hi : hidden i with
    | true =>
      have hrest := ih (hskip s s' i is hi hs)
      simpa [trace, hi] using hrest
    | false =>
      obtain ⟨hresult, hnext⟩ := hsame s s' i is hi hs
      have hrest := ih hnext
      simpa [trace, hi, hresult] using hrest

end Run
