import Mathlib.Data.Nat.Basic
import Mathlib.Logic.Relation

/-! # Guarded transition systems

A machine is a guard and an effect for each event. Runs are the reflexive and
transitive closure of its steps, so Mathlib's closure lemmas apply to them.
Restricting a machine to a set of steps is how an assumption on a run is stated. -/
namespace TransitionSystem

structure Machine (σ ε : Type*) where
  Enabled : σ → ε → Prop
  next : σ → ε → σ

variable {σ ε : Type*}

def Machine.Step (M : Machine σ ε) (s : σ) (e : ε) (t : σ) : Prop :=
  M.Enabled s e ∧ t = M.next s e

def Machine.Execution (M : Machine σ ε) : σ → σ → Prop :=
  Relation.ReflTransGen fun s t => ∃ e, M.Step s e t

/-- The runs of `M.restrict C` are the runs of `M` whose steps all meet `C`. -/
def Machine.restrict (M : Machine σ ε) (C : σ → ε → Prop) : Machine σ ε where
  Enabled s e := M.Enabled s e ∧ C s e
  next := M.next

variable {M : Machine σ ε}

theorem Machine.Execution.refl (s : σ) : M.Execution s s := Relation.ReflTransGen.refl

theorem Machine.Execution.step {s : σ} {e : ε} (h : M.Enabled s e) :
    M.Execution s (M.next s e) := Relation.ReflTransGen.single ⟨e, h, rfl⟩

theorem Machine.Execution.trans {s t u : σ} (h : M.Execution s t) (k : M.Execution t u) :
    M.Execution s u := Relation.ReflTransGen.trans h k

theorem Machine.Execution.tail {s t : σ} {e : ε} (h : M.Execution s t) (k : M.Enabled t e) :
    M.Execution s (M.next t e) := h.trans (.step k)

theorem Machine.Execution.invariant {I : σ → Prop} {s t : σ} (h : M.Execution s t) (hs : I s)
    (step : ∀ u e, I u → M.Enabled u e → I (M.next u e)) : I t := by
  induction h with
  | refl => exact hs
  | tail _ h ih =>
    obtain ⟨e, he, rfl⟩ := h
    exact step _ e ih he

theorem Machine.Execution.of_restrict {C : σ → ε → Prop} {s t : σ}
    (h : (M.restrict C).Execution s t) : M.Execution s t :=
  Relation.ReflTransGen.mono (fun _ _ ⟨e, he, ht⟩ => ⟨e, he.1, ht⟩) _ _ h

def Machine.runTrace (M : Machine σ ε) (s : σ) : List ε → σ
  | [] => s
  | e :: es => M.runTrace (M.next s e) es

theorem Machine.runTrace_restrict (C : σ → ε → Prop) (s : σ) (es : List ε) :
    (M.restrict C).runTrace s es = M.runTrace s es := by
  induction es generalizing s with
  | nil => rfl
  | cons e es ih => exact ih (M.next s e)

def Machine.ValidTrace (M : Machine σ ε) (s : σ) : List ε → Prop
  | [] => True
  | e :: es => M.Enabled s e ∧ M.ValidTrace (M.next s e) es

instance Machine.decidableValidTrace (M : Machine σ ε) [∀ s e, Decidable (M.Enabled s e)]
    (s : σ) : (es : List ε) → Decidable (M.ValidTrace s es)
  | [] => isTrue trivial
  | e :: es =>
    have := Machine.decidableValidTrace M (M.next s e) es
    inferInstanceAs (Decidable (_ ∧ _))

instance Machine.decidableRestrict (M : Machine σ ε) (C : σ → ε → Prop)
    [∀ s e, Decidable (M.Enabled s e)] [∀ s e, Decidable (C s e)] (s : σ) (e : ε) :
    Decidable ((M.restrict C).Enabled s e) :=
  inferInstanceAs (Decidable (_ ∧ _))

theorem Machine.length_le_of_decreasing {I : σ → Prop} {m : σ → ℕ}
    (step : ∀ u e, I u → M.Enabled u e → I (M.next u e) ∧ m (M.next u e) < m u) {s : σ}
    {es : List ε} (hs : I s) (h : M.ValidTrace s es) : es.length ≤ m s := by
  induction es generalizing s with
  | nil => exact Nat.zero_le _
  | cons e es ih =>
    obtain ⟨hnext, hlt⟩ := step s e hs h.1
    exact le_trans (Nat.succ_le_succ (ih hnext h.2)) hlt

/-- What holds at the start of a trace and is kept by every step, also when it looks at the
number of events of a kind so far. -/
theorem Machine.ValidTrace.counting {P : ε → Bool} {I : σ → ℕ → Prop}
    (step : ∀ u e k, I u k → M.Enabled u e → I (M.next u e) (k + if P e then 1 else 0))
    {s : σ} {es : List ε} {k : ℕ} (h : M.ValidTrace s es) (hs : I s k) :
    I (M.runTrace s es) (k + es.countP P) := by
  induction es generalizing s k with
  | nil => exact hs
  | cons e es ih =>
    have hrest := ih h.2 (step s e k hs h.1)
    rw [List.countP_cons, Nat.add_comm (es.countP P), ← Nat.add_assoc]
    exact hrest

theorem Machine.execution_of_trace (M : Machine σ ε) (s : σ) (es : List ε)
    (h : M.ValidTrace s es) : M.Execution s (M.runTrace s es) := by
  induction es generalizing s with
  | nil => exact .refl s
  | cons e es ih => exact (Execution.step h.1).trans (ih _ h.2)

end TransitionSystem
