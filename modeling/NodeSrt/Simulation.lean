import NodeSrt.TransitionSystem

/-! # Simulation of one machine by another

Each step of the machine below is answered by any number of steps of the machine above,
none of them for what the machine above does not see. -/
namespace TransitionSystem

variable {σ ε τ δ : Type*}

/-- `f` says what the machine above sees of a state, and `I` where the answer is sure. -/
structure Machine.Simulates (N : Machine τ δ) (M : Machine σ ε) (f : σ → τ)
    (I : σ → Prop) : Prop where
  kept : ∀ s e, I s → M.Enabled s e → I (M.next s e)
  answer : ∀ s e, I s → M.Enabled s e → N.Execution (f s) (f (M.next s e))

variable {N : Machine τ δ} {M : Machine σ ε} {f : σ → τ} {I : σ → Prop} {s t : σ}

theorem Machine.Simulates.execution (h : N.Simulates M f I) (hs : I s) (ht : M.Execution s t) :
    I t ∧ N.Execution (f s) (f t) :=
  ht.invariant (I := fun u => I u ∧ N.Execution (f s) (f u)) ⟨hs, .refl _⟩
    fun u e hu he => ⟨h.kept u e hu.1 he, hu.2.trans (h.answer u e hu.1 he)⟩

theorem Machine.Execution.of_eq {u v : τ} (h : v = u) : N.Execution u v := by
  rw [h]
  exact .refl u

end TransitionSystem
