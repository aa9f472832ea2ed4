import NodeSrt.TransitionSystem

/-! # Progress of guarded transition systems

Some steps of a machine make progress: they bring a measure down, and no other step raises
it. What holds where no such step is left is then inevitable. It holds as soon as enough of
them have been made, whatever else happens in between. -/
namespace TransitionSystem

variable {σ ε : Type*}

/-- No step that makes progress is left. -/
def Machine.Exhausted (M : Machine σ ε) (P : σ → ε → Prop) (s : σ) : Prop :=
  ∀ e, M.Enabled s e → ¬ P s e

/-- How many steps of a trace make progress. -/
def Machine.progress (M : Machine σ ε) (P : σ → ε → Prop) [∀ s e, Decidable (P s e)] (s : σ) :
    List ε → ℕ
  | [] => 0
  | e :: es => (if P s e then 1 else 0) + M.progress P (M.next s e) es

/-- All traces make boundedly many steps of progress, and once none is left `G` holds. -/
structure Machine.Inevitable (M : Machine σ ε) (P : σ → ε → Prop) [∀ s e, Decidable (P s e)]
    (G : σ → Prop) (s : σ) : Prop where
  bounded : ∃ n, ∀ es, M.ValidTrace s es → M.progress P s es ≤ n
  final : ∀ t, M.Execution s t → M.Exhausted P t → G t

/-- `m` is a measure of what is left to do wherever `I` holds. -/
structure Machine.Decreasing (M : Machine σ ε) (P : σ → ε → Prop) (I : σ → Prop)
    (m : σ → ℕ) : Prop where
  kept : ∀ s e, I s → M.Enabled s e → I (M.next s e)
  le : ∀ s e, I s → M.Enabled s e → m (M.next s e) ≤ m s
  lt : ∀ s e, I s → M.Enabled s e → P s e → m (M.next s e) < m s

variable {M : Machine σ ε} {P : σ → ε → Prop} {I G : σ → Prop} {m : σ → ℕ} {s : σ}

theorem Machine.Decreasing.execution (h : M.Decreasing P I m) (hs : I s) {t : σ}
    (ht : M.Execution s t) : I t := ht.invariant hs h.kept

variable [∀ s e, Decidable (P s e)]

theorem Machine.ValidTrace.cons {e : ε} {es : List ε} {t : σ} (he : M.Enabled s e)
    (ht : M.next s e = t) (h : M.ValidTrace t es) : M.ValidTrace s (e :: es) := by
  subst ht
  exact ⟨he, h⟩

theorem Machine.progress_cons {e : ε} {es : List ε} {t : σ} (hp : P s e)
    (ht : M.next s e = t) : M.progress P s (e :: es) = M.progress P t es + 1 := by
  subst ht
  rw [Machine.progress, if_pos hp, Nat.add_comm]

theorem Machine.progress_le_cons {e : ε} {es : List ε} {t : σ} (ht : M.next s e = t) :
    M.progress P t es ≤ M.progress P s (e :: es) := by
  subst ht
  exact Nat.le_add_left _ _

/-- Each step of progress is paid for by the measure. -/
theorem Machine.Decreasing.progress_le (h : M.Decreasing P I m) (hs : I s) {es : List ε}
    (hv : M.ValidTrace s es) : M.progress P s es + m (M.runTrace s es) ≤ m s := by
  induction es generalizing s with
  | nil => exact Nat.le_of_eq (Nat.zero_add _)
  | cons e es ih =>
    have hrest := ih (h.kept s e hs hv.1) hv.2
    have hstep : (if P s e then 1 else 0) + m (M.next s e) ≤ m s := by
      split_ifs with hp
      · have := h.lt s e hs hv.1 hp
        omega
      · have := h.le s e hs hv.1
        omega
    simp only [Machine.progress, Machine.runTrace]
    omega

theorem Machine.Decreasing.inevitable (h : M.Decreasing P I m) (hs : I s)
    (final : ∀ t, I t → M.Exhausted P t → G t) : M.Inevitable P G s where
  bounded := ⟨m s, fun _ hv => le_trans (Nat.le_add_right _ _) (h.progress_le hs hv)⟩
  final t ht := final t (h.execution hs ht)

theorem Machine.Inevitable.reached (h : M.Inevitable P G s) :
    ∃ t, M.Execution s t ∧ M.Exhausted P t ∧ G t := by
  obtain ⟨n, hn⟩ := h.bounded
  have hfinal := h.final
  clear h
  induction n generalizing s with
  | zero =>
    refine ⟨s, .refl s, ?_, hfinal s (.refl s) ?_⟩ <;>
    · intro e he hp
      have := hn [e] ⟨he, trivial⟩
      simp [Machine.progress, hp] at this
  | succ n ih =>
    by_cases hex : M.Exhausted P s
    · exact ⟨s, .refl s, hex, hfinal s (.refl s) hex⟩
    · simp only [Machine.Exhausted, not_forall, not_not] at hex
      obtain ⟨e, he, hp⟩ := hex
      obtain ⟨t, ht, hex, hg⟩ := ih (s := M.next s e)
        (fun es hv => by
          have := hn (e :: es) ⟨he, hv⟩
          simp only [Machine.progress, if_pos hp] at this
          omega)
        (fun t ht => hfinal t (.trans (.step he) ht))
      exact ⟨t, .trans (.step he) ht, hex, hg⟩

end TransitionSystem
