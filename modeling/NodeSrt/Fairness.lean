import Mathlib.Data.Multiset.DershowitzManna
import Mathlib.Order.WellFounded
import NodeSrt.Progress

/-! # Fair runs of guarded transition systems

A measure of what is left to do may be of any well-founded order. It then bounds no number of
steps, but no run makes progress for ever, and a fair one comes to where none is left to be
made. -/
namespace TransitionSystem

variable {σ ε α : Type*}

/-- An infinite run: its states and the events between them. -/
structure Machine.Run (M : Machine σ ε) (x : ℕ → σ) (e : ℕ → ε) : Prop where
  enabled : ∀ k, M.Enabled (x k) (e k)
  next : ∀ k, x (k + 1) = M.next (x k) (e k)

/-- Where progress can be made from some moment on, some is made. -/
def Machine.Fair (M : Machine σ ε) (P : σ → ε → Prop) (x : ℕ → σ) (e : ℕ → ε) : Prop :=
  ∀ k, (∀ j ≥ k, ¬ M.Exhausted P (x j)) → ∃ j ≥ k, P (x j) (e j)

/-- Every fair run comes to where `G` holds for good, and so does every finite one that leaves
no progress to be made. -/
structure Machine.Eventually (M : Machine σ ε) (P : σ → ε → Prop) (G : σ → Prop) (s : σ) :
    Prop where
  fair : ∀ x e, x 0 = s → M.Run x e → M.Fair P x e → ∃ n, ∀ k ≥ n, G (x k)
  final : ∀ t, M.Execution s t → M.Exhausted P t → G t

/-- `m` descends in the order `r` wherever `I` holds. -/
structure Machine.Descending (M : Machine σ ε) (P : σ → ε → Prop) (I : σ → Prop)
    (r : α → α → Prop) (m : σ → α) : Prop where
  kept : ∀ s e, I s → M.Enabled s e → I (M.next s e)
  le : ∀ s e, I s → M.Enabled s e → m (M.next s e) = m s ∨ r (m (M.next s e)) (m s)
  lt : ∀ s e, I s → M.Enabled s e → P s e → r (m (M.next s e)) (m s)

variable {M : Machine σ ε} {P : σ → ε → Prop} {I G : σ → Prop} {r : α → α → Prop} {m : σ → α}
  {s : σ} {x : ℕ → σ} {e : ℕ → ε}

theorem Machine.Run.invariant (h : M.Run x e) (h0 : I (x 0))
    (step : ∀ s e, I s → M.Enabled s e → I (M.next s e)) (k : ℕ) : I (x k) := by
  induction k with
  | zero => exact h0
  | succ k ih =>
    rw [h.next k]
    exact step _ _ ih (h.enabled k)

theorem Machine.Run.persists (h : M.Run x e) (hI : ∀ k, I (x k))
    (stable : ∀ s e, I s → G s → M.Enabled s e → G (M.next s e)) {j k : ℕ} (hj : G (x j))
    (hk : j ≤ k) : G (x k) := by
  induction hk with
  | refl => exact hj
  | @step k _ ih =>
    rw [h.next k]
    exact stable _ _ (hI k) ih (h.enabled k)

theorem Machine.Descending.run_le (h : M.Descending P I r m) (hrun : M.Run x e)
    (hI : ∀ k, I (x k)) {j k : ℕ} (hk : j ≤ k) :
    Relation.ReflTransGen r (m (x k)) (m (x j)) := by
  induction hk with
  | refl => exact .refl
  | @step k _ ih =>
    rw [hrun.next k]
    rcases h.le _ _ (hI k) (hrun.enabled k) with heq | hr
    · exact heq ▸ ih
    · exact .head hr ih

theorem Machine.Descending.settles (h : M.Descending P I r m) (hr : WellFounded r)
    (hrun : M.Run x e) (hI : ∀ k, I (x k)) : ∃ n, ∀ k ≥ n, ¬ P (x k) (e k) := by
  obtain ⟨_, ⟨n, rfl⟩, hmin⟩ := hr.transGen.has_min (Set.range fun k => m (x k)) ⟨_, 0, rfl⟩
  refine ⟨n, fun k hk hp => hmin (m (x (k + 1))) ⟨k + 1, rfl⟩ ?_⟩
  have hlt : r (m (x (k + 1))) (m (x k)) := by
    rw [hrun.next k]
    exact h.lt _ _ (hI k) (hrun.enabled k) hp
  exact .head' hlt (h.run_le hrun hI hk)

theorem Machine.Descending.eventually (h : M.Descending P I r m) (hr : WellFounded r) (hs : I s)
    (final : ∀ t, I t → M.Exhausted P t → G t)
    (stable : ∀ t e, I t → G t → M.Enabled t e → G (M.next t e)) : M.Eventually P G s where
  fair := by
    intro x e h0 hrun hfair
    have hI : ∀ k, I (x k) := hrun.invariant (h0 ▸ hs) h.kept
    obtain ⟨n, hn⟩ := h.settles hr hrun hI
    have hsome : ∃ j ≥ n, M.Exhausted P (x j) := by
      by_contra hnone
      obtain ⟨j, hj, hp⟩ := hfair n fun j hj hex => hnone ⟨j, hj, hex⟩
      exact hn j hj hp
    obtain ⟨j, _, hex⟩ := hsome
    exact ⟨j, fun k hk => hrun.persists hI stable (final _ (hI j) hex) hk⟩
  final t ht := final t (ht.invariant hs h.kept)

/-- Losing tokens is a descent as well. -/
theorem lost_lt [Preorder α] {s t : Multiset α} (h : t ≤ s) :
    t = s ∨ Multiset.IsDershowitzMannaLT t s := by
  obtain ⟨l, rfl⟩ := Multiset.le_iff_exists_add.mp h
  by_cases hl : l = 0
  · exact Or.inl (by rw [hl, add_zero])
  · exact Or.inr ⟨t, 0, l, hl, (add_zero t).symm, rfl, by simp⟩

/-- One token is spent for smaller ones, however many. -/
theorem spent_lt [Preorder α] {a : α} {s t l : Multiset α} (ht : t ≤ s + l)
    (hl : ∀ b ∈ l, b < a) : Multiset.IsDershowitzMannaLT t (s + {a}) := by
  classical
  refine ⟨t ∩ s, t - s, s - t + {a}, ?_, ?_, ?_, fun b hb => ⟨a, by simp, hl b ?_⟩⟩
  · simp
  · rw [add_comm, Multiset.sub_add_inter]
  · rw [← add_assoc, Multiset.inter_comm, add_comm (s ∩ t), Multiset.sub_add_inter]
  · exact Multiset.mem_of_le (Multiset.sub_le_iff_le_add'.mpr ht) hb

end TransitionSystem
