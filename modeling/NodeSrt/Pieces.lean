import Mathlib.Data.List.Basic
import Mathlib.Data.Nat.Basic
import Mathlib.Order.Basic

/-! # Cutting a list into pieces

`pieces m l` cuts `l` into consecutive pieces of `m` elements; only the last one may be
shorter, and none is empty. -/
namespace Pieces

variable {α : Type*}

def piecesAux (m : ℕ) : ℕ → List α → List (List α)
  | 0, _ => []
  | n + 1, l => if l.isEmpty then [] else l.take m :: piecesAux m n (l.drop m)

def pieces (m : ℕ) (l : List α) : List (List α) := piecesAux m l.length l

theorem piecesAux_eq_pieces {m n : ℕ} (hm : 0 < m) {l : List α} (hn : l.length ≤ n) :
    piecesAux m n l = pieces m l := by
  have main : ∀ (n k : ℕ) (l : List α), l.length ≤ n → l.length ≤ k →
      piecesAux m n l = piecesAux m k l := by
    intro n
    induction n with
    | zero =>
      intro k l hn _
      have hl : l = [] := List.length_eq_zero_iff.mp (by omega)
      cases k <;> simp [piecesAux, hl]
    | succ n ih =>
      intro k l hn hk
      cases k with
      | zero =>
        have hl : l = [] := List.length_eq_zero_iff.mp (by omega)
        simp [piecesAux, hl]
      | succ k =>
        simp only [piecesAux]
        split
        · rfl
        · rw [ih k _ (by simp only [List.length_drop]; omega)
            (by simp only [List.length_drop]; omega)]
  exact main n l.length l hn le_rfl

@[simp] theorem pieces_nil (m : ℕ) : pieces m ([] : List α) = [] := rfl

theorem pieces_cons {m : ℕ} (hm : 0 < m) {l : List α} (hl : l ≠ []) :
    pieces m l = l.take m :: pieces m (l.drop m) := by
  have hpos := List.length_pos_iff.mpr hl
  obtain ⟨n, hn⟩ := Nat.exists_eq_succ_of_ne_zero hpos.ne'
  rw [pieces, hn, piecesAux, if_neg (by simpa using hl),
    piecesAux_eq_pieces hm (by simp only [List.length_drop]; omega)]

theorem pieces_induction {m : ℕ} (hm : 0 < m) {P : List α → Prop} (nil : P [])
    (cons : ∀ l, l ≠ [] → P (l.drop m) → P l) (l : List α) : P l := by
  induction hn : l.length using Nat.strong_induction_on generalizing l with
  | _ n ih =>
    by_cases hl : l = []
    · exact hl ▸ nil
    · have hpos := List.length_pos_iff.mpr hl
      exact cons l hl (ih (l.drop m).length (by simp only [List.length_drop]; omega) _ rfl)

theorem flatten_pieces {m : ℕ} (hm : 0 < m) (l : List α) : (pieces m l).flatten = l := by
  induction l using pieces_induction hm with
  | nil => rfl
  | cons l hl ih => rw [pieces_cons hm hl, List.flatten_cons, ih, List.take_append_drop]

theorem mem_pieces {m : ℕ} (hm : 0 < m) {l p : List α} (hp : p ∈ pieces m l) :
    p ≠ [] ∧ p.length ≤ m := by
  induction l using pieces_induction hm with
  | nil => simp at hp
  | cons l hl ih =>
    rw [pieces_cons hm hl] at hp
    rcases List.mem_cons.mp hp with rfl | hp
    · refine ⟨?_, List.length_take_le _ _⟩
      simp only [ne_eq, List.take_eq_nil_iff, not_or]
      exact ⟨hm.ne', hl⟩
    · exact ih hp

theorem length_pieces {m : ℕ} (hm : 0 < m) (l : List α) :
    (pieces m l).length = (l.length + m - 1) / m := by
  induction l using pieces_induction hm with
  | nil => simp [Nat.div_eq_of_lt (Nat.sub_lt hm Nat.one_pos)]
  | cons l hl ih =>
    have hpos := List.length_pos_iff.mpr hl
    rw [pieces_cons hm hl, List.length_cons, ih, List.length_drop]
    rcases le_total l.length m with h | h
    · rw [Nat.sub_eq_zero_of_le h, Nat.zero_add, Nat.div_eq_of_lt (by omega),
        show l.length + m - 1 = l.length - 1 + m by omega, Nat.add_div_right _ hm,
        Nat.div_eq_of_lt (by omega)]
    · rw [show l.length + m - 1 = l.length - m + m - 1 + m by omega, Nat.add_div_right _ hm]

theorem length_of_mem_dropLast {m : ℕ} (hm : 0 < m) {l p : List α}
    (hp : p ∈ (pieces m l).dropLast) : p.length = m := by
  induction l using pieces_induction hm with
  | nil => simp at hp
  | cons l hl ih =>
    rw [pieces_cons hm hl] at hp
    by_cases hd : l.drop m = []
    · simp [hd] at hp
    · rw [pieces_cons hm hd, List.dropLast_cons_cons, List.mem_cons] at hp
      rcases hp with rfl | hp
      · have hlen : 0 < (l.drop m).length := List.length_pos_iff.mpr hd
        simp only [List.length_drop] at hlen
        simp only [List.length_take]
        omega
      · apply ih
        rwa [pieces_cons hm hd]

/-- Non-empty pieces that already hold every element are all the pieces. -/
theorem eq_of_prefix_of_flatten_length {ps qs : List (List α)} (h : ps <+: qs)
    (hne : ∀ q ∈ qs, q ≠ []) (hlen : qs.flatten.length ≤ ps.flatten.length) : ps = qs := by
  obtain ⟨rest, rfl⟩ := h
  rw [List.flatten_append, List.length_append] at hlen
  have hrest : rest.flatten = [] := List.length_eq_zero_iff.mp (by omega)
  have hnil : rest = [] := by
    by_contra hcons
    obtain ⟨q, hq⟩ := List.exists_mem_of_ne_nil _ hcons
    exact hne q (List.mem_append_right _ hq) (List.flatten_eq_nil_iff.mp hrest q hq)
  rw [hnil, List.append_nil]

end Pieces
