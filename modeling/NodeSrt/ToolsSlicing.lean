import NodeSrt.Tools

/-! # When slicing is a partition

The slices of a range partition it when the chunk size divides its length. Otherwise one
more, empty, chunk comes after them. -/
namespace Tools

open AsyncValues
open Pieces

/-- The chunks are `data` cut at the multiples of `m`. -/
structure ExactPartition (data : Bytes) (m : ℕ) (chunks : List Bytes) : Prop where
  concatenation : chunks.flatten = data
  nonempty : ∀ c ∈ chunks, c ≠ []
  bounded : ∀ c ∈ chunks, c.length ≤ m
  full : ∀ c ∈ chunks.dropLast, c.length = m
  count : chunks.length = (data.length + m - 1) / m

theorem pieces_exactPartition {m : ℕ} (hm : 0 < m) (data : Bytes) :
    ExactPartition data m (pieces m data) where
  concatenation := flatten_pieces hm data
  nonempty _ hc := (mem_pieces hm hc).1
  bounded _ hc := (mem_pieces hm hc).2
  full _ hc := length_of_mem_dropLast hm hc
  count := length_pieces hm data

theorem slices_exactPartition_iff {m : ℕ} (hm : 0 < m) (data : Bytes) :
    ExactPartition data m (slices m data) ↔ m ∣ data.length := by
  constructor
  · intro h
    by_contra hd
    have hmem : [] ∈ slices m data := by simp [slices, hd]
    exact h.nonempty [] hmem rfl
  · intro hd
    have he : slices m data = pieces m data := by simp [slices, hd]
    rw [he]
    exact pieces_exactPartition hm data

/-- The call ends, and its chunks partition the range exactly when the chunk size divides
the length of the range. -/
theorem sliceBufferToChunks_partition_iff (src : Bytes) (m o n : ℕ) (hm : 1 ≤ m)
    (hn : o + n ≤ src.length) :
    (∃ chunks, sliceBufferToChunks src m n o = some chunks ∧
      ExactPartition ((src.drop o).take n) m chunks) ↔ m ∣ n := by
  have hlen : ((src.drop o).take n).length = n := by
    simp only [List.length_take, List.length_drop]
    omega
  rw [sliceBufferToChunks_eq hm hn]
  simp only [Option.some.injEq, exists_eq_left']
  rw [slices_exactPartition_iff hm, hlen]

theorem sliceBufferToChunks_partition_iff_twoHalves :
    (∃ chunks, sliceBufferToChunks [1, 2, 3, 4] 2 4 0 = some chunks ∧
      ExactPartition [1, 2, 3, 4] 2 chunks) ↔ 2 ∣ 4 :=
  sliceBufferToChunks_partition_iff [1, 2, 3, 4] 2 0 4 (by decide) (by decide)

/-- Three bytes in chunks of two make a third, empty, chunk. -/
theorem odd_length_makes_empty_chunk :
    ¬ ∀ (src : Bytes) (m o n : ℕ), 1 ≤ m → o + n ≤ src.length →
      ∃ chunks, sliceBufferToChunks src m n o = some chunks ∧
        ExactPartition ((src.drop o).take n) m chunks := by
  intro h
  obtain ⟨chunks, hc, hp⟩ := h [1, 2, 3] 2 0 3 (by decide) (by decide)
  have he : sliceBufferToChunks [1, 2, 3] (2 : ℕ) (3 : ℕ) (0 : ℕ) = some [[1, 2], [3], []] := by
    decide
  rw [he] at hc
  cases hc
  exact hp.nonempty [] (by decide) rfl

end Tools
