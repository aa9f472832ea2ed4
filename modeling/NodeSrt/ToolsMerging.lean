import NodeSrt.ToolsSlicing

/-! # When merging is faithful

The check before each chunk looks at where the chunk starts, not at where it ends. So the
last chunk decides: it must start inside the target exactly when everything fits. -/
namespace Tools

open AsyncValues
open Pieces

theorem length_bufferCopy {source target : Bytes} {start : ℕ} (h : start < target.length) :
    (bufferCopy source target start).length = target.length := by
  simp only [bufferCopy, List.length_append, List.length_take, List.length_drop]
  omega

/-- The chunks are refused exactly when the last of them starts past the end. -/
theorem copyLoop_error_iff (chunks : List Bytes) (target : Bytes) (offset : ℕ) :
    (∃ e, copyLoop chunks target offset = .error e) ↔
      chunks ≠ [] ∧ target.length ≤ offset + chunks.dropLast.flatten.length := by
  induction chunks generalizing target offset with
  | nil => simp [copyLoop]
  | cons c chunks ih =>
    rw [copyLoop]
    by_cases hle : target.length ≤ offset
    · rw [if_pos hle]
      exact ⟨fun _ => ⟨List.cons_ne_nil _ _, hle.trans (Nat.le_add_right _ _)⟩, fun _ => ⟨_, rfl⟩⟩
    · rw [if_neg hle, ih, length_bufferCopy (not_le.mp hle)]
      cases chunks with
      | nil =>
        simp only [ne_eq, not_true_eq_false, false_and, List.dropLast_singleton, List.flatten_nil,
          List.length_nil, Nat.add_zero, false_iff, not_and]
        exact fun _ => hle
      | cons d chunks =>
        simp only [ne_eq, reduceCtorEq, not_false_eq_true, true_and, List.dropLast_cons_cons,
          List.flatten_cons, List.length_append]
        omega

theorem bufferCopy_append (source done rest : Bytes) (h : source.length ≤ rest.length) :
    bufferCopy source (done ++ rest) done.length =
      (done ++ source) ++ rest.drop source.length := by
  simp only [bufferCopy, List.length_append, List.take_left, Nat.add_sub_cancel_left,
    List.drop_append, List.drop_eq_nil_of_le (Nat.le_add_right _ _), List.nil_append]
  rw [List.take_of_length_le h]

/-- Chunks that fit and are not refused replace as much of the target. -/
theorem copyLoop_of_fits {chunks : List Bytes} {done rest result : Bytes}
    (hfits : chunks.flatten.length ≤ rest.length)
    (h : copyLoop chunks (done ++ rest) done.length = .ok result) :
    result = done ++ chunks.flatten ++ rest.drop chunks.flatten.length := by
  induction chunks generalizing done rest with
  | nil =>
    cases h
    simp
  | cons c chunks ih =>
    simp only [List.flatten_cons, List.length_append] at hfits
    rw [copyLoop] at h
    split at h
    · cases h
    · rw [bufferCopy_append c done rest (by omega), ← List.length_append] at h
      have hrest := ih (by simp only [List.length_drop]; omega) h
      rw [hrest, List.drop_drop, List.flatten_cons, List.length_append, List.append_assoc done]

/-- A merge that neither truncates nor refuses a target that is large enough. -/
def MergesFaithfully (chunks : List Bytes) (targetBuffer : Option Bytes)
    (result : Except ToolsError Bytes) : Prop :=
  match targetBuffer with
  | none => result = .ok chunks.flatten
  | some t =>
    if chunks.flatten.length ≤ t.length
    then result = .ok (chunks.flatten ++ t.drop chunks.flatten.length)
    else ∃ e, result = .error e

/-- The last chunk starts inside the target exactly when all chunks fit in it. -/
def LastChunkDecides (chunks : List Bytes) (size : ℕ) : Prop :=
  chunks = [] ∨ (chunks.dropLast.flatten.length < size ↔ chunks.flatten.length ≤ size)

instance (chunks : List Bytes) (size : ℕ) : Decidable (LastChunkDecides chunks size) :=
  inferInstanceAs (Decidable (_ ∨ (_ ↔ _)))

theorem copyLoop_faithful_iff (chunks : List Bytes) (t : Bytes) :
    MergesFaithfully chunks (some t) (copyLoop chunks t 0) ↔ LastChunkDecides chunks t.length := by
  have herr := copyLoop_error_iff chunks t 0
  rw [Nat.zero_add] at herr
  have hok : ∀ r, chunks.flatten.length ≤ t.length → copyLoop chunks t 0 = .ok r →
      r = chunks.flatten ++ t.drop chunks.flatten.length := fun r hle he => by
    have hr := @copyLoop_of_fits chunks [] t r hle he
    simpa using hr
  by_cases hfits : chunks.flatten.length ≤ t.length
  · simp only [MergesFaithfully, if_pos hfits]
    constructor
    · intro hr
      by_cases hc : chunks = []
      · exact Or.inl hc
      · refine Or.inr ⟨fun _ => hfits, fun _ => ?_⟩
        by_contra hle
        obtain ⟨e, he⟩ := herr.mpr ⟨hc, not_lt.mp hle⟩
        rw [hr] at he
        cases he
    · intro hdec
      cases hr : copyLoop chunks t 0 with
      | error e =>
        obtain ⟨hc, hle⟩ := herr.mp ⟨e, hr⟩
        rcases hdec with hnil | hiff
        · exact absurd hnil hc
        · exact absurd (hiff.mpr hfits) (not_lt.mpr hle)
      | ok r => rw [hok r hfits hr]
  · have hne : chunks ≠ [] := fun he => hfits (by simp [he])
    simp only [MergesFaithfully, if_neg hfits, herr]
    constructor
    · rintro ⟨-, hle⟩
      exact Or.inr ⟨fun hlt => absurd hlt (not_lt.mpr hle), fun h => absurd h hfits⟩
    · rintro (hnil | hiff)
      · exact absurd hnil hne
      · exact ⟨hne, not_lt.mp fun hlt => hfits (hiff.mp hlt)⟩

theorem copyLoop_fresh (chunks : List Bytes) (r : Except ToolsError Bytes) :
    MergesFaithfully chunks none r ↔
      MergesFaithfully chunks (some (List.replicate (getChunksTotalByteLength chunks) 0)) r := by
  simp [MergesFaithfully, getChunksTotalByteLength_eq]

def targetLength (chunks : List Bytes) : Option Bytes → ℕ
  | none => chunks.flatten.length
  | some t => t.length

/-- A merge is faithful exactly when its last chunk starts inside the target just in case
all chunks fit. -/
theorem copyChunksIntoBuffer_faithful_iff (chunks : List Bytes) (targetBuffer : Option Bytes) :
    MergesFaithfully chunks targetBuffer (copyChunksIntoBuffer chunks targetBuffer) ↔
      LastChunkDecides chunks (targetLength chunks targetBuffer) := by
  cases targetBuffer with
  | none =>
    rw [copyLoop_fresh, copyChunksIntoBuffer, copyLoop_faithful_iff, List.length_replicate,
      getChunksTotalByteLength_eq]
    rfl
  | some t => exact copyLoop_faithful_iff chunks t

/-- Two bytes into a target of one: the second is dropped. -/
theorem merge_truncates :
    ¬ ∀ (chunks : List Bytes) (targetBuffer : Option Bytes),
      MergesFaithfully chunks targetBuffer (copyChunksIntoBuffer chunks targetBuffer) := by
  intro h
  obtain ⟨e, he⟩ : ∃ e, copyChunksIntoBuffer [[1, 2]] (some [0]) = .error e :=
    h [[1, 2]] (some [0])
  cases he

/-! ## Merging what was sliced -/

/-- The slices of a buffer merge back into it. -/
def MergesBack (b : Bytes) (m : ℕ) : Prop :=
  ∃ chunks, sliceBufferToChunks b m b.length 0 = some chunks ∧
    copyChunksIntoBuffer chunks none = .ok b ∧
    ∀ t : Bytes, t.length = b.length → copyChunksIntoBuffer chunks (some t) = .ok b

theorem lastChunkDecides_of_full {chunks : List Bytes} (h : ∀ c ∈ chunks, c ≠ []) :
    LastChunkDecides chunks chunks.flatten.length := by
  rcases List.eq_nil_or_concat chunks with rfl | ⟨cs, c, rfl⟩
  · exact Or.inl rfl
  · have hpos := List.length_pos_iff.mpr (h c (by simp))
    refine Or.inr ?_
    simp only [List.concat_eq_append, List.dropLast_concat, List.flatten_append,
      List.flatten_singleton, List.length_append, le_refl, iff_true]
    omega

/-- Merging undoes slicing exactly when the chunk size divides the length: the empty chunk
that comes last otherwise is refused. -/
theorem merges_back_iff (b : Bytes) (m : ℕ) (hm : 1 ≤ m) : MergesBack b m ↔ m ∣ b.length := by
  have hslice : sliceBufferToChunks b m b.length 0 = some (slices m b) := by
    have heq := sliceBufferToChunks_eq (o := 0) hm (show 0 + b.length ≤ b.length by simp)
    simpa using heq
  have hflat : (slices m b).flatten = b := by
    rw [slices, List.flatten_append, flatten_pieces hm]
    split <;> simp
  have hfaithful := copyChunksIntoBuffer_faithful_iff (slices m b)
  simp only [MergesBack, hslice, Option.some.injEq, exists_eq_left']
  constructor
  · rintro ⟨hnone, -⟩
    by_contra hd
    have he : slices m b = pieces m b ++ [[]] := by simp [slices, hd]
    have hdec := (hfaithful none).mp (by rw [hnone, MergesFaithfully, hflat])
    have hpieces : (pieces m b).flatten = b := flatten_pieces hm b
    simp [LastChunkDecides, targetLength, he, hpieces] at hdec
  · intro hd
    have hne := ((slices_exactPartition_iff hm b).mpr hd).nonempty
    have hdec := lastChunkDecides_of_full hne
    constructor
    · have hnone := (hfaithful none).mpr hdec
      rwa [MergesFaithfully, hflat] at hnone
    · intro t ht
      have hlen := congrArg List.length hflat
      have hsome := (hfaithful (some t)).mpr (by rwa [targetLength, ht, ← hlen])
      rw [MergesFaithfully, hflat, if_pos ht.ge, ← ht, List.drop_length, List.append_nil] at hsome
      exact hsome

theorem merges_back_iff_twoHalves : MergesBack [1, 2, 3, 4] 2 ↔ 2 ∣ 4 :=
  merges_back_iff [1, 2, 3, 4] 2 (by decide)

/-- One byte in chunks of two is refused. -/
theorem short_buffer_is_not_merged_back : ¬ ∀ (b : Bytes) (m : ℕ), 1 ≤ m → MergesBack b m := by
  intro h
  obtain ⟨chunks, hc, hnone, -⟩ := h [1] 2 (by decide)
  have he : sliceBufferToChunks [1] (2 : ℕ) (1 : ℕ) 0 = some [[1], []] := by decide
  cases he.symm.trans hc
  cases hnone

end Tools
