import NodeSrt.AsyncValues
import NodeSrt.Pieces

/-! # The buffer helpers of `tools.ts`

Slicing a buffer into chunks and copying chunks back into one. The slicing loop tests the
offset of the chunk before, so it takes one more, empty, chunk when the length is not a
multiple of the chunk size. -/
namespace Tools

open AsyncValues
open Pieces

/-- `Uint8Array.prototype.slice`: negative positions count from the end, and an end that
does not come after the start gives an empty array. -/
def typedArraySlice (data : Bytes) (start stop : ℤ) : Bytes :=
  let clamp (i : ℤ) : ℕ := (if i < 0 then max (data.length + i) 0 else min i data.length).toNat
  (data.drop (clamp start)).take (clamp stop - clamp start)

/-- The `for` loop, which a negative chunk size never ends; `none` is a run out of fuel. -/
def sliceLoop (srcData : Bytes) (chunkMaxSize byteLength initialOffset : ℤ) :
    ℕ → ℤ → ℤ → List Bytes → Option (List Bytes)
  | 0, _, _, _ => none
  | fuel + 1, offset, relativeOffset, chunks =>
    if relativeOffset < byteLength then
      let relativeOffset := offset - initialOffset
      let size := min chunkMaxSize (byteLength - relativeOffset)
      if size = 0 then some chunks
      else sliceLoop srcData chunkMaxSize byteLength initialOffset fuel (offset + chunkMaxSize)
        relativeOffset (chunks ++ [typedArraySlice srcData offset (offset + size)])
    else some chunks

/-- A loop that ends does so within this fuel, as every turn but the first moves on by
`chunkMaxSize`. -/
def sliceBufferToChunks (srcData : Bytes) (chunkMaxSize byteLength initialOffset : ℤ) :
    Option (List Bytes) :=
  sliceLoop srcData chunkMaxSize byteLength initialOffset (byteLength.toNat + 2) initialOffset 0 []

def getChunksTotalByteLength (chunks : List Bytes) : ℕ :=
  chunks.foldl (fun sumBytes chunk => sumBytes + chunk.length) 0

inductive ToolsError where
  | targetTooSmall
  deriving DecidableEq, Repr

def ToolsError.message : ToolsError → JSString
  | .targetTooSmall => ascii "Target buffer to merge chunks in is too small"

/-- `source.copy(target, targetStart)`, which copies no more than fits. -/
def bufferCopy (source target : Bytes) (targetStart : ℕ) : Bytes :=
  target.take targetStart ++ source.take (target.length - targetStart) ++
    target.drop (targetStart + source.length)

def copyLoop : List Bytes → Bytes → ℕ → Except ToolsError Bytes
  | [], targetBuffer, _ => .ok targetBuffer
  | chunk :: chunks, targetBuffer, offset =>
    if targetBuffer.length ≤ offset then .error .targetTooSmall
    else copyLoop chunks (bufferCopy chunk targetBuffer offset) (offset + chunk.length)

def copyChunksIntoBuffer (chunks : List Bytes) (targetBuffer : Option Bytes) :
    Except ToolsError Bytes :=
  match targetBuffer with
  | none => copyLoop chunks (List.replicate (getChunksTotalByteLength chunks) 0) 0
  | some targetBuffer => copyLoop chunks targetBuffer 0

/-! ## Slicing -/

theorem typedArraySlice_of_le {data : Bytes} {start stop : ℕ} (h : stop ≤ data.length) :
    typedArraySlice data start stop = (data.drop start).take (stop - start) := by
  have hclamp : ∀ i : ℕ, (if (i : ℤ) < 0 then max ((data.length : ℤ) + i) 0
      else min (i : ℤ) data.length).toNat = min i data.length := by
    intro i
    rw [if_neg (by omega)]
    omega
  simp only [typedArraySlice, hclamp, min_eq_left h]
  rcases le_total start data.length with hs | hs
  · rw [min_eq_left hs]
  · rw [min_eq_right hs, Nat.sub_eq_zero_of_le h, Nat.sub_eq_zero_of_le (h.trans hs),
      List.take_zero, List.take_zero]

/-- The slices of a run of the loop: the pieces, and an empty chunk if the last is short. -/
def slices (m : ℕ) (data : Bytes) : List Bytes :=
  pieces m data ++ if m ∣ data.length then [] else [[]]

theorem slices_of_lt {m : ℕ} {data : Bytes} (hpos : data ≠ []) (h : data.length < m) :
    slices m data = [data, []] := by
  have hlen := List.length_pos_iff.mpr hpos
  have hd : ¬ m ∣ data.length := fun hdvd => absurd (Nat.le_of_dvd hlen hdvd) (by omega)
  rw [slices, pieces_cons (by omega) hpos, List.take_of_length_le h.le,
    List.drop_eq_nil_of_le h.le, pieces_nil, if_neg hd]
  rfl

theorem slices_of_le {m : ℕ} {data : Bytes} (hm : 0 < m) (h : m ≤ data.length) :
    slices m data = data.take m :: slices m (data.drop m) := by
  have hne : data ≠ [] := List.length_pos_iff.mp (by omega)
  have hd : m ∣ data.length - m ↔ m ∣ data.length :=
    ⟨fun hdvd => (Nat.sub_add_cancel h) ▸ Nat.dvd_add hdvd (Nat.dvd_refl m),
      fun hdvd => Nat.dvd_sub hdvd (Nat.dvd_refl m)⟩
  simp only [slices, pieces_cons hm hne, List.length_drop, hd, List.cons_append]

theorem slice_eq_take {src : Bytes} {o n p k : ℕ} (hn : o + n ≤ src.length) (hk : p + k ≤ n) :
    typedArraySlice src (o + p : ℕ) (o + p + k : ℕ) =
      (((src.drop o).take n).drop p).take k := by
  rw [typedArraySlice_of_le (by omega), List.drop_take, List.drop_drop, List.take_take]
  congr 1
  omega

theorem sliceLoop_eq {src : Bytes} {m o n : ℕ} (hm : 0 < m) (hn : o + n ≤ src.length)
    {fuel p : ℕ} {rel : ℤ} {chunks : List Bytes} (hp : p ≤ n) (hrel : rel < n)
    (hfuel : n - p + 2 ≤ fuel) :
    sliceLoop src m n o fuel (o + p : ℕ) rel chunks =
      some (chunks ++ slices m (((src.drop o).take n).drop p)) := by
  induction hk : n - p using Nat.strong_induction_on generalizing p fuel rel chunks with
  | _ k ih =>
    obtain ⟨fuel, rfl⟩ : ∃ f, fuel = f + 1 := ⟨fuel - 1, by omega⟩
    have hoff : ((o + p : ℕ) : ℤ) - o = p := by omega
    have hlen : (((src.drop o).take n).drop p).length = n - p := by
      simp only [List.length_drop, List.length_take]
      omega
    rw [sliceLoop, if_pos hrel, hoff]
    rcases hp.eq_or_lt with rfl | hlt
    · have hnil : ((src.drop o).take p).drop p = [] := List.length_eq_zero_iff.mp (by omega)
      simp [slices, hnil]
    · rw [if_neg (by omega : ¬ min (m : ℤ) (n - p) = 0)]
      rcases le_or_gt m (n - p) with hle | hgt
      · -- a whole chunk is left, and the loop goes on with what comes after it
        have hmin : ((o + p : ℕ) : ℤ) + min (m : ℤ) (n - p) = (o + p + m : ℕ) := by omega
        have hnext : ((o + p : ℕ) : ℤ) + m = (o + (p + m) : ℕ) := by omega
        have hcut : slices m (((src.drop o).take n).drop p) = _ := slices_of_le hm (by omega)
        rw [hmin, slice_eq_take hn (by omega), hnext,
          ih (n - (p + m)) (by omega) (by omega) (by omega) (by omega) rfl, hcut, List.drop_drop,
          List.append_assoc, List.singleton_append]
      · -- the rest is shorter than a chunk, and one more turn slices past the end
        have hmin : ((o + p : ℕ) : ℤ) + min (m : ℤ) (n - p) = (o + p + (n - p) : ℕ) := by omega
        obtain ⟨fuel, rfl⟩ : ∃ f, fuel = f + 2 := ⟨fuel - 2, by omega⟩
        have hend : ((o + p : ℕ) : ℤ) + m + min (m : ℤ) (n - (((o + p : ℕ) : ℤ) + m - o)) =
            (o + n : ℕ) := by omega
        have hstart : ((o + p : ℕ) : ℤ) + m = (o + p + m : ℕ) := by omega
        have hcut : slices m (((src.drop o).take n).drop p) = _ :=
          slices_of_lt (List.length_pos_iff.mp (by omega)) (by omega)
        rw [hmin, slice_eq_take hn (by omega), sliceLoop, if_pos (by omega), if_neg (by omega),
          hend, hstart, typedArraySlice_of_le (by omega), sliceLoop, if_neg (by omega), hcut,
          List.take_of_length_le (by omega), Nat.sub_eq_zero_of_le (by omega), List.take_zero,
          List.append_assoc]
        rfl

/-- What `sliceBufferToChunks` returns for a range inside the buffer. -/
theorem sliceBufferToChunks_eq {src : Bytes} {m o n : ℕ} (hm : 0 < m)
    (hn : o + n ≤ src.length) :
    sliceBufferToChunks src m n o = some (slices m ((src.drop o).take n)) := by
  rcases Nat.eq_zero_or_pos n with rfl | hpos
  · simp [sliceBufferToChunks, sliceLoop, slices]
  · have h : sliceLoop src m n o (n + 2) (o + 0 : ℕ) 0 [] = _ :=
      sliceLoop_eq hm hn (by omega) (by omega) (by omega)
    simpa [sliceBufferToChunks] using h

/-! ## Merging -/

theorem getChunksTotalByteLength_eq (chunks : List Bytes) :
    getChunksTotalByteLength chunks = chunks.flatten.length := by
  have main : ∀ (chunks : List Bytes) (n : ℕ),
      chunks.foldl (fun sumBytes chunk => sumBytes + chunk.length) n =
        n + chunks.flatten.length := by
    intro chunks
    induction chunks with
    | nil => simp
    | cons chunk chunks ih =>
      intro n
      simp only [List.foldl_cons, ih, List.flatten_cons, List.length_append]
      omega
  simpa [getChunksTotalByteLength] using main chunks 0

theorem copyLoop_eq {chunks : List Bytes} (hne : ∀ c ∈ chunks, c ≠ []) {done rest : Bytes}
    (hlen : rest.length = chunks.flatten.length) :
    copyLoop chunks (done ++ rest) done.length = .ok (done ++ chunks.flatten) := by
  induction chunks generalizing done rest with
  | nil =>
    have hrest : rest = [] := List.length_eq_zero_iff.mp (by simpa using hlen)
    simp [copyLoop, hrest]
  | cons c chunks ih =>
    have hpos := List.length_pos_iff.mpr (hne c List.mem_cons_self)
    simp only [List.flatten_cons, List.length_append] at hlen
    have hcopy : bufferCopy c (done ++ rest) done.length = (done ++ c) ++ rest.drop c.length := by
      simp only [bufferCopy, List.length_append, List.take_left, Nat.add_sub_cancel_left,
        List.drop_append, List.drop_eq_nil_of_le (Nat.le_add_right _ _), List.nil_append]
      rw [List.take_of_length_le (by omega)]
    rw [copyLoop, if_neg (by simp only [List.length_append]; omega), hcopy,
      ← List.length_append, ih (fun d hd => hne d (List.mem_cons_of_mem _ hd))
        (by simp only [List.length_drop]; omega)]
    simp [List.append_assoc]

theorem copyChunksIntoBuffer_eq {chunks : List Bytes} (hne : ∀ c ∈ chunks, c ≠ []) :
    copyChunksIntoBuffer chunks none = .ok chunks.flatten := by
  have h : copyLoop chunks ([] ++ List.replicate (getChunksTotalByteLength chunks) 0) 0 = _ :=
    copyLoop_eq hne (by rw [List.length_replicate, getChunksTotalByteLength_eq])
  simpa [copyChunksIntoBuffer] using h

end Tools
