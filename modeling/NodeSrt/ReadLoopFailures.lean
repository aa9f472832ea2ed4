import Mathlib.Data.Nat.Find
import NodeSrt.ReadLoopResults

/-! # Reads that fail

The flag that is there to end the loop after a failure is never set, so only bytes do. A
sequence of outcomes decides the whole call. -/
namespace ReadLoop

open AsyncValues
open TransitionSystem
open AsyncApi
open ReadModes

variable (p : ReadArgs) (o : ℕ → ReturnValue × Bool)

def outcomes (n : ℕ) : List ReturnValue := (List.range n).map fun i => (o i).1

/-- The call once so many outcomes are there for it; it takes none when it has settled. -/
def run : ℕ → Loop
  | 0 => (loopMachine p).next initial .begin
  | n + 1 =>
    if (run n).reading then (loopMachine p).next (run n) (.resume (o n).1 (o n).2) else run n

/-- The loop is over after finitely many reads and returns the chunks collected, and after a
reported failure the next failing read ends it. -/
structure EndsOnFailure : Prop where
  finitely_many : ∃ n, ∀ m, n ≤ m → (run p o m).reads = (run p o n).reads
  returns : ∃ n, (run p o n).returned = some (.fulfilled (byteArrays (outcomes o n)))
  second_failure : ∀ i j, i < j → Fails (o i).1 → Fails (o j).1 → (run p o j).reading = true →
    (run p o (j + 1)).returned = some (.fulfilled (byteArrays (outcomes o j)))

/-- The byte arrays before the second failure reach the wanted total, with nothing before that
makes the loop reject. -/
def EnoughBeforeSecondFailure : Prop :=
  ∃ k, p.minBytesRead ≤ totalLength (byteArrays (outcomes o k)) ∧
    (∀ i < k, Passes p (o i).1 (o i).2) ∧
    ∀ i j, i < j → j < k → Fails (o i).1 → ¬ Fails (o j).1

def GoesOn (n : ℕ) : Prop :=
  (∀ i < n, Passes p (o i).1 (o i).2) ∧
    ∀ k ≤ n, (totalLength (byteArrays (outcomes o k)) : ℤ) < p.minBytesRead

variable {p o} {n m : ℕ}

theorem run_execution (n : ℕ) : (loopMachine p).Execution initial (run p o n) := by
  induction n with
  | zero => exact .step rfl
  | succ n ih =>
    rw [run]
    split
    · rename_i h
      exact ih.tail h
    · exact ih

@[simp] theorem outcomes_succ (n : ℕ) : outcomes o (n + 1) = outcomes o n ++ [(o n).1] := by
  simp [outcomes, List.range_succ]

theorem run_succ_of_reading (h : (run p o n).reading = true) :
    run p o (n + 1) = (run p o n).resume p (o n).1 (o n).2 := if_pos h

theorem run_of_idle (h : (run p o n).reading = false) (hle : n ≤ m) : run p o m = run p o n := by
  induction m, hle using Nat.le_induction with
  | base => rfl
  | succ m _ ih => rw [run, ih, if_neg (by simp [h])]

theorem GoesOn.mono (h : GoesOn p o n) (hle : m ≤ n) : GoesOn p o m :=
  ⟨fun i hi => h.1 i (hi.trans_le hle), fun k hk => h.2 k (hk.trans hle)⟩

theorem goesOn_succ_iff : GoesOn p o (n + 1) ↔ GoesOn p o n ∧ Passes p (o n).1 (o n).2 ∧
    (totalLength (byteArrays (outcomes o (n + 1))) : ℤ) < p.minBytesRead := by
  constructor
  · intro h
    exact ⟨h.mono (Nat.le_succ n), h.1 n (Nat.lt_succ_self n), h.2 _ le_rfl⟩
  · rintro ⟨h, hp, hlt⟩
    constructor
    · intro i hi
      rcases Nat.lt_succ_iff_lt_or_eq.mp hi with hi | rfl
      · exact h.1 i hi
      · exact hp
    · intro k hk
      rcases Nat.le_succ_iff.mp hk with hk | rfl
      · exact h.2 k hk
      · exact hlt

/-- As long as the outcomes go on the loop awaits the next read, and then no more. -/
theorem run_spec (n : ℕ) : (GoesOn p o n → run p o n = awaiting p (outcomes o n)) ∧
    (¬ GoesOn p o n → (run p o n).reading = false) := by
  induction n with
  | zero =>
    have hzero : GoesOn p o 0 ↔ 0 < p.minBytesRead := by
      simp [GoesOn, outcomes, byteArrays, totalLength]
    rw [hzero]
    change (_ → Loop.loopHead p { initial with started := true } = _) ∧
      (_ → (Loop.loopHead p { initial with started := true }).reading = false)
    rcases begin_cases (p := p) with ⟨hlt, hs⟩ | ⟨hle, hs⟩
    · exact ⟨fun _ => hs, fun hn => absurd hlt hn⟩
    · exact ⟨fun hlt => absurd hlt (not_lt.mpr hle), fun _ => hs.idle.1⟩
  | succ n ih =>
    rw [goesOn_succ_iff, outcomes_succ]
    by_cases hg : GoesOn p o n
    · have hrun := ih.1 hg
      rw [run_succ_of_reading (by rw [hrun]; rfl), hrun]
      by_cases hp : Passes p (o n).1 (o n).2
      · rcases resume_of_passes (outcomes o n) hp with ⟨hlt, hs⟩ | ⟨hle, hs⟩
        · exact ⟨fun _ => hs, fun hn => absurd ⟨hg, hp, hlt⟩ hn⟩
        · exact ⟨fun h => absurd h.2.2 (not_lt.mpr hle), fun _ => hs.idle.1⟩
      · obtain ⟨e, hs, -⟩ := resume_of_not_passes (outcomes o n) hp
        exact ⟨fun h => absurd h.2.1 hp, fun _ => hs.idle.1⟩
    · have hidle := ih.2 hg
      rw [run_of_idle hidle (Nat.le_succ n)]
      exact ⟨fun h => absurd h.1 hg, fun _ => hidle⟩

theorem reading_iff (n : ℕ) : (run p o n).reading = true ↔ GoesOn p o n := by
  constructor
  · intro h
    by_contra hn
    rw [(run_spec n).2 hn] at h
    cases h
  · intro h
    rw [(run_spec n).1 h]
    rfl

theorem totalLength_of_fails (h : Fails (o n).1) :
    totalLength (byteArrays (outcomes o (n + 1))) = totalLength (byteArrays (outcomes o n)) := by
  rw [outcomes_succ, byteArrays_concat, h.byteArray, Option.toList_none, List.append_nil]

theorem run_of_enough (h : p.minBytesRead ≤ totalLength (byteArrays (outcomes o n)))
    (hp : ∀ i < n, Passes p (o i).1 (o i).2)
    (hlt : ∀ k < n, (totalLength (byteArrays (outcomes o k)) : ℤ) < p.minBytesRead) :
    (run p o n).returned = some (.fulfilled (byteArrays (outcomes o n))) ∧
      (run p o n).reading = false := by
  cases n with
  | zero =>
    have hle : p.minBytesRead ≤ 0 := by simpa [outcomes, byteArrays, totalLength] using h
    rcases begin_cases (p := p) with ⟨hpos, -⟩ | ⟨-, hs⟩
    · exact absurd hpos (not_lt.mpr hle)
    · exact ⟨hs.returned, hs.idle.1⟩
  | succ n =>
    have hg : GoesOn p o n := ⟨fun i hi => hp i (hi.trans (Nat.lt_succ_self n)),
      fun k hk => hlt k (Nat.lt_succ_of_le hk)⟩
    have hrun := (run_spec n).1 hg
    rw [run_succ_of_reading (by rw [hrun]; rfl), hrun]
    rw [outcomes_succ] at h ⊢
    rcases resume_of_passes (outcomes o n) (hp n (Nat.lt_succ_self n)) with
      ⟨hlt, -⟩ | ⟨-, hs⟩
    · exact absurd hlt (not_lt.mpr h)
    · exact ⟨hs.returned, hs.idle.1⟩

/-- Outcomes that never reach the total make the loop read on for ever. -/
theorem reads_forever (hp : ∀ i, Passes p (o i).1 (o i).2)
    (hlt : ∀ k, (totalLength (byteArrays (outcomes o k)) : ℤ) < p.minBytesRead) (n : ℕ) :
    (run p o n).reads = n + 1 ∧ (run p o n).reading = true := by
  rw [(run_spec n).1 ⟨fun i _ => hp i, fun k _ => hlt k⟩]
  exact ⟨by simp [awaiting, outcomes], rfl⟩

theorem enough_of_fulfilled {chunks : List Bytes}
    (h : (run p o n).returned = some (.fulfilled chunks)) :
    ∃ k ≤ n, p.minBytesRead ≤ totalLength (byteArrays (outcomes o k)) ∧
      (∀ i < k, Passes p (o i).1 (o i).2) ∧ ∀ i < k, GoesOn p o i := by
  induction n with
  | zero =>
    refine ⟨0, le_rfl, ?_, by simp, by simp⟩
    rcases begin_cases (p := p) with ⟨-, hs⟩ | ⟨hle, -⟩
    · change (Loop.loopHead p { initial with started := true }).returned = _ at h
      rw [hs] at h
      cases h
    · simpa [outcomes, byteArrays, totalLength] using hle
  | succ n ih =>
    by_cases hg : GoesOn p o n
    · have hrun := (run_spec n).1 hg
      rw [run_succ_of_reading (by rw [hrun]; rfl), hrun] at h
      by_cases hp : Passes p (o n).1 (o n).2
      · rcases resume_of_passes (outcomes o n) hp with ⟨-, hs⟩ | ⟨hle, -⟩
        · rw [hs] at h
          cases h
        · refine ⟨n + 1, le_rfl, by rwa [outcomes_succ], fun i hi => ?_, fun i hi => ?_⟩
          · rcases Nat.lt_succ_iff_lt_or_eq.mp hi with hi | rfl
            · exact hg.1 i hi
            · exact hp
          · exact hg.mono (Nat.lt_succ_iff.mp hi)
      · obtain ⟨e, hs, -⟩ := resume_of_not_passes (outcomes o n) hp
        rw [hs.returned] at h
        cases h
    · rw [run_of_idle ((run_spec n).2 hg) (Nat.le_succ n)] at h
      obtain ⟨k, hk, hrest⟩ := ih h
      exact ⟨k, hk.trans (Nat.le_succ n), hrest⟩

theorem EndsOnFailure.enough (h : EndsOnFailure p o) : EnoughBeforeSecondFailure p o := by
  obtain ⟨n, hn⟩ := h.returns
  obtain ⟨k, -, hle, hp, hg⟩ := enough_of_fulfilled hn
  refine ⟨k, hle, hp, fun i j hij hjk hi hj => ?_⟩
  have hend := h.second_failure i j hij hi hj ((reading_iff j).mpr (hg j hjk))
  have hnext : GoesOn p o (j + 1) := by
    refine goesOn_succ_iff.mpr ⟨hg j hjk, hp j hjk, ?_⟩
    rw [totalLength_of_fails hj]
    exact (hg j hjk).2 j le_rfl
  rw [(run_spec (j + 1)).1 hnext] at hend
  cases hend

theorem EnoughBeforeSecondFailure.ends (h : EnoughBeforeSecondFailure p o) :
    EndsOnFailure p o := by
  classical
  obtain ⟨k, hk, hp, hfail⟩ := h
  have hex : ∃ k, p.minBytesRead ≤ totalLength (byteArrays (outcomes o k)) := ⟨k, hk⟩
  have hmin : Nat.find hex ≤ k := Nat.find_min' hex hk
  obtain ⟨hret, hidle⟩ := run_of_enough (Nat.find_spec hex)
    (fun i hi => hp i (hi.trans_le hmin)) fun i hi => not_le.mp (Nat.find_min hex hi)
  refine ⟨⟨_, fun m hm => by rw [run_of_idle hidle hm]⟩, ⟨_, hret⟩, ?_⟩
  intro i j hij hi hj hreading
  have hlt : j < Nat.find hex := by
    by_contra hge
    rw [run_of_idle hidle (not_lt.mp hge), hidle] at hreading
    cases hreading
  exact absurd hj (hfail i j hij (hlt.trans_le hmin) hi)

/-- The loop ends as it should exactly when bytes end it before its flag would have had to. -/
theorem endsOnFailure_iff (p : ReadArgs) (o : ℕ → ReturnValue × Bool) :
    EndsOnFailure p o ↔ EnoughBeforeSecondFailure p o :=
  ⟨EndsOnFailure.enough, EnoughBeforeSecondFailure.ends⟩

/-- One byte is wanted from a socket whose reads all fail. -/
theorem dead_socket_is_read_forever :
    ¬ ∀ (p : ReadArgs) (o : ℕ → ReturnValue × Bool),
      (∃ N, ∀ n, N ≤ n → Fails (o n).1) → EndsOnFailure p o := by
  intro h
  have hdead := h (ReaderWriter.readChunks (.number 1) 1) (fun _ => (.number SRT_ERROR, false))
    ⟨0, fun _ _ => Or.inl rfl⟩
  obtain ⟨n, hn⟩ := hdead.returns
  have hbytes : ∀ k, byteArrays (outcomes (fun _ => (.number SRT_ERROR, false)) k) = [] := by
    intro k
    induction k with
    | zero => rfl
    | succ k ih => rw [outcomes_succ, byteArrays_concat, ih]; rfl
  have hread := reads_forever (p := ReaderWriter.readChunks (.number 1) 1)
    (o := fun _ => (.number SRT_ERROR, false)) (fun i => by decide)
    (fun k => by rw [hbytes]; decide) n
  rw [(run_spec n).1 ((reading_iff n).mp hread.2)] at hn
  cases hn

end ReadLoop
