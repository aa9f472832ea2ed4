import NodeSrt.ReadLoop

/-! # What the read loop returns

Between its reads the loop is a function of what they came to. A step takes it to the same
function of one outcome more, or ends it, so every state of a run has one of a few shapes. -/
namespace ReadLoop

open AsyncValues
open TransitionSystem
open AsyncApi
open ReadModes

variable (p : ReadArgs)

def failures (outcomes : List ReturnValue) : List ReturnValue :=
  outcomes.filter fun r => decide (Fails r)

def awaiting (outcomes : List ReturnValue) : Loop where
  bytesRead := totalLength (byteArrays outcomes)
  chunks := byteArrays outcomes
  anyFailures := false
  started := true
  reading := true
  reads := outcomes.length + 1
  consumed := outcomes
  onReads := if p.onRead then byteArrays outcomes else []
  onErrors := if p.onError then failures outcomes else []
  returned := none

/-- All of these outcomes are taken in without reaching the wanted total on the way. -/
structure Going (outcomes : List ReturnValue) : Prop where
  expected : ∀ r ∈ outcomes, ¬ Unexpected r
  below : ∀ before, before <+: outcomes →
    (totalLength (byteArrays before) : ℤ) < p.minBytesRead

def Passes (r : ReturnValue) (threw : Bool) : Prop :=
  ¬ Unexpected r ∧ handlerThrows p r threw = false

instance (r : ReturnValue) (threw : Bool) : Decidable (Passes p r threw) :=
  inferInstanceAs (Decidable (_ ∧ _))

/-- The call has settled after these outcomes and so many reads. -/
structure SettledWith (outcomes : List ReturnValue) (reads : ℕ) (outcome : ReadOutcome) (s : Loop) :
    Prop where
  idle : s.reading = false ∧ s.started = true
  returned : s.returned = some outcome
  reads : s.reads = reads
  consumed : s.consumed = outcomes
  onReads : s.onReads = if p.onRead then byteArrays outcomes else []
  onErrors : s.onErrors = if p.onError then failures outcomes else []

variable {p} {s : Loop} {outcomes : List ReturnValue} {r : ReturnValue} {threw : Bool}

theorem byteArrays_concat (outcomes : List ReturnValue) (r : ReturnValue) :
    byteArrays (outcomes ++ [r]) = byteArrays outcomes ++ (byteArray r).toList := by
  cases r <;> simp [byteArrays, byteArray]

theorem totalLength_concat (chunks : List Bytes) (readBuf : Bytes) :
    totalLength (chunks ++ [readBuf]) = totalLength chunks + readBuf.length := by
  simp [totalLength]

theorem failures_concat (outcomes : List ReturnValue) (r : ReturnValue) :
    failures (outcomes ++ [r]) = failures outcomes ++ if Fails r then [r] else [] := by
  simp only [failures, List.filter_append]
  by_cases h : Fails r <;> simp [h]

theorem not_fails_bytes (readBuf : Bytes) : ¬ Fails (.bytes readBuf) := by simp [Fails]

theorem not_unexpected_bytes (readBuf : Bytes) : ¬ Unexpected (.bytes readBuf) := by
  simp [Unexpected, byteArray]

theorem Going.concat (h : Going p outcomes) (hr : ¬ Unexpected r)
    (hlt : (totalLength (byteArrays (outcomes ++ [r])) : ℤ) < p.minBytesRead) :
    Going p (outcomes ++ [r]) := by
  constructor
  · intro r' hr'
    rcases List.mem_append.mp hr' with hr' | hr'
    · exact h.expected r' hr'
    · rwa [List.mem_singleton.mp hr']
  · intro before hb
    rcases List.prefix_concat_iff.mp hb with rfl | hb
    · exact hlt
    · exact h.below before hb

theorem begin_cases :
    (0 < p.minBytesRead ∧ { initial with started := true }.loopHead p = awaiting p []) ∨
    (p.minBytesRead ≤ 0 ∧
      SettledWith p [] 0 (.fulfilled []) ({ initial with started := true }.loopHead p)) := by
  rcases lt_or_ge 0 p.minBytesRead with hlt | hge
  · refine Or.inl ⟨hlt, ?_⟩
    simp [Loop.loopHead, initial, hlt, awaiting, byteArrays, totalLength, failures]
  · refine Or.inr ⟨hge, ?_⟩
    have hnot : ¬ (0 : ℤ) < p.minBytesRead := not_lt.mpr hge
    constructor <;> simp [Loop.loopHead, initial, hnot, byteArrays, failures]

theorem resume_passes (h : Passes p r threw) : (awaiting p outcomes).resume p r threw =
    { awaiting p (outcomes ++ [r]) with
      reading := false, reads := outcomes.length + 1 }.loopHead p := by
  obtain ⟨hu, ht⟩ := h
  rcases outcome_cases r with ⟨readBuf, rfl⟩ | hf | hu'
  · have hno : (p.onRead && threw) = false := ht
    rw [Loop.resume, handle_bytes, if_neg (by simp [hno])]
    congr 1
    simp only [awaiting, byteArrays_concat, failures_concat, byteArray, Option.toList_some,
      totalLength_concat, if_neg (not_fails_bytes readBuf), List.append_nil, Int.natCast_add]
    cases p.onRead <;> rfl
  · have hno : (p.onError && threw) = false := by
      rw [handlerThrows, hf.byteArray] at ht
      exact ht
    rw [Loop.resume, handle_fails rfl hf, if_neg (by simp [hno])]
    congr 1
    simp only [awaiting, byteArrays_concat, failures_concat, hf.byteArray, Option.toList_none,
      if_pos hf, List.append_nil]
    cases p.onError <;> rfl
  · exact absurd hu' hu

theorem resume_of_passes (outcomes : List ReturnValue) (h : Passes p r threw) :
    ((totalLength (byteArrays (outcomes ++ [r])) : ℤ) < p.minBytesRead ∧
      (awaiting p outcomes).resume p r threw = awaiting p (outcomes ++ [r])) ∨
    (p.minBytesRead ≤ totalLength (byteArrays (outcomes ++ [r])) ∧
      SettledWith p (outcomes ++ [r]) (outcomes.length + 1)
        (.fulfilled (byteArrays (outcomes ++ [r]))) ((awaiting p outcomes).resume p r threw)) := by
  rw [resume_passes h, Loop.loopHead]
  split
  · rename_i hlt
    exact Or.inl ⟨hlt, by simp [awaiting]⟩
  · rename_i hge
    exact Or.inr ⟨not_lt.mp hge, ⟨rfl, rfl⟩, rfl, rfl, rfl, rfl, rfl⟩

theorem resume_of_not_passes (outcomes : List ReturnValue) (h : ¬ Passes p r threw) :
    ∃ e, SettledWith p (outcomes ++ [r]) (outcomes.length + 1) (.rejected e)
        ((awaiting p outcomes).resume p r threw) ∧
      (Unexpected r → e = .unexpectedResult r) := by
  rcases outcome_cases r with ⟨readBuf, rfl⟩ | hf | hu
  · have hyes : (p.onRead && threw) = true := by
      simpa [Passes, not_unexpected_bytes, handlerThrows, byteArray] using h
    have hon : p.onRead = true := by simp_all
    refine ⟨.handler, ?_, fun hu => absurd hu (not_unexpected_bytes readBuf)⟩
    rw [Loop.resume, handle_bytes, if_pos hyes]
    constructor <;>
      simp [awaiting, byteArrays_concat, failures_concat, byteArray, not_fails_bytes, hon]
  · have hnu : ¬ Unexpected r := fun hu => hu.2 hf
    have hyes : (p.onError && threw) = true := by
      simpa [Passes, hnu, handlerThrows, hf.byteArray] using h
    have hon : p.onError = true := by simp_all
    refine ⟨.handler, ?_, fun hu => absurd hu hnu⟩
    rw [Loop.resume, handle_fails rfl hf, if_pos hyes]
    constructor <;>
      simp [awaiting, byteArrays_concat, failures_concat, hf.byteArray, hf, hon]
  · refine ⟨.unexpectedResult r, ?_, fun _ => rfl⟩
    rw [Loop.resume, handle_unexpected rfl hu]
    constructor <;>
      simp [awaiting, byteArrays_concat, failures_concat, hu.1, hu.2]

/-! ## The states of a run -/

inductive Shape (p : ReadArgs) : Loop → Prop where
  | fresh : Shape p initial
  | awaiting {os : List ReturnValue} : Going p os → Shape p (awaiting p os)
  | empty {t : Loop} : p.minBytesRead ≤ 0 → SettledWith p [] 0 (.fulfilled []) t → Shape p t
  | fulfilled {os : List ReturnValue} {o : ReturnValue} {t : Loop} :
      Going p os → ¬ Unexpected o → p.minBytesRead ≤ totalLength (byteArrays (os ++ [o])) →
      SettledWith p (os ++ [o]) (os.length + 1) (.fulfilled (byteArrays (os ++ [o]))) t →
      Shape p t
  | rejected {os : List ReturnValue} {o : ReturnValue} {e : ReadError} {t : Loop} :
      Going p os → (Unexpected o → e = .unexpectedResult o) →
      SettledWith p (os ++ [o]) (os.length + 1) (.rejected e) t → Shape p t
  | readRejected {os : List ReturnValue} {e : AsyncError} {t : Loop} :
      Going p os → SettledWith p os (os.length + 1) (.rejected (.rejected e)) t → Shape p t

theorem Going.nil (h : 0 < p.minBytesRead) : Going p [] := by
  constructor
  · simp
  · intro before hb
    rw [List.prefix_nil.mp hb]
    exact h

theorem SettledWith.stuck {reads : ℕ} {outcome : ReadOutcome}
    (h : SettledWith p outcomes reads outcome s) (e : LoopEvent) : ¬ s.Enabled e := by
  cases e with
  | begin => simp [Loop.Enabled, h.idle.2]
  | resume r threw | reject e => simp [Loop.Enabled, h.idle.1]

theorem Shape.step (h : Shape p s) {e : LoopEvent} (he : s.Enabled e) : Shape p (s.next p e) := by
  cases h with
  | fresh =>
    cases e with
    | begin =>
      change Shape p ({ initial with started := true }.loopHead p)
      rcases begin_cases (p := p) with ⟨hlt, hs⟩ | ⟨hle, hs⟩
      · rw [hs]
        exact .awaiting (Going.nil hlt)
      · exact .empty hle hs
    | resume r threw | reject e => cases he
  | @awaiting os hg =>
    cases e with
    | begin => cases he
    | resume r threw =>
      change Shape p ((ReadLoop.awaiting p os).resume p r threw)
      by_cases hp : Passes p r threw
      · rcases resume_of_passes os hp with ⟨hlt, hs⟩ | ⟨hle, hs⟩
        · rw [hs]
          exact .awaiting (hg.concat hp.1 hlt)
        · exact .fulfilled hg hp.1 hle hs
      · obtain ⟨e, hs, hu⟩ := resume_of_not_passes os hp
        exact .rejected hg hu hs
    | reject e => exact .readRejected hg ⟨⟨rfl, rfl⟩, rfl, rfl, rfl, rfl, rfl⟩
  | empty _ hs | fulfilled _ _ _ hs | rejected _ _ hs | readRejected _ hs =>
    exact absurd he (hs.stuck e)

theorem execution_shape (h : (loopMachine p).Execution initial s) : Shape p s :=
  h.invariant .fresh fun _ _ hu he => hu.step he

/-! ## The result -/

/-- What a state of the call says of the reads so far. -/
structure ReadsExactly (p : ReadArgs) (s : Loop) : Prop where
  result : ∀ chunks, s.returned = some (.fulfilled chunks) → chunks = byteArrays s.consumed ∧
    s.reads = s.consumed.length ∧ (p.onRead = true → s.onReads = chunks) ∧
    (p.onError = true → s.onErrors = failures s.consumed)
  stops : ∀ chunks outcomes data, s.returned = some (.fulfilled chunks) →
    s.consumed = outcomes ++ [.bytes data] →
      p.minBytesRead ≤ totalLength chunks ∧ (totalLength chunks.dropLast : ℤ) < p.minBytesRead
  idle : p.minBytesRead ≤ 0 → s.reads = 0
  unexpected : ∀ outcomes r rest, s.consumed = outcomes ++ r :: rest → Unexpected r →
    rest = [] ∧ s.reads = s.consumed.length ∧
      s.returned = some (.rejected (.unexpectedResult r))

theorem Going.pos (h : Going p outcomes) : ¬ p.minBytesRead ≤ 0 := by
  have := h.below [] List.nil_prefix
  simp only [byteArrays, totalLength, List.filterMap_nil, List.map_nil, List.sum_nil] at this
  omega

theorem Going.no_unexpected (h : Going p outcomes) {before rest : List ReturnValue}
    (he : outcomes = before ++ r :: rest) : ¬ Unexpected r :=
  h.expected r (by simp [he])

/-- The last of the outcomes is the only one that may be unexpected. -/
theorem last_of_unexpected {last : ReturnValue} (h : Going p outcomes)
    {before rest : List ReturnValue} (he : outcomes ++ [last] = before ++ r :: rest)
    (hu : Unexpected r) : rest = [] ∧ r = last := by
  rcases rest.eq_nil_or_concat with rfl | ⟨rest', x, rfl⟩
  · obtain ⟨-, hr⟩ := List.append_inj' he rfl
    exact ⟨rfl, (List.singleton_inj.mp hr).symm⟩
  · rw [List.concat_eq_append, ← List.cons_append, ← List.append_assoc] at he
    exact absurd hu (h.no_unexpected (List.append_inj' he rfl).1)

theorem Shape.readsExactly (h : Shape p s) : ReadsExactly p s := by
  cases h with
  | fresh => constructor <;> simp [initial]
  | awaiting hg =>
    refine ⟨?_, ?_, fun hle => absurd hle hg.pos, ?_⟩
    · intro chunks hc
      cases hc
    · intro chunks outcomes data hc
      cases hc
    intro before r rest he hu
    exact absurd hu (hg.no_unexpected he)
  | empty hle hs =>
    refine ⟨?_, ?_, fun _ => hs.reads, ?_⟩
    · intro chunks hc
      have hchunks : chunks = [] := by simpa [hs.returned, eq_comm] using hc
      simp [hchunks, hs.consumed, hs.reads, hs.onReads, hs.onErrors, byteArrays, failures]
    · intro chunks outcomes data _ he
      simp [hs.consumed] at he
    · intro before r rest he
      simp [hs.consumed] at he
  | @fulfilled outcomes r s hg hu hle hs =>
    refine ⟨?_, ?_, fun h => absurd h hg.pos, ?_⟩
    · intro chunks hc
      have hchunks : byteArrays (outcomes ++ [r]) = chunks := by simpa [hs.returned] using hc
      refine ⟨by rw [hs.consumed, hchunks], ?_, fun hon => ?_, fun hoe => ?_⟩
      · rw [hs.reads, hs.consumed, List.length_append, List.length_singleton]
      · rw [hs.onReads, if_pos hon, hchunks]
      · rw [hs.onErrors, if_pos hoe, hs.consumed]
    · intro chunks before data hc he
      have hchunks : byteArrays (outcomes ++ [r]) = chunks := by simpa [hs.returned] using hc
      obtain ⟨rfl, hr⟩ := List.append_inj' (hs.consumed.symm.trans he) rfl
      rw [← hchunks]
      refine ⟨hle, ?_⟩
      rw [List.singleton_inj.mp hr, byteArrays_concat]
      simpa [byteArray] using hg.below outcomes (List.prefix_refl _)
    · intro before r' rest he hu'
      obtain ⟨-, rfl⟩ := last_of_unexpected hg (hs.consumed.symm.trans he) hu'
      exact absurd hu' hu
  | @rejected outcomes r e s hg hu hs =>
    refine ⟨by simp [hs.returned], by simp [hs.returned], fun h => absurd h hg.pos, ?_⟩
    intro before r' rest he hu'
    obtain ⟨hrest, rfl⟩ := last_of_unexpected hg (hs.consumed.symm.trans he) hu'
    refine ⟨hrest, ?_, by rw [hs.returned, hu hu']⟩
    rw [hs.reads, hs.consumed, List.length_append, List.length_singleton]
  | @readRejected outcomes e s hg hs =>
    refine ⟨by simp [hs.returned], by simp [hs.returned], fun h => absurd h hg.pos, ?_⟩
    intro before r rest he hu
    exact absurd hu (hg.no_unexpected (hs.consumed.symm.trans he))

/-- `readChunks` returns what was read, in order, and stops at the read that reaches the
wanted total, whatever its reads come to; so does a call over an instance with what its reads
have come to. -/
theorem readChunks_returns_what_was_read (p : ReadArgs) :
    (∀ s, (loopMachine p).Execution initial s → ReadsExactly p s) ∧
    ∀ s, (readingMachine p).Execution .initial s → ∃ reads consumed,
      (loopMachine p).Execution initial (s.loop reads consumed) ∧
        ReadsExactly p (s.loop reads consumed) := by
  refine ⟨fun s h => (execution_shape h).readsExactly, fun s h => ?_⟩
  obtain ⟨reads, consumed, hrun⟩ := reading_refines_loop h
  exact ⟨reads, consumed, hrun, (execution_shape hrun).readsExactly⟩

def threeBytes : ReadArgs := ReaderWriter.readChunks (.number 1) 3 16 true true

theorem readChunks_returns_what_was_read_threeBytes :
    ReadsExactly threeBytes ((loopMachine threeBytes).runTrace initial
      [.begin, .resume (.bytes [1, 2]) false, .resume .null false, .resume (.bytes []) false,
        .resume (.bytes [3, 4]) false]) :=
  (readChunks_returns_what_was_read threeBytes).1 _
    ((loopMachine threeBytes).execution_of_trace _ _ (by decide))

end ReadLoop
