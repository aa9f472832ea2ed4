import NodeSrt.AsyncApiWrites

/-! # The write modes

`writeChunksWithYieldingLoop` and `writeChunksWithExplicitScheduling` over an AsyncSRT
instance that others may use as well. A run starts with the loop not yet called; its first
tick is the call. The reactions of settled writes may run in any order. -/
namespace WriteModes

open AsyncValues
open TransitionSystem
open AsyncApi
open OrderedPort

inductive Mode where
  | yieldingLoop | explicitScheduling
  deriving DecidableEq, Repr

/-- The arguments of a call. `intervalMs` is left out: when a tick comes is free. -/
structure WriteArgs where
  mode : Mode
  socketFd : JSValue
  chunks : List BufferView
  onWrite : Bool
  writesPerTick : ℕ

/-- The locals of the call. `whenWritten` gives for each chunk its call of `write`,
`handled` and `counted` are the chunks whose reaction has run and has bumped
`chunkWrittenIdx`, and `onWrites` holds the chunk, size and index of each `onWrite` call. -/
structure Writing where
  sys : AsyncSRT Unit
  chunkIndex : ℕ
  chunkWrittenIdx : ℕ
  tickStart : ℕ
  interval : Bool
  whenWritten : List ℕ
  handled : List ℕ
  counted : List ℕ
  onWrites : List (ℕ × ReturnValue × ℕ)
  returned : Settlement

def Writing.initial : Writing where
  sys := AsyncApi.initial
  chunkIndex := 0
  chunkWrittenIdx := 0
  tickStart := 0
  interval := true
  whenWritten := []
  handled := []
  counted := []
  onWrites := []
  returned := .pending

variable (p : WriteArgs)

/-- `asyncSrt.write(socketFd, chunkBuf)`, which never throws, as it is async. -/
def WriteArgs.writeCall (chunk : BufferView) : Event Unit :=
  .call (.write p.socketFd (.bytes chunk)) false ()

def Writing.write (s : Writing) (chunk : BufferView) : Writing :=
  { s with
    sys := AsyncApi.next s.sys (p.writeCall chunk)
    chunkIndex := s.chunkIndex + 1
    whenWritten := s.whenWritten ++ [s.sys.writes.length] }

/-- The `for` loop of the two `tick`s, which differ in what they do without a chunk left. -/
def Writing.tickLoop (outOfChunks : Writing → Writing) : ℕ → Writing → Writing
  | 0, s => s
  | i + 1, s =>
    match p.chunks[s.chunkIndex]? with
    | none => outOfChunks s
    | some chunk => Writing.tickLoop outOfChunks i (s.write p chunk)

def writeChunksWithYieldingLoop.tick (s : Writing) : Writing :=
  Writing.tickLoop p (fun s => s) p.writesPerTick { s with tickStart := s.chunkIndex }

def Writing.clearInterval (s : Writing) : Writing := { s with interval := false }

def writeChunksWithExplicitScheduling.tick (s : Writing) : Writing :=
  Writing.tickLoop p Writing.clearInterval p.writesPerTick { s with tickStart := s.chunkIndex }

def Writing.tick (s : Writing) : Writing :=
  match p.mode with
  | .yieldingLoop => writeChunksWithYieldingLoop.tick p s
  | .explicitScheduling => writeChunksWithExplicitScheduling.tick p s

def Writing.promiseOf (s : Writing) (i : ℕ) : Settlement :=
  match s.whenWritten[i]? with
  | some j =>
    match s.sys.writes[j]? with
    | some w => w.promise s.sys
    | none => .pending
  | none => .pending

def isFulfilled : Settlement → Bool
  | .fulfilled _ => true
  | _ => false

/-- The reaction of a chunk's write. A rejected write reaches it as no call. -/
def Writing.thenWritten (s : Writing) (i : ℕ) (threw : Bool) : Writing :=
  match s.promiseOf i with
  | .pending => s
  | .rejected _ => { s with handled := s.handled ++ [i] }
  | .fulfilled writeRes =>
    let s := { s with handled := s.handled ++ [i] }
    if writeRes = .number SRT_ERROR then s
    else
      let s := { s with
        onWrites := if p.onWrite then s.onWrites ++ [(i, writeRes, s.chunkWrittenIdx)]
          else s.onWrites }
      if p.onWrite && threw then s
      else { s with chunkWrittenIdx := s.chunkWrittenIdx + 1, counted := s.counted ++ [i] }

/-- The promise that the yielding loop awaits has fulfilled, after all its reactions. -/
def Writing.TickWritten (s : Writing) : Prop :=
  ∀ i < s.chunkIndex, s.tickStart ≤ i → i ∈ s.handled ∧ isFulfilled (s.promiseOf i) = true

instance (s : Writing) : Decidable s.TickWritten :=
  inferInstanceAs (Decidable (∀ i < s.chunkIndex, _ → _ ∧ _))

inductive WriteEvent where
  | sys (e : Event Unit)
  | tick
  | thenWritten (i : ℕ) (threw : Bool)
  | finish
  | fail (i : ℕ)

/-- A tick of the yielding loop waits for the writes of the tick before it, a tick of the
other mode for its interval. Only the yielding loop returns a promise. -/
def Writing.Enabled (s : Writing) : WriteEvent → Prop
  | .sys e => AsyncApi.Enabled s.sys e
  | .tick =>
    match p.mode with
    | .yieldingLoop => s.returned = .pending ∧ s.chunkIndex < p.chunks.length ∧ s.TickWritten
    | .explicitScheduling => s.interval = true
  | .thenWritten i _ => s.promiseOf i ≠ .pending ∧ i ∉ s.handled
  | .finish => p.mode = .yieldingLoop ∧ s.returned = .pending ∧
      p.chunks.length ≤ s.chunkIndex ∧ s.TickWritten
  | .fail i => p.mode = .yieldingLoop ∧ s.returned = .pending ∧ s.tickStart ≤ i ∧
      i ∈ s.handled ∧ isFulfilled (s.promiseOf i) = false

instance (s : Writing) : (e : WriteEvent) → Decidable (s.Enabled p e)
  | .sys e => inferInstanceAs (Decidable (AsyncApi.Enabled s.sys e))
  | .tick =>
    match h : p.mode with
    | .yieldingLoop => decidable_of_iff
        (s.returned = .pending ∧ s.chunkIndex < p.chunks.length ∧ s.TickWritten)
        (by simp [Writing.Enabled, h])
    | .explicitScheduling => decidable_of_iff (s.interval = true) (by simp [Writing.Enabled, h])
  | .thenWritten _ _ => inferInstanceAs (Decidable (_ ≠ _ ∧ _ ∉ _))
  | .finish => inferInstanceAs (Decidable (_ ∧ _ ∧ _ ∧ _))
  | .fail _ => inferInstanceAs (Decidable (_ ∧ _ ∧ _ ∧ _ ∧ _))

def Writing.next (s : Writing) : WriteEvent → Writing
  | .sys e => { s with sys := AsyncApi.next s.sys e }
  | .tick => s.tick p
  | .thenWritten i threw => s.thenWritten p i threw
  | .finish => { s with returned := .fulfilled .undefined }
  | .fail i => { s with returned := s.promiseOf i }

def writingMachine : Machine Writing WriteEvent := ⟨Writing.Enabled p, Writing.next p⟩

instance (s : Writing) (e : WriteEvent) : Decidable ((writingMachine p).Enabled s e) :=
  inferInstanceAs (Decidable (s.Enabled p e))

/-! ## A tick as a run of the instance -/

def Writing.tickChunks (s : Writing) : List BufferView :=
  (p.chunks.drop s.chunkIndex).take p.writesPerTick

def Writing.writeAll (s : Writing) (chunks : List BufferView) : Writing :=
  chunks.foldl (fun s chunk => s.write p chunk) s

theorem writeAll_chunkIndex (s : Writing) (chunks : List BufferView) :
    (s.writeAll p chunks).chunkIndex = s.chunkIndex + chunks.length := by
  induction chunks generalizing s with
  | nil => rfl
  | cons chunk chunks ih =>
    refine (ih (s.write p chunk)).trans ?_
    simp only [Writing.write, List.length_cons]
    omega

theorem writeAll_interval (s : Writing) (chunks : List BufferView) :
    (s.writeAll p chunks).interval = s.interval := by
  induction chunks generalizing s with
  | nil => rfl
  | cons chunk chunks ih => exact ih (s.write p chunk)

theorem tickLoop_eq (outOfChunks : Writing → Writing) (n : ℕ) (s : Writing) :
    Writing.tickLoop p outOfChunks n s =
      (if n ≤ p.chunks.length - s.chunkIndex then id else outOfChunks)
        (s.writeAll p ((p.chunks.drop s.chunkIndex).take n)) := by
  induction n generalizing s with
  | zero => simp [Writing.tickLoop, Writing.writeAll]
  | succ n ih =>
    cases hc : p.chunks[s.chunkIndex]? with
    | none =>
      have hlen := List.getElem?_eq_none_iff.mp hc
      have hout : ¬ n + 1 ≤ p.chunks.length - s.chunkIndex := by omega
      simp [Writing.tickLoop, hc, List.drop_eq_nil_of_le hlen, Writing.writeAll, hout]
    | some chunk =>
      obtain ⟨hlt, hget⟩ := List.getElem?_eq_some_iff.mp hc
      have hcut : (p.chunks.drop s.chunkIndex).take (n + 1) =
          chunk :: (p.chunks.drop (s.chunkIndex + 1)).take n := by
        rw [List.drop_eq_getElem_cons hlt, List.take_succ_cons, hget]
      have hleft : n ≤ p.chunks.length - (s.chunkIndex + 1) ↔
          n + 1 ≤ p.chunks.length - s.chunkIndex := by omega
      calc Writing.tickLoop p outOfChunks (n + 1) s
          = Writing.tickLoop p outOfChunks n (s.write p chunk) := by
            simp only [Writing.tickLoop, hc]
        _ = (if n ≤ p.chunks.length - (s.chunkIndex + 1) then id else outOfChunks)
              (s.writeAll p (chunk :: (p.chunks.drop (s.chunkIndex + 1)).take n)) :=
            ih (s.write p chunk)
        _ = _ := by simp only [hleft, hcut]

/-- Whether a tick leaves the interval alone. The yielding loop has none. -/
def WriteArgs.keepsInterval (chunkIndex : ℕ) : Bool :=
  p.mode = .yieldingLoop || p.writesPerTick ≤ p.chunks.length - chunkIndex

theorem keepsInterval_eq_false {chunkIndex : ℕ} : p.keepsInterval chunkIndex = false ↔
    p.mode = .explicitScheduling ∧ ¬ p.writesPerTick ≤ p.chunks.length - chunkIndex := by
  cases hm : p.mode <;> simp [WriteArgs.keepsInterval, hm]

theorem tick_eq (s : Writing) :
    s.tick p =
      { Writing.writeAll p { s with tickStart := s.chunkIndex } (s.tickChunks p) with
        interval := s.interval && p.keepsInterval s.chunkIndex } := by
  have hinterval := writeAll_interval p { s with tickStart := s.chunkIndex } (s.tickChunks p)
  unfold Writing.tickChunks at hinterval ⊢
  simp only [Writing.tick, writeChunksWithYieldingLoop.tick,
    writeChunksWithExplicitScheduling.tick, tickLoop_eq, WriteArgs.keepsInterval]
  generalize Writing.writeAll p _ _ = t at hinterval ⊢
  have hsame : { t with interval := s.interval } = t := by rw [← hinterval]
  cases hm : p.mode with
  | yieldingLoop =>
    simp only [decide_true, Bool.true_or, Bool.and_true, hsame]
    split <;> rfl
  | explicitScheduling =>
    by_cases hle : p.writesPerTick ≤ p.chunks.length - s.chunkIndex
    · simp [hle, hsame]
    · simp [hle, Writing.clearInterval]

theorem writeAll_sys (s : Writing) (chunks : List BufferView) :
    (s.writeAll p chunks).sys =
      (AsyncApi.machine Unit).runTrace s.sys (chunks.map p.writeCall) := by
  induction chunks generalizing s with
  | nil => rfl
  | cons chunk chunks ih => exact ih (s.write p chunk)

end WriteModes
