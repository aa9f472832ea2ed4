import NodeSrt.WriteLoopFlow
import NodeSrt.WriteLoopReports

/-! # The write modes refine the write loops

A state of the write modes is seen as one of the loops alone by forgetting the instance and
keeping the promises of its writes. A step of the modes is then the same step of the loop, if
it is one, and after it the settling of some promises. -/
namespace WriteModes

open AsyncValues
open TransitionSystem
open AsyncApi
open WriteLoop

variable (p : WriteArgs)

/-- The chunks whose reaction has run, without counting them, although their write fulfilled. -/
def Writing.threw (s : Writing) : List ℕ :=
  s.handled.filter fun i => isFulfilled (s.promiseOf i) && decide (i ∉ s.counted)

/-- The loop in a state of the write modes. -/
def Writing.loop (s : Writing) : Loop where
  chunkIndex := s.chunkIndex
  chunkWrittenIdx := s.chunkWrittenIdx
  tickStart := s.tickStart
  interval := s.interval
  issued := p.chunks.take s.chunkIndex
  promises := s.promiseOf
  handled := s.handled
  threw := s.threw
  onWrites := s.onWrites
  returned := s.returned

/-- The same with other promises and errors. -/
def Writing.loopWith (s : Writing) (promises : ℕ → Settlement) (threw : List ℕ) : Loop :=
  { s.loop p with promises := promises, threw := threw }

structure Consistent (s : Writing) : Prop where
  issued : s.whenWritten.length = s.chunkIndex
  settled : ∀ i ∈ s.handled, s.promiseOf i ≠ .pending
  counted : ∀ i ∈ s.counted, i ∈ s.handled

theorem initial_consistent : Consistent Writing.initial := by
  constructor <;> simp [Writing.initial]

variable {p} {s t : Writing}

/-! ## Promises of chunks -/

theorem Consistent.promiseOf_pending (h : Consistent s) {i : ℕ} (hi : s.chunkIndex ≤ i) :
    s.promiseOf i = .pending := by
  have hnone : s.whenWritten[i]? = none := List.getElem?_eq_none_iff.mpr (h.issued ▸ hi)
  simp [Writing.promiseOf, hnone]

theorem promiseOf_stable (hs : (AsyncApi.machine Unit).Execution s.sys t.sys)
    (hw : s.whenWritten <+: t.whenWritten) {i : ℕ} (hi : s.promiseOf i ≠ .pending) :
    t.promiseOf i = s.promiseOf i := by
  cases hj : s.whenWritten[i]? with
  | none => simp [Writing.promiseOf, hj] at hi
  | some j =>
    cases hk : s.sys.writes[j]? with
    | none => simp [Writing.promiseOf, hj, hk] at hi
    | some w =>
      have hj' := OrderedPort.getElem?_of_prefix hw hj
      have hk' := OrderedPort.getElem?_of_prefix (execution_extends hs).writes hk
      simp only [Writing.promiseOf, hj, hk, hj', hk'] at hi ⊢
      exact write_promise_stable hs hi

theorem writeAll_grows (chunks : List BufferView) (s : Writing) :
    (AsyncApi.machine Unit).Execution s.sys (s.writeAll p chunks).sys ∧
      s.whenWritten <+: (s.writeAll p chunks).whenWritten ∧
      ((s.writeAll p chunks).handled, (s.writeAll p chunks).counted) = (s.handled, s.counted) ∧
      (s.whenWritten.length = s.chunkIndex →
        (s.writeAll p chunks).whenWritten.length = (s.writeAll p chunks).chunkIndex) := by
  induction chunks generalizing s with
  | nil => exact ⟨.refl _, List.prefix_refl _, rfl, id⟩
  | cons chunk chunks ih =>
    obtain ⟨hs, hw, hrest, hlen⟩ := ih (s.write p chunk)
    have hcall : (AsyncApi.machine Unit).Enabled s.sys (p.writeCall chunk) := trivial
    refine ⟨(Machine.Execution.step hcall).trans hs, (List.prefix_append _ _).trans hw, hrest,
      fun hl => hlen ?_⟩
    simp [Writing.write, hl]

theorem tick_grows (s : Writing) :
    (AsyncApi.machine Unit).Execution s.sys (s.tick p).sys ∧
      s.whenWritten <+: (s.tick p).whenWritten ∧
      ((s.tick p).handled, (s.tick p).counted) = (s.handled, s.counted) ∧
      (s.whenWritten.length = s.chunkIndex →
        (s.tick p).whenWritten.length = (s.tick p).chunkIndex) := by
  rw [tick_eq]
  exact writeAll_grows (s.tickChunks p) { s with tickStart := s.chunkIndex }

theorem Consistent.step_tick (h : Consistent s) : Consistent (s.tick p) := by
  obtain ⟨hs, hw, hrest, hlen⟩ := tick_grows (p := p) s
  simp only [Prod.mk.injEq] at hrest
  obtain ⟨hh, hc⟩ := hrest
  refine ⟨hlen h.issued, fun i hi => ?_, fun i hi => ?_⟩
  · have hi : i ∈ s.handled := hh ▸ hi
    exact ne_of_eq_of_ne (promiseOf_stable hs hw (h.settled i hi)) (h.settled i hi)
  · have hi : i ∈ s.counted := hc ▸ hi
    exact hh ▸ h.counted i hi

theorem Consistent.step_sys (h : Consistent s) {e : Event Unit} (he : AsyncApi.Enabled s.sys e) :
    Consistent { s with sys := AsyncApi.next s.sys e } := by
  refine ⟨h.issued, fun i hi => ?_, h.counted⟩
  have hset := h.settled i hi
  exact ne_of_eq_of_ne (promiseOf_stable (s := s)
    (t := { s with sys := AsyncApi.next s.sys e }) (.step he) (List.prefix_refl _) hset) hset

theorem Consistent.step_thenWritten (h : Consistent s) {i : ℕ} (hi : s.promiseOf i ≠ .pending)
    (threw : Bool) : Consistent (s.thenWritten p i threw) := by
  have hsettled : ∀ j ∈ s.handled ++ [i], s.promiseOf j ≠ .pending := by
    intro j hj
    rcases List.mem_append.mp hj with hj | hj
    · exact h.settled j hj
    · exact List.mem_singleton.mp hj ▸ hi
  have hcounted : ∀ j ∈ s.counted, j ∈ s.handled ++ [i] := fun j hj =>
    List.mem_append_left _ (h.counted j hj)
  simp only [Writing.thenWritten]
  split
  · exact h
  · exact ⟨h.issued, hsettled, hcounted⟩
  · split
    · exact ⟨h.issued, hsettled, hcounted⟩
    · split
      · exact ⟨h.issued, hsettled, hcounted⟩
      · refine ⟨h.issued, hsettled, fun j hj => ?_⟩
        rcases List.mem_append.mp hj with hj | hj
        · exact hcounted j hj
        · exact List.mem_append_right _ hj

theorem Consistent.step (h : Consistent s) {e : WriteEvent} (he : s.Enabled p e) :
    Consistent (s.next p e) := by
  cases e with
  | sys e => exact h.step_sys he
  | tick => exact h.step_tick
  | thenWritten i threw => exact h.step_thenWritten he.1 threw
  | finish => exact ⟨h.issued, h.settled, h.counted⟩
  | fail i => exact ⟨h.issued, h.settled, h.counted⟩

/-! ## The loop's own steps -/

theorem loopWith_write {q : ℕ → Settlement} {l : List ℕ} {chunk : BufferView}
    (hc : p.chunks[s.chunkIndex]? = some chunk) :
    (s.loopWith p q l).write chunk = (s.write p chunk).loopWith p q l := by
  obtain ⟨hlt, hget⟩ := List.getElem?_eq_some_iff.mp hc
  have htake : p.chunks.take (s.chunkIndex + 1) = p.chunks.take s.chunkIndex ++ [chunk] := by
    rw [List.take_succ_eq_append_getElem hlt, hget]
  simp only [Writing.loopWith, Writing.loop, Loop.write, Writing.write, htake]

theorem loopWith_tickLoop {q : ℕ → Settlement} {l : List ℕ} {f : Loop → Loop}
    {g : Writing → Writing} (hf : ∀ s, f (s.loopWith p q l) = (g s).loopWith p q l) (n : ℕ)
    (s : Writing) :
    Loop.tickLoop p f n (s.loopWith p q l) = (Writing.tickLoop p g n s).loopWith p q l := by
  induction n generalizing s with
  | zero => rfl
  | succ n ih =>
    have hindex : (s.loopWith p q l).chunkIndex = s.chunkIndex := rfl
    cases hc : p.chunks[s.chunkIndex]? with
    | none =>
      simp only [Loop.tickLoop, Writing.tickLoop, hindex, hc]
      exact hf s
    | some chunk =>
      simp only [Loop.tickLoop, Writing.tickLoop, hindex, hc, loopWith_write hc]
      exact ih _

theorem loop_tick : (s.loop p).tick p = (s.tick p).loopWith p s.promiseOf s.threw := by
  cases hm : p.mode with
  | yieldingLoop =>
    simp only [Loop.tick, Writing.tick, hm]
    exact loopWith_tickLoop (f := fun s => s) (g := fun s => s) (fun _ => rfl) p.writesPerTick
      { s with tickStart := s.chunkIndex }
  | explicitScheduling =>
    simp only [Loop.tick, Writing.tick, hm]
    exact loopWith_tickLoop (f := Loop.clearInterval) (g := Writing.clearInterval)
      (fun _ => rfl) p.writesPerTick { s with tickStart := s.chunkIndex }

/-- A reaction leaves an error exactly when its write fulfilled and it does not count. -/
theorem threw_append {i : ℕ}
    (hp : (t.sys, t.whenWritten) = (s.sys, s.whenWritten)) (hh : t.handled = s.handled ++ [i])
    (hc : ∀ j ∈ s.handled, (j ∈ t.counted ↔ j ∈ s.counted)) :
    t.threw = s.threw ++
      if isFulfilled (s.promiseOf i) = true ∧ i ∉ t.counted then [i] else [] := by
  simp only [Prod.mk.injEq] at hp
  obtain ⟨hsys, hwhen⟩ := hp
  have hpromise : t.promiseOf = s.promiseOf := by
    funext j
    simp only [Writing.promiseOf, hsys, hwhen]
  simp only [Writing.threw, hh, hpromise, List.filter_append]
  congr 1
  · exact List.filter_congr fun j hj => by simp only [hc j hj]
  · by_cases hi : isFulfilled (s.promiseOf i) = true ∧ i ∉ t.counted
    · simp [hi]
    · rw [if_neg hi]
      simpa using hi

theorem loop_thenWritten (h : Consistent s) {i : ℕ} (hno : i ∉ s.handled) (threw : Bool) :
    (s.thenWritten p i threw).loop p = (s.loop p).thenWritten p i threw := by
  have hcount : i ∉ s.counted := fun hi => hno (h.counted i hi)
  have hne : ∀ j ∈ s.handled, j ≠ i := fun j hj he => hno (he ▸ hj)
  cases hp : s.promiseOf i with
  | pending => simp only [Writing.thenWritten, Loop.thenWritten, Writing.loop, hp]
  | rejected e =>
    have ht := threw_append (s := s) (i := i) (t := { s with handled := s.handled ++ [i] }) rfl rfl
      fun _ _ => Iff.rfl
    simp only [hp, isFulfilled, Bool.false_eq_true, false_and, if_false, List.append_nil] at ht
    simp only [Writing.thenWritten, Loop.thenWritten, Writing.loop, hp, ht]
    rfl
  | fulfilled v =>
    simp only [Writing.thenWritten, Loop.thenWritten, Writing.loop, hp]
    by_cases hv : v = .number SRT_ERROR
    · have ht := threw_append (s := s) (i := i) (t := { s with handled := s.handled ++ [i] })
        rfl rfl fun _ _ => Iff.rfl
      simp only [hp, isFulfilled, hcount, not_false_eq_true, and_self, if_true] at ht
      simp only [hv, if_true, ht]
      rfl
    · simp only [hv, if_false]
      by_cases hthrew : (p.onWrite && threw) = true
      · have ht := threw_append (s := s) (i := i) (t := { s with
            handled := s.handled ++ [i]
            onWrites := if p.onWrite then s.onWrites ++ [(i, v, s.chunkWrittenIdx)]
              else s.onWrites }) rfl rfl fun _ _ => Iff.rfl
        simp only [hp, isFulfilled, hcount, not_false_eq_true, and_self, if_true] at ht
        simp only [hthrew, if_true, ht]
        rfl
      · have ht := threw_append (s := s) (i := i) (t := { s with
            handled := s.handled ++ [i]
            onWrites := if p.onWrite then s.onWrites ++ [(i, v, s.chunkWrittenIdx)]
              else s.onWrites
            chunkWrittenIdx := s.chunkWrittenIdx + 1
            counted := s.counted ++ [i] }) rfl rfl fun j hj => by simp [hne j hj]
        simp only [List.mem_append, List.mem_singleton, or_true, not_true_eq_false, and_false,
          if_false, List.append_nil] at ht
        simp only [hthrew, Bool.false_eq_true, if_false, ht]
        rfl

/-! ## Settling -/

theorem settle_execution {C : Loop → LoopEvent → Prop} {u : Loop} {q : ℕ → Settlement}
    (hq : ∀ i, u.promises i ≠ .pending → q i = u.promises i)
    (hC : ∀ v i, q i ≠ .pending → C v (.settle i (q i))) {n : ℕ} (hn : n ≤ u.chunkIndex) :
    ((loopMachine p).restrict C).Execution u
      { u with promises := fun i => if i < n then q i else u.promises i } := by
  induction n with
  | zero =>
    simp only [Nat.not_lt_zero, if_false]
    exact .refl u
  | succ n ih =>
    have hrun := ih (by omega)
    have hlt : ∀ i, i ≠ n → (i < n + 1 ↔ i < n) := fun i hi => by omega
    by_cases hsame : q n = u.promises n
    · have heq : (fun i => if i < n + 1 then q i else u.promises i) =
          fun i => if i < n then q i else u.promises i := by
        funext i
        by_cases hi : i = n
        · subst hi
          simp [hsame]
        · simp only [hlt i hi]
      rw [heq]
      exact hrun
    · have hpending : u.promises n = .pending := by
        by_contra hset
        exact hsame (hq n hset)
      have hset : q n ≠ .pending := hpending ▸ hsame
      have hstep : ((loopMachine p).restrict C).Enabled
          { u with promises := fun i => if i < n then q i else u.promises i }
          (.settle n (q n)) := ⟨⟨hn, by simp [hpending], hset⟩, hC _ _ hset⟩
      have heq : (fun i => if i < n + 1 then q i else u.promises i) =
          Function.update (fun i => if i < n then q i else u.promises i) n (q n) := by
        funext i
        by_cases hi : i = n
        · subst hi
          simp
        · simp only [Function.update_of_ne hi, hlt i hi]
      rw [heq]
      exact hrun.tail hstep

theorem loopWith_execution {C : Loop → LoopEvent → Prop} (h : Consistent t)
    {q : ℕ → Settlement} {l : List ℕ} (hl : t.threw = l)
    (hq : ∀ i, q i ≠ .pending → t.promiseOf i = q i)
    (hC : ∀ v i, t.promiseOf i ≠ .pending → C v (.settle i (t.promiseOf i))) :
    ((loopMachine p).restrict C).Execution (t.loopWith p q l) (t.loop p) := by
  have hrun := settle_execution (p := p) (u := t.loopWith p q l) (q := t.promiseOf) hq hC
    (le_refl t.chunkIndex)
  have heq : (fun i => if i < t.chunkIndex then t.promiseOf i
      else (t.loopWith p q l).promises i) = t.promiseOf := by
    funext i
    split
    · rfl
    · rename_i hi
      have hpending := h.promiseOf_pending (not_lt.mp hi)
      by_contra hne
      have hset : q i ≠ .pending := fun he => hne (he.trans hpending.symm)
      exact hset ((hq i hset).symm.trans hpending)
  have hend : t.loop p = { t.loopWith p q l with
      promises := fun i => if i < t.chunkIndex then t.promiseOf i
        else (t.loopWith p q l).promises i } := by
    rw [heq, ← hl]
    rfl
  rw [hend]
  exact hrun

theorem threw_stable (h : Consistent s)
    (hstable : ∀ i, s.promiseOf i ≠ .pending → t.promiseOf i = s.promiseOf i)
    (hframe : (t.handled, t.counted) = (s.handled, s.counted)) : t.threw = s.threw := by
  simp only [Prod.mk.injEq] at hframe
  simp only [Writing.threw, hframe]
  exact List.filter_congr fun i hi => by rw [hstable i (h.settled i hi)]

/-! ## The simulation -/

/-- The loop's own event in an event of the write modes. -/
def WriteEvent.loop : WriteEvent → Option LoopEvent
  | .sys _ => none
  | .tick => some .tick
  | .thenWritten i threw => some (.thenWritten i threw)
  | .finish => some .finish
  | .fail i => some (.fail i)

theorem enabled_loop {e : WriteEvent} (he : s.Enabled p e) :
    ∀ e' ∈ e.loop, (s.loop p).Enabled p e' := by
  intro e' h
  cases e with
  | sys e => cases h
  | tick | thenWritten i threw | finish | fail i =>
    obtain rfl : _ = e' := Option.some.inj h
    exact he

/-- A step of the write modes is a run of the loop alone: its own step, if it is one, and
after it the settling of what has settled. -/
theorem step_simulates {C : Loop → LoopEvent → Prop} (h : Consistent s) {e : WriteEvent}
    (he : s.Enabled p e) (hown : ∀ e' ∈ e.loop, C (s.loop p) e')
    (hC : ∀ v i, (s.next p e).promiseOf i ≠ .pending →
      C v (.settle i ((s.next p e).promiseOf i))) :
    ((loopMachine p).restrict C).Execution (s.loop p) ((s.next p e).loop p) := by
  have hnext := h.step he
  have hloop := enabled_loop he
  have hfirst : ∀ e' ∈ e.loop, ((loopMachine p).restrict C).Execution (s.loop p)
      ((s.loop p).next p e') := fun e' hm => .step ⟨hloop e' hm, hown e' hm⟩
  cases e with
  | sys e =>
    have hsys : (AsyncApi.machine Unit).Enabled s.sys e := he
    have hstable : ∀ i, s.promiseOf i ≠ .pending →
        (s.next p (.sys e)).promiseOf i = s.promiseOf i := fun i hi =>
      promiseOf_stable (t := s.next p (.sys e)) (.step hsys) (List.prefix_refl _) hi
    exact loopWith_execution hnext (threw_stable h hstable rfl) hstable hC
  | tick =>
    obtain ⟨hs, hw, hrest, -⟩ := tick_grows (p := p) s
    have hstable : ∀ i, s.promiseOf i ≠ .pending →
        (s.tick p).promiseOf i = s.promiseOf i := fun i hi => promiseOf_stable hs hw hi
    have htick := hfirst .tick rfl
    have heq : (s.loop p).next p .tick = (s.tick p).loopWith p s.promiseOf s.threw := loop_tick
    rw [heq] at htick
    exact htick.trans (loopWith_execution hnext (threw_stable h hstable hrest) hstable hC)
  | thenWritten i threw =>
    show Machine.Execution _ _ ((s.thenWritten p i threw).loop p)
    rw [loop_thenWritten h he.2]
    exact hfirst _ rfl
  | finish => exact hfirst _ rfl
  | fail i => exact hfirst _ rfl

/-- Every run of the write modes is a run of the loop alone. -/
theorem writing_refines_loop (h : (writingMachine p).Execution .initial s) :
    (loopMachine p).Execution WriteLoop.initial (s.loop p) := by
  have hboth := h.invariant (I := fun s => Consistent s ∧
      ((loopMachine p).restrict fun _ _ => True).Execution WriteLoop.initial (s.loop p))
    ⟨initial_consistent, .refl _⟩ fun u e hu he => by
      have hstep := step_simulates (C := fun _ _ => True) hu.1 he (fun _ _ => trivial)
        fun _ _ _ => trivial
      exact ⟨hu.1.step he, hu.2.trans hstep⟩
  exact hboth.2.of_restrict

/-! ## Writes answered in order -/

/-- The reaction of a write that fulfilled runs after those of the chunks before it. -/
def AnswersInOrder (s : Writing) : WriteEvent → Prop
  | .thenWritten i _ => isFulfilled (s.promiseOf i) = true → ∀ j < i, j ∈ s.handled
  | _ => True

instance (s : Writing) : (e : WriteEvent) → Decidable (AnswersInOrder s e)
  | .thenWritten _ _ => inferInstanceAs (Decidable (_ → ∀ j < _, j ∈ _))
  | .sys _ | .tick | .finish | .fail _ => isTrue trivial

def inOrderWriter (p : WriteArgs) : Machine Writing WriteEvent :=
  (sendingWriter p).restrict AnswersInOrder

instance (s : Writing) (e : WriteEvent) : Decidable ((inOrderWriter p).Enabled s e) :=
  inferInstanceAs (Decidable ((sendingWriter p).Enabled s e ∧ AnswersInOrder s e))

theorem settle_answersInOrder (hsend : Sending s.sys) (ht : Tracked p s) (v : Loop) (i : ℕ) :
    WriteLoop.AnswersInOrder p v (.settle i (s.promiseOf i)) := by
  intro chunk hc hful
  cases hp : s.promiseOf i with
  | pending | rejected err => simp [hp, isFulfilled] at hful
  | fulfilled n =>
    obtain ⟨chunk', ⟨hc', -⟩, hn⟩ := ht.sent_of_fulfilled hsend hp
    rw [hn, Option.some.inj (hc'.symm.trans hc)]

theorem loop_answersInOrder {e : WriteEvent} (ho : AnswersInOrder s e) :
    ∀ e' ∈ e.loop, WriteLoop.AnswersInOrder p (s.loop p) e' := by
  intro e' hm
  cases e with
  | sys e => cases hm
  | thenWritten i threw =>
    obtain rfl : _ = e' := Option.some.inj hm
    exact ho
  | tick | finish | fail i =>
    obtain rfl : _ = e' := Option.some.inj hm
    trivial

theorem inOrder_simulates (h : Consistent s) (hsend : Sending s.sys) (ht : Tracked p s)
    {e : WriteEvent} (he : (inOrderWriter p).Enabled s e) :
    (inOrderMachine p).Execution (s.loop p) ((s.next p e).loop p) :=
  step_simulates h he.1.1 (loop_answersInOrder he.2) fun v i _ =>
    settle_answersInOrder (sys_sending (sys_execution he.1) hsend) (ht.step hsend he.1.1) v i

theorem inOrder_refines_loop (h : (inOrderWriter p).Execution .initial s) :
    (inOrderMachine p).Execution WriteLoop.initial (s.loop p) := by
  have hall := h.invariant (I := fun s => (Consistent s ∧ Sending s.sys ∧ Tracked p s) ∧
      (inOrderMachine p).Execution WriteLoop.initial (s.loop p))
    ⟨⟨initial_consistent, ⟨initial_invariant, initial_written⟩, initial_tracked⟩, .refl _⟩
    fun u e ⟨⟨hc, hs, ht⟩, hrun⟩ he =>
      ⟨⟨hc.step he.1.1, sys_sending (sys_execution he.1) hs, ht.step hs he.1.1⟩,
        hrun.trans (inOrder_simulates hc hs ht he)⟩
  exact hall.2

/-- The reports are right exactly when before each chunk reported no write failed and no
`onWrite` threw: over any writes that are answered in order, and over the instance itself. -/
theorem onWrite_reports_right_iff (p : WriteArgs) :
    (∀ s, (inOrderMachine p).Execution WriteLoop.initial s →
      (ReportsRight p s ↔ NoneMissedBefore s)) ∧
    ∀ s, (inOrderWriter p).Execution .initial s →
      (ReportsRight p (s.loop p) ↔ NoneMissedBefore (s.loop p)) := by
  have habstract := fun s (h : (inOrderMachine p).Execution WriteLoop.initial s) =>
    (execution_reporting h).reportsRight_iff
  exact ⟨habstract, fun s h => habstract _ (inOrder_refines_loop h)⟩

theorem onWrite_reports_right_iff_twoChunks :
    ReportsRight twoChunks (((inOrderWriter twoChunks).runTrace .initial twoChunksRun).loop
        twoChunks) ↔
      NoneMissedBefore (((inOrderWriter twoChunks).runTrace .initial twoChunksRun).loop
        twoChunks) :=
  (onWrite_reports_right_iff twoChunks).2 _
    ((inOrderWriter twoChunks).execution_of_trace _ twoChunksRun (by decide))

theorem failed_write_shifts_the_index :
    ¬ ∀ (p : WriteArgs) (s : Writing), (inOrderWriter p).Execution .initial s →
      ReportsRight p (s.loop p) := by
  intro h
  have hright := h twoChunks _
    ((inOrderWriter twoChunks).execution_of_trace _ twoChunksRun (by decide))
  have hmem : (1, .number 1, 0) ∈
      ((inOrderWriter twoChunks).runTrace .initial twoChunksRun).onWrites := by decide
  exact absurd (hright.concerned _ hmem).1 (by decide)

end WriteModes
