import NodeSrt.ReadStream

/-! # The reads of an SRTReadStream

The loop reads on until the bytes asked for are there. An empty read brings it no nearer, and a
read that finds no data ends the stream. -/
namespace ReadStream

open TransitionSystem
open AsyncValues

/-! ## One call -/

/-- `_readSocketAndPush(bytes)` once so many reads are there for it; it takes none when it has
returned. -/
def Stream.afterReads (s : Stream) (bytes : ℤ) (o : ℕ → Recvmsg × Bool) (closed : Bool) :
    ℕ → Stream
  | 0 => s.readSocketAndPush bytes
  | n + 1 => (s.afterReads bytes o closed n).next (.recvmsg (o n).1 (o n).2 closed)

def Stops : Recvmsg × Bool → Prop
  | (.message _, more) => more = false
  | (.error _, _) => True

def total (o : ℕ → Recvmsg × Bool) : ℕ → ℕ
  | 0 => 0
  | n + 1 =>
    match (o n).1 with
    | .message data => total o n + data.length
    | .error _ => total o n

/-- The first `bytes` reads stop the loop or bring the bytes. -/
def EndsWithin (bytes : ℕ) (o : ℕ → Recvmsg × Bool) : Prop :=
  (∃ i < bytes, Stops (o i)) ∨ bytes ≤ total o bytes

variable {s : Stream} {o : ℕ → Recvmsg × Bool} {bytes : ℕ} {closed : Bool}

def GoesOn (bytes : ℕ) (o : ℕ → Recvmsg × Bool) (n : ℕ) : Prop :=
  (∀ i < n, ¬ Stops (o i)) ∧ total o n < bytes

theorem total_le_succ (o : ℕ → Recvmsg × Bool) (n : ℕ) : total o n ≤ total o (n + 1) := by
  rw [total]
  split
  · exact Nat.le_add_right _ _
  · exact le_rfl

theorem goesOn_succ_iff {n : ℕ} : GoesOn bytes o (n + 1) ↔
    GoesOn bytes o n ∧ ¬ Stops (o n) ∧ total o (n + 1) < bytes := by
  constructor
  · intro h
    exact ⟨⟨fun i hi => h.1 i (hi.trans (Nat.lt_succ_self n)), (total_le_succ o n).trans_lt h.2⟩,
      h.1 n (Nat.lt_succ_self n), h.2⟩
  · rintro ⟨h, hn, hlt⟩
    refine ⟨fun i hi => ?_, hlt⟩
    rcases Nat.lt_succ_iff_lt_or_eq.mp hi with hi | rfl
    · exact h.1 i hi
    · exact hn

/-- A round of the loop goes on just if the push is taken and bytes are left to be read. -/
theorem recvmsg_turn (closed : Bool) {t : Stream} {n : ℕ}
    (ht : t.turn = .reading ((bytes : ℤ) - total o n)) :
    (¬ Stops (o n) ∧ total o (n + 1) < bytes →
      (t.next (.recvmsg (o n).1 (o n).2 closed)).turn =
        .reading ((bytes : ℤ) - total o (n + 1))) ∧
    (¬ (¬ Stops (o n) ∧ total o (n + 1) < bytes) →
      (t.next (.recvmsg (o n).1 (o n).2 closed)).turn = .idle) := by
  simp only [Stream.next, ht, total]
  obtain ⟨r, more⟩ := o n
  cases r with
  | error lasterror => exact ⟨fun h => absurd trivial h.1, fun _ => rfl⟩
  | message data =>
    have hleft : ((bytes : ℤ) - total o n) - data.length =
        (bytes : ℤ) - (total o n + data.length : ℕ) := by omega
    have hiff : (more = true ∧ 0 < ((bytes : ℤ) - total o n) - data.length) ↔
        ¬ Stops (.message data, more) ∧ total o n + data.length < bytes := by
      simp only [Stops, Bool.not_eq_false]
      exact and_congr_right fun _ => by omega
    simp only [Read, Stream.onRead, ← hleft, ← hiff]
    exact ⟨fun h => if_pos h, fun h => if_neg h⟩

theorem afterReads_turn (closed : Bool) (hfd : s.fd ≠ none) (hbytes : 1 ≤ bytes) (n : ℕ) :
    (GoesOn bytes o n →
      (s.afterReads bytes o closed n).turn = .reading ((bytes : ℤ) - total o n)) ∧
    (¬ GoesOn bytes o n → (s.afterReads bytes o closed n).turn = .idle) := by
  induction n with
  | zero =>
    have hbegin : (s.afterReads bytes o closed 0).turn = .reading bytes := by
      simp only [Stream.afterReads, Stream.readSocketAndPush]
      cases h : s.fd with
      | none => exact absurd h hfd
      | some v => rfl
    refine ⟨fun _ => by simpa [total] using hbegin, fun hn => ?_⟩
    exact absurd ⟨fun _ hi => absurd hi (Nat.not_lt_zero _), hbytes⟩ hn
  | succ n ih =>
    rw [goesOn_succ_iff]
    by_cases hgoes : GoesOn bytes o n
    · obtain ⟨hon, hover⟩ := recvmsg_turn closed (ih.1 hgoes)
      exact ⟨fun h => hon h.2, fun h => hover fun hn => h ⟨hgoes, hn⟩⟩
    · have hidle := ih.2 hgoes
      have hnext : s.afterReads bytes o closed (n + 1) = s.afterReads bytes o closed n := by
        simp only [Stream.afterReads, Stream.next, hidle]
      rw [hnext]
      exact ⟨fun h => absurd h.1 hgoes, fun _ => hidle⟩

theorem endsWithin_of_nonempty (h : ∀ i data, (o i).1 = .message data → data ≠ []) :
    EndsWithin bytes o := by
  by_cases hstops : ∃ i < bytes, Stops (o i)
  · exact .inl hstops
  · push Not at hstops
    have hle : ∀ n ≤ bytes, n ≤ total o n := by
      intro n hn
      induction n with
      | zero => exact Nat.zero_le _
      | succ n ih =>
        have hread := hstops n hn
        have hmessage := h n
        have hn := ih (Nat.le_of_succ_le hn)
        rw [total]
        rcases ho : o n with ⟨r, more⟩
        rw [ho] at hread hmessage
        cases r with
        | error lasterror => exact absurd trivial hread
        | message data =>
          have hpos : 0 < data.length := List.length_pos_iff.mpr (hmessage data rfl)
          exact Nat.add_le_add hn hpos
    exact .inr (hle bytes le_rfl)

/-- The call returns within `bytes` reads just if it has nothing to read from or the first
`bytes` reads stop it or bring the bytes. -/
theorem returns_within_iff (s : Stream) (hidle : s.turn = .idle) (bytes : ℕ) (hbytes : 1 ≤ bytes)
    (o : ℕ → Recvmsg × Bool) (closed : Bool) :
    (s.afterReads bytes o closed bytes).turn = .idle ↔ s.fd = none ∨ EndsWithin bytes o := by
  cases hfd : s.fd with
  | none =>
    have hreturned : ∀ n, (s.afterReads bytes o closed n).turn = .idle := by
      intro n
      induction n with
      | zero =>
        simp only [Stream.afterReads, Stream.readSocketAndPush, hfd]
        exact hidle
      | succ n ih => simp only [Stream.afterReads, Stream.next, ih]
    exact ⟨fun _ => .inl rfl, fun _ => hreturned bytes⟩
  | some v =>
    obtain ⟨hon, hover⟩ := afterReads_turn closed (o := o)
      (show s.fd ≠ none by simp [hfd]) hbytes bytes
    have hgoes : GoesOn bytes o bytes ↔ ¬ EndsWithin bytes o := by
      simp [GoesOn, EndsWithin]
    rw [hgoes] at hon hover
    constructor
    · intro hturn
      refine .inr (by_contra fun hn => ?_)
      rw [hon hn] at hturn
      cases hturn
    · rintro (hnone | hends)
      · cases hnone
      · exact hover (not_not.mpr hends)

theorem returns_within_iff_oneByte :
    (((start 7).connect true).afterReads 2 (fun _ => (.message [1], true)) true 2).turn = .idle :=
  (returns_within_iff ((start 7).connect true) rfl 2 (by decide) _ true).mpr
    (.inr (.inr (by decide)))

/-- Reads of no bytes keep the loop where it is. -/
theorem empty_reads_spin (hfd : s.fd ≠ none) (hbytes : 1 ≤ bytes)
    (h : ∀ i, o i = (.message [], true)) (n : ℕ) :
    (s.afterReads bytes o closed n).turn = .reading bytes := by
  have htotal : total o n = 0 := by
    induction n with
    | zero => rfl
    | succ n ih => simp [total, h, ih]
  have hgoes : GoesOn bytes o n := ⟨fun i _ => by simp [h, Stops], by omega⟩
  simpa [htotal] using (afterReads_turn closed hfd hbytes n).1 hgoes

/-- A connection that keeps yielding reads of no bytes is read for ever. -/
theorem closed_connection_spins :
    ¬ ∀ (socket : ℤ) (s : Stream) (bytes : ℕ) (o : ℕ → Recvmsg × Bool) (closed : Bool),
      onLibsrt.Execution (start socket) s → s.turn = .idle → 1 ≤ bytes →
        ∃ n ≤ bytes, (s.afterReads bytes o closed n).turn = .idle := by
  intro h
  have hrun := onLibsrt.execution_of_trace (start 7) [.connect true] (by decide)
  obtain ⟨n, -, hn⟩ := h 7 _ 1 (fun _ => (.message [], true)) true hrun (by decide) le_rfl
  rw [empty_reads_spin (by decide) le_rfl fun _ => rfl] at hn
  cases hn

/-! ## Runs -/

def Unbroken (_ : Stream) : StreamEvent → Prop
  | .recvmsg (.error lasterror) _ _ => lasterror = SRT_EASYNCRCV
  | .pollEvent a => ¬ a.Gone
  | .destroy _ => False
  | _ => True

instance (s : Stream) : (e : StreamEvent) → Decidable (Unbroken s e)
  | .recvmsg (.error _) _ _ => inferInstanceAs (Decidable (_ = _))
  | .pollEvent _ => inferInstanceAs (Decidable (¬ _))
  | .destroy _ => isFalse id
  | .listen _ | .connect _ | .read _ | .timer _ _ | .recvmsg (.message _) _ _ | .poll _ _ =>
    isTrue trivial

def StreamEvent.isDry : StreamEvent → Bool
  | .recvmsg (.error lasterror) _ _ => lasterror = SRT_EASYNCRCV
  | _ => false

def messages (es : List StreamEvent) : List Bytes :=
  es.filterMap fun e => match e with
    | .recvmsg (.message data) _ _ => some data
    | _ => none

/-- Every message is pushed once and in order, the stream is not destroyed, and a read that
finds no data leaves one timer armed. -/
structure OutlivesDryReads (s : Stream) (es : List StreamEvent) : Prop where
  pushed : (onLibsrt.runTrace s es).pushed = s.pushed ++ messages es
  not_destroyed : (onLibsrt.runTrace s es).destroyed = false
  retried : ∀ before after e, es = before ++ e :: after → e.isDry = true →
    (onLibsrt.runTrace s (before ++ [e])).timers.length = 1

theorem next_of_flowing {e : StreamEvent} (he : (onLibsrt.restrict Unbroken).Enabled s e)
    (hdry : e.isDry = false) :
    (s.next e).pushed = s.pushed ++ messages [e] ∧ (s.next e).destroyed = s.destroyed := by
  obtain ⟨⟨he, -⟩, hunbroken⟩ := he
  cases e with
  | recvmsg r more closed =>
    cases r with
    | message data =>
      cases hturn : s.turn with
      | reading remainingBytes =>
        simp only [Stream.next, hturn]
        exact ⟨rfl, rfl⟩
      | _ => simp [machine, Stream.Enabled, hturn] at he
    | error lasterror => simp [StreamEvent.isDry, show lasterror = _ from hunbroken] at hdry
  | destroy closed => exact hunbroken.elim
  | _ => exact ⟨(next_frame rfl).1.trans (List.append_nil _).symm, (next_frame rfl).2⟩

theorem runTrace_of_flowing {es : List StreamEvent}
    (h : (onLibsrt.restrict Unbroken).ValidTrace s es) (hdry : ∀ e ∈ es, e.isDry = false) :
    (onLibsrt.runTrace s es).pushed = s.pushed ++ messages es ∧
      (onLibsrt.runTrace s es).destroyed = s.destroyed := by
  induction es generalizing s with
  | nil => simp [Machine.runTrace, messages]
  | cons e es ih =>
    obtain ⟨hpushed, hdestroyed⟩ := next_of_flowing h.1 (hdry e List.mem_cons_self)
    obtain ⟨hrest, hrest'⟩ := ih h.2 fun e he => hdry e (List.mem_cons_of_mem _ he)
    refine ⟨hrest.trans ?_, hrest'.trans hdestroyed⟩
    rw [show ((onLibsrt.restrict Unbroken).next s e).pushed = _ from hpushed, List.append_assoc]
    simp only [messages, ← List.filterMap_append, List.singleton_append]

theorem runTrace_destroyed (h : s.destroyed = true) (es : List StreamEvent) :
    (onLibsrt.runTrace s es).destroyed = true := by
  induction es generalizing s with
  | nil => exact h
  | cons e es ih => exact ih (next_destroyed h e)

/-- A read that finds no data closes the stream. -/
theorem next_of_dry {e : StreamEvent} (he : s.Enabled e) (hdry : e.isDry = true) :
    (s.next e).destroyed = true := by
  cases e with
  | recvmsg r more closed =>
    cases r with
    | message data => cases hdry
    | error lasterror =>
      rw [next_error he]
      exact destroy_destroyed s closed
  | _ => cases hdry

theorem runTrace_of_dry {es : List StreamEvent}
    (h : (onLibsrt.restrict Unbroken).ValidTrace s es) (hdry : ∃ e ∈ es, e.isDry = true) :
    (onLibsrt.runTrace s es).destroyed = true := by
  induction es generalizing s with
  | nil => simp at hdry
  | cons e es ih =>
    obtain ⟨e', hmem, hdry⟩ := hdry
    rcases List.mem_cons.mp hmem with rfl | hmem
    · exact runTrace_destroyed (next_of_dry h.1.1.1 hdry) es
    · exact ih h.2 ⟨e', hmem, hdry⟩

/-- A stream outlives a run of an unbroken connection just if no read in it finds no data. -/
theorem outlives_iff {s : Stream} (hlive : s.destroyed = false) {es : List StreamEvent}
    (h : (onLibsrt.restrict Unbroken).ValidTrace s es) :
    OutlivesDryReads s es ↔ ∀ e ∈ es, e.isDry = false := by
  constructor
  · intro houtlives e he
    by_contra hdry
    have hdestroyed := runTrace_of_dry h ⟨e, he, by simpa using hdry⟩
    rw [houtlives.not_destroyed] at hdestroyed
    cases hdestroyed
  · intro hdry
    obtain ⟨hpushed, hdestroyed⟩ := runTrace_of_flowing h hdry
    refine ⟨hpushed, hdestroyed.trans hlive, fun before after e he hedry => ?_⟩
    have hflows := hdry e (he ▸ List.mem_append_right _ List.mem_cons_self)
    rw [hedry] at hflows
    cases hflows

def twoMessages : List StreamEvent :=
  [.read 2, .recvmsg (.message [1]) true true, .recvmsg (.message [2]) true true]

theorem outlives_iff_twoMessages : OutlivesDryReads ((start 7).connect true) twoMessages :=
  (outlives_iff rfl (by decide)).mpr (by decide)

/-- The second read finds no data yet. -/
def messageThenDry : List StreamEvent :=
  [.read 2, .recvmsg (.message [1]) true true, .recvmsg (.error SRT_EASYNCRCV) true true]

/-- A momentary lack of data ends the stream. -/
theorem dry_read_destroys :
    ¬ ∀ (socket : ℤ) (s : Stream) (es : List StreamEvent),
      onLibsrt.Execution (start socket) s → s.fd ≠ none → s.destroyed = false →
        (onLibsrt.restrict Unbroken).ValidTrace s es → OutlivesDryReads s es := by
  intro h
  have hrun := onLibsrt.execution_of_trace (start 7) [.connect true] (by decide)
  have houtlives := h 7 _ messageThenDry hrun (by decide) (by decide) (by decide)
  exact absurd houtlives.not_destroyed (by decide)

end ReadStream
