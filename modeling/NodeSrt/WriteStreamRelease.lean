import NodeSrt.WriteStream

/-! # Closing and destroying an SRTWriteStream

`close`, `_destroy` and a failing `connect` close the socket, and none of them looks whether it
is closed. The callback of `_destroy` is only called when `srt.close` throws. -/
namespace WriteStream

open TransitionSystem
open AsyncValues

/-- The native close of a socket that is closed already throws. -/
def Documented (s : Stream) : StreamEvent → Prop
  | .connect _ closeResult => s.socketClosed = true → throws closeResult = true
  | .close result | .destroy result => s.socketClosed = true → throws result = true
  | .write _ _ => True

instance (s : Stream) : (e : StreamEvent) → Decidable (Documented s e)
  | .connect _ _ | .close _ | .destroy _ => inferInstanceAs (Decidable (_ → _))
  | .write _ _ => isTrue trivial

def onLibsrt : Machine Stream StreamEvent := machine.restrict Documented

instance (s : Stream) (e : StreamEvent) : Decidable (onLibsrt.Enabled s e) :=
  inferInstanceAs (Decidable (_ ∧ Documented s e))

structure ClosesOnce (s : Stream) : Prop where
  at_most_once : s.nativeCloses ≤ 1
  destroyed : s.destroyed = true → s.nativeCloses = 1
  quiet : s.closedTwice = 0
  completes : ∀ calls ∈ s.destroys, calls = 1

def ClosesFirst (s : Stream) : StreamEvent → Prop
  | .connect result _ => throws result = true → s.nativeCloses = 0
  | .write _ _ => True
  | .close _ => s.nativeCloses = 0
  | .destroy result => s.destroyed = false → s.nativeCloses = 0 ∧ throws result = true

instance (s : Stream) : (e : StreamEvent) → Decidable (ClosesFirst s e)
  | .connect _ _ | .destroy _ => inferInstanceAs (Decidable (_ → _))
  | .write _ _ => isTrue trivial
  | .close _ => inferInstanceAs (Decidable (_ = _))

variable {s : Stream}

@[simp] theorem close_frame (s : Stream) (result : ℤ) :
    (s.close result).nativeCloses = s.nativeCloses + 1 ∧
      (s.close result).socketClosed = (s.socketClosed || !throws result) ∧
      (s.close result).destroyed = s.destroyed ∧ (s.close result).destroys = s.destroys ∧
      (s.close result).closedTwice = s.closedTwice := by
  unfold Stream.close Stream.nativeClose
  split <;> exact ⟨rfl, rfl, rfl, rfl, rfl⟩

/-! ## Runs that close once -/

/-- A socket that is closed was closed by a call of `srt_close`. -/
structure Closing (s : Stream) : Prop extends ClosesOnce s where
  closed : s.socketClosed = true → s.nativeCloses = 1

theorem start_closing (socket : ℤ) : Closing (start socket) := by
  refine ⟨⟨?_, ?_, rfl, ?_⟩, ?_⟩ <;> simp [start]

theorem Closing.open (h : Closing s) (hn : s.nativeCloses = 0) :
    s.socketClosed = false ∧ s.destroyed = false := by
  constructor
  · by_contra hc
    have hone := h.closed (by simpa using hc)
    omega
  · by_contra hd
    have hone := h.destroyed (by simpa using hd)
    omega

theorem Closing.step (h : Closing s) {e : StreamEvent} (he : ClosesFirst s e) :
    Closing (s.next e) := by
  cases e with
  | connect result closeResult =>
    simp only [Stream.next, Stream.connect]
    split
    · have hn : s.nativeCloses = 0 := he ‹_›
      refine ⟨⟨?_, ?_, h.quiet, h.completes⟩, ?_⟩ <;> simp [Stream.nativeClose, hn]
    · exact ⟨⟨h.at_most_once, h.destroyed, h.quiet, h.completes⟩, h.closed⟩
  | write chunk result => exact ⟨⟨h.at_most_once, h.destroyed, h.quiet, h.completes⟩, h.closed⟩
  | close result =>
    have hn : s.nativeCloses = 0 := he
    obtain ⟨hopen, -⟩ := h.open hn
    have hquiet := h.quiet
    have hcompletes := h.completes
    refine ⟨⟨?_, ?_, ?_, ?_⟩, ?_⟩ <;>
      simp [Stream.next, Stream.closeByUser, hn, hopen, hquiet]
    exact hcompletes
  | destroy result =>
    simp only [Stream.next, Stream.destroy]
    split
    · exact h
    · obtain ⟨hn, hthrows⟩ := he (by simpa using ‹¬ s.destroyed = true›)
      have hquiet := h.quiet
      have hcompletes := h.completes
      refine ⟨⟨?_, ?_, ?_, ?_⟩, ?_⟩ <;> simp [hn, hquiet, hthrows]
      rintro calls (hmem | rfl)
      · exact hcompletes calls hmem
      · rfl

/-! ## Runs that do not -/

def Spoiled (s : Stream) : Prop := 2 ≤ s.nativeCloses ∨ 0 ∈ s.destroys

theorem Spoiled.not_closesOnce (h : Spoiled s) : ¬ ClosesOnce s := by
  intro hc
  rcases h with h | h
  · exact absurd hc.at_most_once (by omega)
  · exact absurd (hc.completes 0 h) (by decide)

theorem Spoiled.step (h : Spoiled s) (e : StreamEvent) : Spoiled (s.next e) := by
  have grows : ∀ t : Stream, s.nativeCloses ≤ t.nativeCloses → s.destroys <+: t.destroys →
      Spoiled t := by
    intro t hn hd
    exact h.imp (fun h => h.trans hn) fun h => hd.subset h
  cases e with
  | connect result closeResult =>
    simp only [Stream.next, Stream.connect]
    split
    · exact grows _ (Nat.le_succ _) (List.prefix_refl _)
    · exact grows _ le_rfl (List.prefix_refl _)
  | write chunk result => exact h
  | close result =>
    exact grows (s.closeByUser result) (by simp [Stream.closeByUser])
      (by simp [Stream.closeByUser])
  | destroy result =>
    simp only [Stream.next, Stream.destroy]
    split
    · exact h
    · exact grows _ (by simp) (List.prefix_append _ _)

/-- A second close, or a `_destroy` that succeeds. -/
theorem spoils {e : StreamEvent} (he : ¬ ClosesFirst s e) : Spoiled (s.next e) := by
  cases e with
  | connect result closeResult =>
    simp only [ClosesFirst, Classical.not_imp] at he
    simp only [Stream.next, Stream.connect, if_pos he.1]
    exact Or.inl (Nat.succ_le_succ (Nat.one_le_iff_ne_zero.mpr he.2))
  | write chunk result => exact absurd trivial he
  | close result =>
    have hn : s.nativeCloses ≠ 0 := he
    refine Or.inl ?_
    simp only [Stream.next, Stream.closeByUser, close_frame]
    omega
  | destroy result =>
    simp only [ClosesFirst, Classical.not_imp] at he
    obtain ⟨hd, he⟩ := he
    simp only [Stream.next, Stream.destroy, hd, Bool.false_eq_true, if_false]
    by_cases hn : s.nativeCloses = 0
    · have hthrows : ¬ throws result = true := fun ht => he ⟨hn, ht⟩
      exact Or.inr (by simp [hthrows])
    · refine Or.inl ?_
      simp only [close_frame]
      omega

theorem Spoiled.runTrace (h : Spoiled s) (es : List StreamEvent) :
    Spoiled (onLibsrt.runTrace s es) := by
  induction es generalizing s with
  | nil => exact h
  | cons e es ih => exact ih (h.step e)

theorem Closing.closesOnce_iff (h : Closing s) {es : List StreamEvent}
    (hes : onLibsrt.ValidTrace s es) :
    ClosesOnce (onLibsrt.runTrace s es) ↔ (onLibsrt.restrict ClosesFirst).ValidTrace s es := by
  induction es generalizing s with
  | nil => exact iff_of_true h.toClosesOnce trivial
  | cons e es ih =>
    by_cases he : ClosesFirst s e
    · exact (ih (h.step he) hes.2).trans ⟨fun hrest => ⟨⟨hes.1, he⟩, hrest⟩, fun ht => ht.2⟩
    · exact iff_of_false ((spoils he).runTrace es).not_closesOnce fun ht => he ht.1.2

/-- A stream closes its socket once and completes its destruction just in the runs in which
every call that closes the socket is the first one and no `_destroy` closes it with success. -/
theorem closes_once_iff (socket : ℤ) {es : List StreamEvent}
    (h : onLibsrt.ValidTrace (start socket) es) :
    ClosesOnce (onLibsrt.runTrace (start socket) es) ↔
      (onLibsrt.restrict ClosesFirst).ValidTrace (start socket) es :=
  (start_closing socket).closesOnce_iff h

theorem closes_once_iff_closed :
    ClosesOnce (onLibsrt.runTrace (start 7) [.connect 0 0, .write [1] 1, .close 0]) :=
  (closes_once_iff 7 (by decide)).mpr (by decide)

/-- The stream is destroyed when it has ended: `_destroy` never calls back. -/
theorem destroy_never_completes :
    ¬ ∀ (socket : ℤ) (es : List StreamEvent), onLibsrt.ValidTrace (start socket) es →
      ClosesOnce (onLibsrt.runTrace (start socket) es) := by
  intro h
  have hbad := h 7 [.connect 0 0, .write [1] 1, .destroy 0] (by decide)
  exact absurd (hbad.completes 0 (by decide)) (by decide)

end WriteStream
