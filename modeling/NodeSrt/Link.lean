import NodeSrt.Simulation

/-! # A link that keeps order, loses messages and may break

Messages are taken whole and in the order they were sent. Any message on its way may be dropped.
When the link breaks, some of those on their way may still arrive, and none can be sent any
more. -/
namespace Link

open TransitionSystem

variable {α : Type*}

structure State (α : Type*) where
  sent : List α
  pending : List α
  received : List α
  dropped : Bool
  broken : Bool

def initial : State α := ⟨[], [], [], false, false⟩

inductive Event (α : Type*) where
  | send (a : α)
  | receive (a : α)
  | drop (position : ℕ)
  | sever (arriving : ℕ)

def Enabled (s : State α) : Event α → Prop
  | .send _ => s.broken = false
  | .receive a => s.pending.head? = some a
  | .drop _ | .sever _ => True

def next (s : State α) : Event α → State α
  | .send a => { s with sent := s.sent ++ [a], pending := s.pending ++ [a] }
  | .receive a => { s with pending := s.pending.tail, received := s.received ++ [a] }
  | .drop position => { s with pending := s.pending.eraseIdx position, dropped := true }
  | .sever arriving => { s with pending := s.pending.take arriving, broken := true }

def machine (α : Type*) : Machine (State α) (Event α) := ⟨Enabled, next⟩

/-- Nothing comes twice or out of order. Nothing is lost but what is dropped and what was on its
way when the link broke. -/
structure Orderly (s : State α) : Prop where
  ordered : List.Sublist (s.received ++ s.pending) s.sent
  kept : s.dropped = false → s.received ++ s.pending <+: s.sent
  whole : s.dropped = false → s.broken = false → s.received ++ s.pending = s.sent

theorem Orderly.step {s : State α} (h : Orderly s) {e : Event α} (he : Enabled s e) :
    Orderly (next s e) := by
  cases e with
  | send a =>
    have hassoc : s.received ++ (s.pending ++ [a]) = s.received ++ s.pending ++ [a] :=
      (List.append_assoc _ _ _).symm
    have hw : s.dropped = false → s.received ++ (s.pending ++ [a]) = s.sent ++ [a] :=
      fun hd => by rw [hassoc, h.whole hd he]
    refine ⟨?_, fun hd => hw hd ▸ List.prefix_rfl, fun hd _ => hw hd⟩
    simp only [next, hassoc]
    exact h.ordered.append (List.Sublist.refl _)
  | receive a =>
    obtain ⟨rest, hrest⟩ := List.head?_eq_some_iff.mp he
    have he' : (s.received ++ [a]) ++ s.pending.tail = s.received ++ s.pending := by
      simp [hrest]
    exact ⟨he' ▸ h.ordered, fun hd => he' ▸ h.kept hd, fun hd hb => he'.trans (h.whole hd hb)⟩
  | drop position =>
    refine ⟨?_, fun hd => (by cases hd), fun hd => (by cases hd)⟩
    exact ((List.Sublist.refl _).append (List.eraseIdx_sublist _ _)).trans h.ordered
  | sever arriving =>
    refine ⟨?_, fun hd => ?_, fun _ hb => by cases hb⟩
    · exact ((List.Sublist.refl _).append (List.take_sublist _ _)).trans h.ordered
    · apply List.IsPrefix.trans _ (h.kept hd)
      exact (List.prefix_append_right_inj _).mpr (List.take_prefix _ _)

end Link
