import Mathlib.Data.List.Basic
import Mathlib.Data.Nat.Basic

/-! # Positional correlation over an ordered port

A client sends requests over an ordered lossless port, a server answers them one by
one, and the answers come back in order without a name. `sent` and `served` are the
histories of both directions, `received` counts the answers the client has taken.
Everything in flight, and everything the client still waits for, is a window of them. -/
namespace OrderedPort

variable {α β κ : Type*}

structure InTransit (sent : List α) (served : List β) (received : ℕ)
    (requests : List α) (replies : List β) : Prop where
  received_le : received ≤ served.length
  served_le : served.length ≤ sent.length
  requests_eq : requests = sent.drop served.length
  replies_eq : replies = served.drop received

theorem drop_eq_cons {l : List α} {n : ℕ} {a : α} {rest : List α} (h : l.drop n = a :: rest) :
    l[n]? = some a ∧ l.drop (n + 1) = rest := by
  constructor
  · have := congrArg List.head? h
    simpa [List.head?_drop] using this
  · rw [← List.tail_drop, h]; rfl

theorem getElem?_of_prefix {l l' : List α} (h : l <+: l') {n : ℕ} {a : α}
    (ha : l[n]? = some a) : l'[n]? = some a := by
  obtain ⟨r, rfl⟩ := h
  rw [List.getElem?_append_left (List.getElem?_eq_some_iff.mp ha).1, ha]

theorem getElem?_concat_cases {l : List α} {n : ℕ} {a b : α} (h : (l ++ [b])[n]? = some a) :
    l[n]? = some a ∨ n = l.length ∧ a = b := by
  rw [List.getElem?_append] at h
  split at h
  · exact Or.inl h
  · obtain ⟨hn, hb⟩ := List.getElem?_eq_some_iff.mp h
    simp only [List.length_singleton] at hn
    exact Or.inr ⟨by omega, by simpa using hb.symm⟩

namespace InTransit

variable {sent : List α} {served : List β} {received : ℕ} {requests : List α} {replies : List β}

theorem empty : InTransit ([] : List α) ([] : List β) 0 [] [] :=
  ⟨le_rfl, le_rfl, rfl, rfl⟩

theorem send (h : InTransit sent served received requests replies) (a : α) :
    InTransit (sent ++ [a]) served received (requests ++ [a]) replies where
  received_le := h.received_le
  served_le := le_trans h.served_le (by simp)
  requests_eq := by rw [h.requests_eq, List.drop_append_of_le_length h.served_le]
  replies_eq := h.replies_eq

theorem serve {a : α} {rest : List α}
    (h : InTransit sent served received (a :: rest) replies) (b : β) :
    InTransit sent (served ++ [b]) received rest (replies ++ [b]) where
  received_le := le_trans h.received_le (by simp)
  served_le := by
    have := congrArg List.length h.requests_eq
    simp only [List.length_cons, List.length_drop] at this
    simp only [List.length_append, List.length_singleton]
    omega
  requests_eq := by
    rw [List.length_append, List.length_singleton, (drop_eq_cons h.requests_eq.symm).2]
  replies_eq := by rw [h.replies_eq, List.drop_append_of_le_length h.received_le]

theorem served_next {a : α} {rest : List α}
    (h : InTransit sent served received (a :: rest) replies) :
    sent[served.length]? = some a := (drop_eq_cons h.requests_eq.symm).1

theorem receive {b : β} {rest : List β}
    (h : InTransit sent served received requests (b :: rest)) :
    InTransit sent served (received + 1) requests rest where
  received_le := by
    have := congrArg List.length h.replies_eq
    simp only [List.length_cons, List.length_drop] at this
    omega
  served_le := h.served_le
  requests_eq := h.requests_eq
  replies_eq := (drop_eq_cons h.replies_eq.symm).2.symm

theorem received_next {b : β} {rest : List β}
    (h : InTransit sent served received requests (b :: rest)) :
    served[received]? = some b := (drop_eq_cons h.replies_eq.symm).1

theorem received_lt {b : β} {rest : List β}
    (h : InTransit sent served received requests (b :: rest)) : received < sent.length :=
  le_trans h.receive.received_le h.served_le

theorem waiting_head {waiting : List κ} {clients : List κ} {b : β} {rest : List β}
    (h : InTransit sent served received requests (b :: rest))
    (hw : waiting = clients.drop received) (hc : clients.length = sent.length) :
    ∃ k ks, waiting = k :: ks ∧ clients[received]? = some k ∧
      ks = clients.drop (received + 1) := by
  have hlt : received < clients.length := hc ▸ h.received_lt
  refine ⟨clients[received], clients.drop (received + 1), ?_, ?_, rfl⟩
  · rw [hw, List.drop_eq_getElem_cons hlt]
  · exact List.getElem?_eq_getElem hlt

/-- Answers in flight and requests in flight are together what is not yet received. -/
theorem outstanding (h : InTransit sent served received requests replies) :
    requests.length + replies.length = sent.length - received := by
  have h₁ := h.received_le
  have h₂ := h.served_le
  rw [h.requests_eq, h.replies_eq, List.length_drop, List.length_drop]
  omega

end InTransit

end OrderedPort
