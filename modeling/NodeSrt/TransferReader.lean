import NodeSrt.Transfer

/-! # The reading side of a transfer

`sent` is the history of the channel. Each executed read has taken the message at its own
position, and the loop has collected the messages of the reads it has been answered. -/
namespace Transfer

open AsyncValues
open TransitionSystem
open AsyncApi
open OrderedPort
open ReadModes

inductive ReadPhase (minBytesRead : ℕ) (s : Reading) : Prop where
  | idle (started : s.started = false) (awaited : s.awaited = none)
      (calls : s.sys.nextCall = s.chunks.length) (returned : s.returned = none)
  | awaiting (started : s.started = true) (awaited : s.awaited = some (.promise s.chunks.length))
      (calls : s.sys.nextCall = s.chunks.length + 1) (returned : s.returned = none)
  | done (started : s.started = true) (awaited : s.awaited = none)
      (calls : s.sys.nextCall = s.chunks.length)
      (returned : s.returned = some (.fulfilled s.chunks)) (enough : minBytesRead ≤ s.bytesRead)

/-- The instance with its worker: read `k` has taken message `k`. -/
structure Served (size : ℕ) (sent channel : List Bytes) (sys : AsyncSRT Unit) : Prop where
  invariant : Invariant sys
  held : sys.worker = true
  undisposed : sys.startedToDispose = false
  posted : ∀ q ∈ sys.posted, q.1.useTimeout = false ∧ requestedSize q.2 = some (size : ℤ)
  outcomes : sys.executed.map Prod.snd =
    (sent.take sys.executed.length).map fun msg => .ok (.bytes msg)
  executed_le : sys.executed.length ≤ sent.length
  channel : channel = sent.drop sys.executed.length

/-- The loop: it holds the first messages of the channel. -/
structure Collected (minBytesRead : ℕ) (sent : List Bytes) (s : Reading) : Prop where
  chunks : s.chunks <+: sent
  bytes : s.bytesRead = s.chunks.flatten.length
  phase : ReadPhase minBytesRead s

theorem initial_served (size : ℕ) : Served size [] [] (AsyncApi.initial : AsyncSRT Unit) where
  invariant := initial_invariant
  held := rfl
  undisposed := rfl
  posted := by simp [AsyncApi.initial]
  outcomes := rfl
  executed_le := le_rfl
  channel := rfl

theorem initial_collected (minBytesRead : ℕ) : Collected minBytesRead [] Reading.initial :=
  ⟨List.prefix_refl _, rfl, .idle rfl rfl rfl rfl⟩

namespace Served

variable {size : ℕ} {sent channel : List Bytes} {sys : AsyncSRT Unit}

theorem extend (h : Served size sent channel sys) (data : Bytes) :
    Served size (sendMessage sent data) (sendMessage channel data) sys := by
  unfold sendMessage
  split
  · exact h
  · refine { h with outcomes := ?_, executed_le := ?_, channel := ?_ }
    · rw [List.take_append_of_le_length h.executed_le]
      exact h.outcomes
    · exact h.executed_le.trans (by simp)
    · rw [List.drop_append_of_le_length h.executed_le, ← h.channel]

theorem accepts (h : Served size sent channel sys) (fd : ℤ) :
    Accepts sys (.read (.number fd) (.number size)) := by
  refine ⟨⟨rfl, h.held, h.undisposed, rfl⟩, rfl, ?_, ?_, List.nodup_nil⟩
  · simp [ApiCall.post, JSValue.Cloneable]
  · intro b hb
    cases hb

theorem step_read (h : Served size sent channel sys) (fd : ℤ) :
    Served size sent channel (sys.apiCall (.read (.number fd) (.number size)) false ()).1 ∧
      (sys.apiCall (.read (.number fd) (.number size)) false ()).1.nextCall = sys.nextCall + 1 ∧
      (sys.apiCall (.read (.number fd) (.number size)) false ()).2 = .promise sys.nextCall := by
  have ha := h.accepts fd
  have hinv := step_preserves_invariant h.invariant
    (e := .call (.read (.number fd) (.number size)) false ()) ⟨trivial, ha.not_throws⟩
  simp only [AsyncApi.next] at hinv
  rw [apiCall_of_accepts ha] at hinv ⊢
  refine ⟨{ h with invariant := hinv, posted := ?_ }, rfl, rfl⟩
  intro q hq
  rcases List.mem_append.mp hq with hq | hq
  · exact h.posted q hq
  · rw [List.mem_singleton.mp hq]
    exact ⟨rfl, rfl⟩

theorem step_deliver (h : Served size sent channel sys) (he : AsyncApi.Enabled sys .deliver) :
    Served size sent channel (AsyncApi.next sys .deliver) := by
  obtain ⟨data, rest, hdata⟩ := List.exists_cons_of_ne_nil he.1
  have hinv := step_preserves_invariant h.invariant (e := .deliver) ⟨he, trivial⟩
  have hnext : AsyncApi.next sys .deliver = sys.deliver data := by
    simp [AsyncApi.next, hdata]
  have hf := deliver_frame sys data
  simp only [Prod.mk.injEq, ← hnext] at hf
  obtain ⟨e₁, e₂, e₃, _, e₅, _, _⟩ := hf
  refine ⟨hinv, e₂.trans h.held, e₃.trans h.undisposed, fun q hq => h.posted q (e₁ ▸ hq),
    ?_, ?_, ?_⟩
  · rw [e₅]
    exact h.outcomes
  · rw [e₅]
    exact h.executed_le
  · rw [e₅]
    exact h.channel

theorem step_exec (h : Served size sent channel sys) {post : AsyncSRTWorkerPost}
    {posts : List AsyncSRTWorkerPost} (hq : sys.toWorker = post :: posts) {msg : Bytes}
    {msgs : List Bytes} (hc : channel = msg :: msgs) (hlen : msg.length ≤ size) {o : Outcome}
    (hs : Serves post msg o) : Served size sent msgs (AsyncApi.next sys (.exec o)) := by
  have hphase : sys.disposing ≠ .finished := by
    intro hd
    have hheld := h.invariant.disposal.held.mp h.held
    simp [hd] at hheld
  have hinv := step_preserves_invariant h.invariant (e := .exec o)
    ⟨⟨by simp [hq], hphase⟩, trivial⟩
  have hnext : AsyncApi.next sys (.exec o) = sys.exec post o := by simp [AsyncApi.next, hq]
  have ht := h.invariant.correlated.transit
  rw [hq] at ht
  obtain ⟨q, hq', hpost⟩ := List.mem_map.mp (List.mem_of_getElem? ht.served_next)
  have hdef : anyUndefined post.args = false := hpost ▸ h.invariant.correlated.defined q hq'
  have hsize : requestedSize post = some (size : ℤ) := hpost ▸ (h.posted q hq').2
  have ho : o = .ok (.bytes msg) := hs size hsize (by exact_mod_cast hlen)
  obtain ⟨hmsg, hmsgs⟩ := drop_eq_cons (h.channel.symm.trans hc)
  have hlt := (List.getElem?_eq_some_iff.mp hmsg).1
  have hexec : (sys.exec post o).executed = sys.executed ++ [(post, o)] := by
    simp [AsyncSRT.exec, hdef]
  rw [hnext] at hinv ⊢
  refine { h with invariant := hinv, outcomes := ?_, executed_le := ?_, channel := ?_ }
  · rw [hexec, List.length_append, List.length_singleton, List.take_add_one, hmsg,
      List.map_append, List.map_append, h.outcomes, ho]
    rfl
  · rw [hexec, List.length_append, List.length_singleton]
    omega
  · rw [hexec, List.length_append, List.length_singleton]
    exact hmsgs.symm

theorem promise_cases (h : Served size sent channel sys) (k : ℕ) :
    sys.promise k = .pending ∨
      ∃ msg, sent[k]? = some msg ∧ sys.promise k = .fulfilled (.bytes msg) := by
  have hset := h.invariant.settled
  cases hp : sys.promise k with
  | pending => exact Or.inl rfl
  | rejected e =>
    obtain ⟨ms, q, hq, huse, _⟩ := hset.late k (hset.refused k e hp)
    rw [(h.posted q (List.mem_of_getElem? hq)).1] at huse
    cases huse
  | fulfilled v =>
    obtain ⟨_, m, hm, hv⟩ := hset.fulfilled k v hp
    have hcorr := h.invariant.correlated
    have hk : k < sys.executed.length := by
      rw [hcorr.executed_length]
      exact (List.getElem?_eq_some_iff.mp hm).1
    have hget := congrArg (fun l : List Outcome => l[k]?) h.outcomes
    rw [hcorr.outcomes, List.getElem?_map] at hm
    obtain ⟨x, hx, rfl⟩ := Option.map_eq_some_iff.mp hm
    simp only [List.getElem?_map, hx, List.getElem?_take_of_lt hk, Option.map_some] at hget
    obtain ⟨msg, hmsg, ho⟩ := Option.map_eq_some_iff.mp hget.symm
    refine Or.inr ⟨msg, hmsg, ?_⟩
    rw [← hv, ← ho]
    rfl

end Served

namespace Collected

variable {minBytesRead : ℕ} {sent : List Bytes} {s : Reading}

theorem extend (h : Collected minBytesRead sent s) (data : Bytes) :
    Collected minBytesRead (sendMessage sent data) s := by
  refine ⟨?_, h.bytes, h.phase⟩
  unfold sendMessage
  split
  · exact h.chunks
  · exact h.chunks.trans (List.prefix_append _ _)

theorem step_sys (h : Collected minBytesRead sent s) {sys : AsyncSRT Unit}
    (hn : sys.nextCall = s.sys.nextCall) : Collected minBytesRead sent { s with sys := sys } := by
  refine ⟨h.chunks, h.bytes, ?_⟩
  cases h.phase with
  | idle h₁ h₂ h₃ h₄ => exact .idle h₁ h₂ (hn.trans h₃) h₄
  | awaiting h₁ h₂ h₃ h₄ => exact .awaiting h₁ h₂ (hn.trans h₃) h₄
  | done h₁ h₂ h₃ h₄ h₅ => exact .done h₁ h₂ (hn.trans h₃) h₄ h₅

end Collected

/-- At its head the loop either waits for the next message or has enough. -/
theorem loopHead_spec {minBytesRead size : ℕ} {sent channel : List Bytes} {s : Reading} (fd : ℤ)
    (h : Served size sent channel s.sys) (started : s.started = true) (awaited : s.awaited = none)
    (returned : s.returned = none) (calls : s.sys.nextCall = s.chunks.length)
    (chunks : s.chunks <+: sent) (bytes : s.bytesRead = s.chunks.flatten.length) :
    Served size sent channel (s.loopHead (readArgs fd minBytesRead size)).sys ∧
      Collected minBytesRead sent (s.loopHead (readArgs fd minBytesRead size)) := by
  obtain ⟨hread, hnext, hret⟩ := h.step_read fd
  by_cases hb : s.bytesRead < minBytesRead
  · have hhead : s.loopHead (readArgs fd minBytesRead size) = { s with
        sys := (s.sys.apiCall (.read (.number fd) (.number size)) false ()).1
        awaited := some (.promise s.sys.nextCall) } := by
      simp only [Reading.loopHead, readArgs, hb, if_true]
      rw [← hret]
    rw [hhead]
    exact ⟨hread, chunks, bytes,
      .awaiting started (by simp [calls]) (by simp only [hnext, calls]) returned⟩
  · have hhead : s.loopHead (readArgs fd minBytesRead size) =
        { s with returned := some (.fulfilled s.chunks) } := by
      simp only [Reading.loopHead, readArgs, hb, if_false]
    rw [hhead]
    exact ⟨h, chunks, bytes, .done started awaited calls rfl (by simpa using hb)⟩

theorem begin_spec {minBytesRead size : ℕ} {sent channel : List Bytes} {s : Reading} (fd : ℤ)
    (h : Served size sent channel s.sys) (hc : Collected minBytesRead sent s)
    (he : s.started = false) :
    Served size sent channel (s.next (readArgs fd minBytesRead size) .begin).sys ∧
      Collected minBytesRead sent (s.next (readArgs fd minBytesRead size) .begin) := by
  cases hc.phase with
  | idle _ awaited calls returned =>
    exact loopHead_spec (s := { s with started := true }) fd h rfl awaited returned calls
      hc.chunks hc.bytes
  | awaiting started => rw [he] at started; cases started
  | done started => rw [he] at started; cases started

theorem resume_spec {minBytesRead size : ℕ} {sent channel : List Bytes} {s : Reading} (fd : ℤ)
    (h : Served size sent channel s.sys) (hc : Collected minBytesRead sent s) (threw : Bool)
    (he : s.readReturn ≠ .pending) :
    Served size sent channel (s.next (readArgs fd minBytesRead size) (.resume threw)).sys ∧
      Collected minBytesRead sent (s.next (readArgs fd minBytesRead size) (.resume threw)) := by
  cases hc.phase with
  | idle _ awaited => simp [Reading.readReturn, awaited] at he
  | done _ awaited => simp [Reading.readReturn, awaited] at he
  | awaiting started awaited calls returned =>
    have hret : s.readReturn = s.sys.promise s.chunks.length := by
      simp [Reading.readReturn, awaited]
    rcases h.promise_cases s.chunks.length with hp | ⟨msg, hmsg, hp⟩
    · exact absurd (hret.trans hp) he
    · have hbody : s.next (readArgs fd minBytesRead size) (.resume threw) =
          Reading.loopHead (readArgs fd minBytesRead size) { s with
            awaited := none
            bytesRead := s.bytesRead + msg.length
            chunks := s.chunks ++ [msg] } := by
        simp [Reading.next, Reading.resume, hret, hp, Reading.handle, readArgs]
      rw [hbody]
      refine loopHead_spec fd h started rfl returned (by simp [calls]) ?_ ?_
      · obtain ⟨rest, hrest⟩ := hc.chunks
        have hget : rest[0]? = some msg := by
          rw [← hrest, List.getElem?_append_right le_rfl, Nat.sub_self] at hmsg
          exact hmsg
        cases rest with
        | nil => cases hget
        | cons m rest =>
          obtain rfl : m = msg := by simpa using hget
          exact ⟨rest, by simp [← hrest]⟩
      · simp [hc.bytes]

end Transfer
