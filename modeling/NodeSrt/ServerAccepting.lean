import NodeSrt.ServerDisconnection
import NodeSrt.SocketAsyncCalls

/-! # The connections a server announces

A handler takes the replies to its `accept` and `epollAddUsock` as they come. Where both have
succeeded and the instance is not disposing, the new connection is one of an accepted client
that is subscribed in an epoll of the server. It stays so: nothing that the object calls
closes a socket that was accepted. -/
namespace SocketAsync

open AsyncValues
open TransitionSystem
open AsyncApi
open NativeSrt
open ServerConnection (SRTServerConnection)

variable {σ ω : Type*} {lib : Libsrt σ ω} {p : Config} {s t u : State σ ω} {x : Prompt}
  {e : Event ω} {n : σ}

/-! ## What is announced -/

/-- An `accept` of a listening socket of the server gave this id. -/
def FromAccept (s : State σ ω) (fd : ℤ) : Prop :=
  ∃ u, Owned s (.number u) ∧ Heard s (.number u) ∧ s.Gave (acceptPost (.number u)) (.number fd)

/-- The id was added to an epoll of the server, and is still subscribed there. -/
def Watched (lib : Libsrt σ ω) (s : State σ ω) (fd : ℤ) : Prop :=
  ∃ epid v, Made s (.number epid) ∧ s.Gave (subscribePost (.number epid) (.number fd)) v ∧
    lib.subscribed s.asyncSrt.native epid fd

/-- Connections that are emitted or in the map are those of accepted clients. -/
structure AnnouncesReal (lib : Libsrt σ ω) (s : State σ ω) : Prop where
  emitted : ∀ c, .connection c ∈ s.log → ∃ conn fd, s.connections[c]? = some conn ∧
    conn.fd = .number fd ∧ FromAccept s fd ∧ Watched lib s fd
  map : ∀ k c, (k, c) ∈ s.connectionMap → ∃ conn fd, s.connections[c]? = some conn ∧
    k = .number fd ∧ conn.fd = .number fd ∧ FromAccept s fd ∧ Watched lib s fd

/-- A handler is about to make a connection for a call that failed, or while disposing. -/
def State.missesRefusal (s : State σ ω) : Bool :=
  match s.microtasks with
  | (.handling (.epollAddUsock fd), .ok v) :: _ =>
    fd = .number SRT_ERROR || v = .number SRT_ERROR || s.asyncSrt.async.startedToDispose
  | _ => false

def RefusalsSeen (s : State σ ω) : Event ω → Prop
  | .resume => s.missesRefusal = false
  | _ => True

instance (s : State σ ω) : (e : Event ω) → Decidable (RefusalsSeen s e)
  | .resume => inferInstanceAs (Decidable (s.missesRefusal = false))
  | .create | .opening | .dispose | .closeConnection _ | .listenerReturn _ | .resumeDispose
  | .exec | .deliver | .pollTimer | .pollDispose | .exited _ | .env _ => isTrue trivial

/-! ## Which sockets are subscribed -/

def Accepts (s : State σ ω) (fd : ℤ) : Prop :=
  ∃ u, (acceptPost (.number u), .ok (.number fd)) ∈ s.asyncSrt.async.executed

namespace Grounded

theorem known_of_subscribe (h : Grounded p s) (hw : Wired s)
    {q : OnResult Await × AsyncSRTWorkerPost} (hq : q ∈ s.asyncSrt.async.posted) {epid fd : ℤ}
    (he : q.2 = subscribePost (.number epid) (.number fd)) :
    fd = SRT_ERROR ∨ Makes s fd ∨ Accepts s fd := by
  have hmatch := hw.matched q hq
  rw [he] at hmatch
  obtain ⟨epid', fd', hpost, hadds⟩ := (h.justified q hq).adds hmatch
  rw [he] at hpost
  obtain ⟨-, rfl⟩ := subscribePost_injective hpost
  rcases hadds with ⟨-, hc⟩ | ⟨-, -, v, ⟨q', hq', o, hwait, hx, hv⟩, hfd⟩
  · obtain ⟨v, hx, -⟩ := hc.heard
    obtain ⟨q', hq', he'⟩ := hw.posted_of_executed hx
    have hlisten := h.justified q' hq'
    have hm := hw.matched q' hq'
    rw [he'] at hlisten hm
    rw [Await.eq_listen hm] at hlisten
    obtain ⟨-, b, ho, hb⟩ := hlisten
    rw [← listenPost_injective hb] at ho
    exact (h.makes_of_owned ho).imp id Or.inl
  · have haccept := h.justified q' hq'
    rw [hwait] at haccept
    obtain ⟨event, -, -, -, hb⟩ := haccept
    refine (resultOf_number (hv.symm.trans (Slot.ofReply_number hfd))).imp id fun ho => Or.inr ?_
    rw [hb, ho] at hx
    exact ⟨_, hx⟩

end Grounded

/-! ## Accepted sockets stay subscribed -/

/-- Made and accepted sockets differ, and the subscriptions of accepted ones last. -/
structure Lasting (lib : Libsrt σ ω) (s : State σ ω) : Prop where
  accepted : ∀ fd, Accepts s fd → fd ≠ SRT_ERROR ∧ lib.handedOut s.asyncSrt.native fd ∧ ¬ Makes s fd
  subscribed : ∀ fd epid v, Accepts s fd →
    (subscribePost (.number epid) (.number fd), .ok v) ∈ s.asyncSrt.async.executed →
    lib.subscribed s.asyncSrt.native epid fd

namespace Lasting

theorem of_eq (h : Lasting lib s) (he : (t.asyncSrt.native, t.asyncSrt.async.executed) =
    (s.asyncSrt.native, s.asyncSrt.async.executed)) : Lasting lib t := by
  simp only [Prod.mk.injEq] at he
  obtain ⟨hn, hx⟩ := he
  refine ⟨fun fd ha => ?_, fun fd epid v ha hs => ?_⟩
  · rw [Accepts, hx] at ha
    rw [Makes, hx, hn]
    exact h.accepted fd ha
  · rw [Accepts, hx] at ha
    exact hn ▸ h.subscribed fd epid v ha (hx ▸ hs)

theorem step_env (h : Lasting lib s) (hl : lib.Lawful) {w : ω}
    (he : (t.asyncSrt.native, t.asyncSrt.async.executed) =
      (lib.env s.asyncSrt.native w, s.asyncSrt.async.executed)) : Lasting lib t := by
  simp only [Prod.mk.injEq] at he
  obtain ⟨hn, hx⟩ := he
  refine ⟨fun fd ha => ?_, fun fd epid v ha hs => ?_⟩
  · rw [Accepts, hx] at ha
    rw [Makes, hx, hn]
    obtain ⟨hne, hout, hno⟩ := h.accepted fd ha
    exact ⟨hne, hl.handed_out_stays _ (.env w) fd hout, hno⟩
  · rw [Accepts, hx] at ha
    exact hn ▸ hl.only_close_unsubscribes _ (.env w) epid fd (by simp)
      (h.subscribed fd epid v ha (hx ▸ hs))

/-- A call of the worker closes no accepted socket. -/
theorem spared (h : Lasting lib s) (hg : Grounded p s) (hw : Wired s)
    {data : AsyncSRTWorkerPost} {rest : List AsyncSRTWorkerPost}
    (hq : s.asyncSrt.async.toWorker = data :: rest) {fd : ℤ} (ha : Accepts s fd) :
    lib.closes s.asyncSrt.native data fd = false := by
  by_contra hc
  obtain ⟨-, -, q, hmem, rfl, -⟩ := hw.executing hq
  obtain ⟨hne, -, hno⟩ := h.accepted fd ha
  have hc : lib.closes s.asyncSrt.native q.2 fd = true := by simpa using hc
  have ho := hg.owned_of_closes hw hmem hc
  rcases hg.makes_of_owned ho with herr | hm
  · exact hne herr
  · exact hno hm

theorem step_exec (h : Lasting lib s) (hl : lib.Lawful) (hf : lib.Fresh) (hg : Grounded p s)
    (hw : Wired s) (hmade : ∀ u, Makes s u → lib.handedOut s.asyncSrt.native u)
    {data : AsyncSRTWorkerPost} {rest : List AsyncSRTWorkerPost}
    (hq : s.asyncSrt.async.toWorker = data :: rest)
    (he : (t.asyncSrt.native, t.asyncSrt.async.executed) =
      ((lib.call s.asyncSrt.native data).1,
        s.asyncSrt.async.executed ++ [(data, (lib.call s.asyncSrt.native data).2)])) :
    Lasting lib t := by
  simp only [Prod.mk.injEq] at he
  obtain ⟨hn, hx⟩ := he
  have hacts : lib.Acts (fun _ => True) s.asyncSrt.native (lib.call s.asyncSrt.native data).1 :=
    Libsrt.acts_call (fun _ _ => trivial) fun _ _ => trivial
  -- a socket that is accepted now was not known before
  have hnew : ∀ {u fd}, data = acceptPost (.number u) →
      (lib.call s.asyncSrt.native data).2 = .ok (.number fd) →
      fd ≠ SRT_ERROR ∧ ¬ lib.handedOut s.asyncSrt.native fd ∧
        lib.handedOut (lib.call s.asyncSrt.native data).1 fd := by
    rintro u fd rfl ho
    exact hf.accepted hl ho
  have hmake : ∀ {u}, data = createPost →
      (lib.call s.asyncSrt.native data).2 = .ok (.number u) →
      ¬ lib.handedOut s.asyncSrt.native u := by
    rintro u rfl ho
    exact hf.created ho
  have hmakes : ∀ {u}, Makes t u → Makes s u ∨ data = createPost ∧
      (lib.call s.asyncSrt.native data).2 = .ok (.number u) := by
    intro u hm
    rw [Makes, hx] at hm
    refine (List.mem_append.mp hm).imp id fun hm => ?_
    obtain ⟨hpost, ho⟩ := Prod.mk.inj (List.mem_singleton.mp hm)
    exact ⟨hpost.symm, ho.symm⟩
  have haccepts : ∀ {fd}, Accepts t fd → Accepts s fd ∨ ∃ u, data = acceptPost (.number u) ∧
      (lib.call s.asyncSrt.native data).2 = .ok (.number fd) := by
    rintro fd ⟨u, hm⟩
    rw [hx] at hm
    refine (List.mem_append.mp hm).imp (fun hm => ⟨u, hm⟩) fun hm => ?_
    obtain ⟨hpost, ho⟩ := Prod.mk.inj (List.mem_singleton.mp hm)
    exact ⟨u, hpost.symm, ho.symm⟩
  refine ⟨fun fd ha => ?_, fun fd epid v ha hs => ?_⟩
  · rw [hn]
    rcases haccepts ha with ha | ⟨u, hpost, ho⟩
    · obtain ⟨hne, hout, hno⟩ := h.accepted fd ha
      refine ⟨hne, hl.handedOut hacts hout, fun hm => ?_⟩
      rcases hmakes hm with hm | ⟨hcreate, hok⟩
      · exact hno hm
      · exact hmake hcreate hok hout
    · obtain ⟨hne, hfresh, hout⟩ := hnew hpost ho
      refine ⟨hne, hout, fun hm => ?_⟩
      rcases hmakes hm with hm | ⟨hcreate, -⟩
      · exact hfresh (hmade fd hm)
      · cases hcreate.symm.trans hpost
  · rw [hn]
    rw [hx] at hs
    rcases List.mem_append.mp hs with hs | hs
    · rcases haccepts ha with ha | ⟨u, hpost, ho⟩
      · have hspared := h.spared hg hw hq ha
        exact hl.subscribed (Libsrt.acts_call_unclosed hspared) (h.subscribed fd epid v ha hs)
      · obtain ⟨hne, hfresh, -⟩ := hnew hpost ho
        obtain ⟨q, hmem, hsub⟩ := hw.posted_of_executed hs
        rcases hg.known_of_subscribe hw hmem hsub with herr | hm | ha
        · exact absurd herr hne
        · exact absurd (hmade fd hm) hfresh
        · exact absurd (h.accepted fd ha).2.1 hfresh
    · obtain ⟨hpost, ho⟩ := Prod.mk.inj (List.mem_singleton.mp hs)
      subst hpost
      exact hl.subscribes ho.symm

theorem step (h : Lasting lib s) (hl : lib.Lawful) (hf : lib.Fresh) (hg : Grounded p s)
    (hw : Wired s) (hmade : ∀ u, Makes s u → lib.handedOut s.asyncSrt.native u)
    (ha : Acts (nodeSRT lib) s t e) : Lasting lib t := by
  cases ha with
  | none he => exact h.of_eq he
  | exec hq he =>
    simp only [Prod.mk.injEq] at he
    exact h.step_exec hl hf hg hw hmade hq (Prod.ext he.1 he.2.1)
  | env he =>
    simp only [Prod.mk.injEq] at he
    exact h.step_env hl (Prod.ext he.1 he.2.1)

end Lasting

theorem execution_lasting (hl : lib.Lawful) (hf : lib.Fresh)
    (h : (machine (nodeSRT lib) p).Execution (initial n) s) : Lasting lib s := by
  have main : (machine (nodeSRT lib) p).Execution (initial n) s ∧ Lasting lib s := by
    refine h.invariant
      (I := fun s => (machine (nodeSRT lib) p).Execution (initial n) s ∧ Lasting lib s)
      ⟨.refl _, ?_⟩ fun u e hu he => ?_
    · constructor <;> simp [Accepts, initial, Backed.initial, AsyncApi.initial]
    · obtain ⟨hrun, hlast⟩ := hu
      obtain ⟨hw, -, hg⟩ := execution_grounded hrun
      have hc : Change (nodeSRT lib) p u e (next (nodeSRT lib) p u e) := hw.changes he
      exact ⟨hrun.tail he,
        hlast.step hl hf hg hw (execution_handedOut hl hrun) (hc.acts hw)⟩
  exact main.2

/-! ## Connections -/

/-- What the replies say of the fd of a connection. -/
def Announced (s : State σ ω) (fd : ℤ) : Prop :=
  FromAccept s fd ∧ ∃ epid v, Made s (.number epid) ∧
    s.Gave (subscribePost (.number epid) (.number fd)) v

structure Announces (s : State σ ω) : Prop where
  accepted : ∀ fd ∈ s.connections.map SRTServerConnection.fd, ∃ k, fd = .number k ∧ Announced s k
  emitted : ∀ c, .connection c ∈ s.log → c < (s.connections.map SRTServerConnection.fd).length
  map : ∀ k c, (k, c) ∈ s.connectionMap →
    (s.connections.map SRTServerConnection.fd)[c]? = some k

theorem initial_announces (n : σ) : Announces (initial n : State σ ω) := by
  constructor <;> simp [initial]

theorem Recalls.announced (k : Recalls s t) {fd : ℤ} (h : Announced s fd) : Announced t fd := by
  obtain ⟨⟨u, ho, hh, hg⟩, epid, v, hm, hs⟩ := h
  exact ⟨⟨u, k.owned ho, k.heard hh, k.gave hg⟩, epid, v, k.made hm, k.gave hs⟩

theorem mem_setConnection {fd k : JSValue} {c d : ℕ}
    (h : (k, d) ∈ (s.setConnection fd c).connectionMap) :
    (k, d) ∈ s.connectionMap ∨ k = fd ∧ d = c := by
  simp only [State.setConnection] at h
  split at h
  · exact (List.mem_append.mp h).imp id fun h => Prod.mk.inj (List.mem_singleton.mp h)
  · obtain ⟨x, hx, he⟩ := List.mem_map.mp h
    split at he
    · exact Or.inr (Prod.mk.inj he.symm)
    · exact Or.inl (he ▸ hx)

/-- The calls that a new connection rests on, both of them successful. -/
theorem Grounded.announced (h : Grounded p s)
    (hcalled : ∀ y ∈ s.asyncSrt.async.executed, ∃ m, y.2 = (lib.call m y.1).2) {fd : Slot}
    {v : ReturnValue} (hx : (.handling (.epollAddUsock fd), .ok v) ∈ s.microtasks)
    (hfd : fd ≠ .number SRT_ERROR) (hv : v ≠ .number SRT_ERROR)
    (hd : s.asyncSrt.async.startedToDispose = false) : ∃ k, fd = .number k ∧ Announced s k := by
  have hr := h.replied hx (by simp [Await.method]) (Or.inr hd)
  obtain ⟨q, hq, hwait, hgave⟩ := hr.gave hv
  have hj := h.justified q hq
  rw [hwait] at hj
  obtain ⟨epid, w, hm, ⟨q', hq', o, hwait', hx', hw⟩, rfl, hpost⟩ := hj
  have haccept := h.justified q' hq'
  rw [hwait'] at haccept
  obtain ⟨event, -, hheard, howned, hpost'⟩ := haccept
  rw [hpost'] at hx'
  rw [hpost] at hgave
  -- the reply to `accept` is a number
  obtain ⟨k, hk⟩ : ∃ k, w = .number k := by
    obtain ⟨m, hm⟩ := hcalled _ hx'
    have ho : o = (lib.accept m event.socket).2 := hm
    simp only [Libsrt.accept] at ho
    split at ho <;> exact ⟨_, hw.trans (congrArg resultOf ho)⟩
  obtain ⟨e, rfl⟩ := hm.number hcalled
  rw [hk] at hfd hgave ⊢
  have hok : o = .ok (.number k) :=
    (resultOf_number (hw.symm.trans hk)).resolve_left fun herr => hfd (congrArg _ herr)
  rw [hok] at hx'
  refine ⟨k, rfl, ⟨event.socket, howned, hheard, hx', ?_⟩, e, v, hm, hgave⟩
  exact fun hn => hfd (congrArg Slot.ofReply hn)

namespace Announces

theorem frame (h : Announces s) (k : Recalls s t)
    (he : (t.connections.map SRTServerConnection.fd, t.connectionMap) =
      (s.connections.map SRTServerConnection.fd, s.connectionMap))
    (hlog : ∀ c, .connection c ∈ t.log → .connection c ∈ s.log) : Announces t := by
  simp only [Prod.mk.injEq] at he
  obtain ⟨hfds, hmap⟩ := he
  refine ⟨?_, ?_, ?_⟩
  · rw [hfds]
    intro fd hfd
    obtain ⟨j, he, ha⟩ := h.accepted fd hfd
    exact ⟨j, he, k.announced ha⟩
  · rw [hfds]
    exact fun c hc => h.emitted c (hlog c hc)
  · rw [hfds, hmap]
    exact h.map

theorem connects (h : Announces s) {fd : ℤ} (ha : Announced s fd) :
    Announces (s.connect (.number fd)) := by
  have k : Recalls s (s.connect (.number fd)) := .of_eq rfl
  have hfds : (s.connect (.number fd)).connections.map SRTServerConnection.fd =
      s.connections.map SRTServerConnection.fd ++ [.number fd] := by
    simp [State.connect, State.emit, SRTServerConnection.construct, Slot.toValue]
  refine ⟨?_, ?_, ?_⟩
  · rw [hfds]
    intro x hx
    rcases List.mem_append.mp hx with hx | hx
    · obtain ⟨j, he, hj⟩ := h.accepted x hx
      exact ⟨j, he, k.announced hj⟩
    · exact ⟨fd, List.mem_singleton.mp hx, k.announced ha⟩
  · rw [hfds]
    intro c hc
    rw [List.length_append, List.length_singleton]
    rcases List.mem_append.mp hc with hc | hc
    · exact Nat.lt_succ_of_lt (h.emitted c hc)
    · have he : c = s.connections.length := by simpa using hc
      simp [he]
  · rw [hfds]
    intro x c hx
    have hx : (x, c) ∈ (s.setConnection (.number fd) s.connections.length).connectionMap := hx
    rcases mem_setConnection hx with hx | ⟨rfl, rfl⟩
    · obtain ⟨hlt, he⟩ := List.getElem?_eq_some_iff.mp (h.map x c hx)
      rw [List.getElem?_append_left hlt]
      exact h.map x c hx
    · simp

theorem exists_of_connecting (h : s.connecting.isSome = true) : ∃ fd v rest,
    s.microtasks = (.handling (.epollAddUsock fd), .ok v) :: rest := by
  revert h
  simp only [State.connecting]
  split
  · rename_i fd v rest hq
    exact fun _ => ⟨fd, v, rest, hq⟩
  · exact fun h => by cases h

theorem next_connects {sync : SyncSRT σ ω} {fd : Slot} {v : ReturnValue}
    {rest : List (Await × Except Failure ReturnValue)}
    (hq : s.microtasks = (.handling (.epollAddUsock fd), .ok v) :: rest) :
    next sync p s .resume = { s with microtasks := rest }.connect fd := by
  simp [next, hq, State.resume, State.resumeHandle]

/-- Connections are emitted where a handler goes on after its `epollAddUsock`. -/
theorem connecting_of_emits {sync : SyncSRT σ ω} (hc : Change sync p s e t) (hw : Wired s) {c : ℕ}
    (hm : .connection c ∈ t.log) (hn : .connection c ∉ s.log) :
    e = .resume ∧ s.connecting.isSome = true := by
  rcases hc.log hw _ hm with hm | hm | hm | ⟨x, u, hx, he⟩
  · exact absurd hm hn
  · cases hm
  · cases hm
  · cases he with
    | connection c =>
      cases hx with
      | await hs hq => exact ⟨rfl, by simp [State.connecting, hq]⟩

theorem kept {sync : SyncSRT σ ω} (hw : Wired s) (he : Enabled s e)
    (hn : ¬ (e = .resume ∧ s.connecting.isSome = true)) :
    ((next sync p s e).connections.map SRTServerConnection.fd,
      (next sync p s e).connectionMap) =
      (s.connections.map SRTServerConnection.fd, s.connectionMap) := by
  have hs : Serves s e (next sync p s e) := hw.serves he
  generalize next sync p s e = t at *
  have hkept : ∀ {u}, Keeps s u → (u.connections.map SRTServerConnection.fd, u.connectionMap) =
      (s.connections.map SRTServerConnection.fd, s.connectionMap) := by
    intro u k
    have hf := k.fields
    simp only [Prod.mk.injEq] at hf
    exact Prod.ext hf.1 hf.2.1
  cases hs with
  | keeps k => exact hkept k
  | connects k he hc => exact absurd ⟨he, by simp [hc]⟩ hn
  | disconnects k hx =>
    have hu := hkept k
    exact hu
  | @closes u c caller k hclosed hc =>
    refine Eq.trans ?_ (hkept k)
    simp only [State.closeConnection]
    split
    · rfl
    · rename_i conn hconn
      rw [if_pos (hclosed conn (List.mem_of_getElem? hconn))]
      cases caller <;> rfl

theorem step (h : Announces s) (hg : Grounded p s) (hw : Wired s)
    (hcalled : ∀ y ∈ s.asyncSrt.async.executed, ∃ m, y.2 = (lib.call m y.1).2)
    (he : Enabled s e) (hn : RefusalsSeen s e) : Announces (next (nodeSRT lib) p s e) := by
  have hc : Change (nodeSRT lib) p s e (next (nodeSRT lib) p s e) := hw.changes he
  by_cases hcon : e = .resume ∧ s.connecting.isSome = true
  · obtain ⟨rfl, hcon⟩ := hcon
    obtain ⟨fd, v, rest, hq⟩ := exists_of_connecting hcon
    have hseen : s.missesRefusal = false := hn
    simp only [State.missesRefusal, hq, Bool.or_eq_false_iff, decide_eq_false_iff_not] at hseen
    obtain ⟨k, rfl, ha⟩ :=
      hg.announced hcalled (hq ▸ List.mem_cons_self) hseen.1.1 hseen.1.2 hseen.2
    have hpop : Announces { s with microtasks := rest } := h.frame (.of_eq rfl) rfl fun _ => id
    rw [next_connects hq]
    exact hpop.connects (Recalls.announced (.of_eq rfl) ha)
  · refine h.frame (hc.recalls hw) (kept hw he hcon) fun c hm => ?_
    by_contra hnot
    exact hcon (connecting_of_emits hc hw hm hnot)

end Announces

/-! ## The result -/

/-- In every run in which no refusal is missed, the connections announced are real. A
disposing instance makes none. -/
theorem announces_real (hl : lib.Lawful) (hf : lib.Fresh)
    (h : ((machine (nodeSRT lib) p).restrict RefusalsSeen).Execution (initial n) s) :
    AnnouncesReal lib s ∧ ∀ e, Enabled s e → RefusalsSeen s e →
      s.asyncSrt.async.startedToDispose = true →
      (next (nodeSRT lib) p s e).connections.length = s.connections.length ∧
        ∀ c, .connection c ∈ (next (nodeSRT lib) p s e).log → .connection c ∈ s.log := by
  have main : (machine (nodeSRT lib) p).Execution (initial n) s ∧ Announces s := by
    refine h.invariant
      (I := fun s => (machine (nodeSRT lib) p).Execution (initial n) s ∧ Announces s)
      ⟨.refl _, initial_announces n⟩ fun u e hu he => ?_
    obtain ⟨hrun, ha⟩ := hu
    obtain ⟨hw, -, hg⟩ := execution_grounded hrun
    exact ⟨hrun.tail he.1, ha.step hg hw (execution_called hrun) he.1 he.2⟩
  obtain ⟨hrun, ha⟩ := main
  have hw := execution_wired hrun
  have hlast := execution_lasting hl hf hrun
  have hwatched : ∀ {fd}, Announced s fd → FromAccept s fd ∧ Watched lib s fd := by
    rintro fd ⟨hfrom, epid, v, hm, hg⟩
    have haccept : Accepts s fd := by
      obtain ⟨u, -, -, hgave⟩ := hfrom
      exact ⟨u, hgave.1⟩
    exact ⟨hfrom, epid, v, hm, hg, hlast.subscribed fd epid v haccept hg.1⟩
  have hconn : ∀ {c : ℕ} {fd : JSValue}, (s.connections.map SRTServerConnection.fd)[c]? = some fd →
      ∃ conn k, s.connections[c]? = some conn ∧ fd = .number k ∧ conn.fd = .number k ∧
        FromAccept s k ∧ Watched lib s k := by
    intro c fd hc
    obtain ⟨k, rfl, hk⟩ := ha.accepted fd (List.mem_of_getElem? hc)
    obtain ⟨conn, hconn, he⟩ := by simpa using hc
    exact ⟨conn, k, hconn, rfl, he, hwatched hk⟩
  refine ⟨⟨fun c hm => ?_, fun k c hm => hconn (ha.map k c hm)⟩, fun e he hn hd => ?_⟩
  · obtain ⟨conn, k, hc, -, hrest⟩ := hconn (List.getElem?_eq_getElem (ha.emitted c hm))
    exact ⟨conn, k, hc, hrest⟩
  · have hno : ¬ (e = .resume ∧ s.connecting.isSome = true) := by
      rintro ⟨rfl, hcon⟩
      obtain ⟨fd, v, rest, hq⟩ := Announces.exists_of_connecting hcon
      have hseen : s.missesRefusal = false := hn
      simp [State.missesRefusal, hq, hd] at hseen
    have hc : Change (nodeSRT lib) p s e (next (nodeSRT lib) p s e) := hw.changes he
    refine ⟨?_, fun c hm => ?_⟩
    · simpa using congrArg List.length (Prod.mk.inj (Announces.kept hw he hno)).1
    · by_contra hnot
      exact hno (Announces.connecting_of_emits hc hw hm hnot)

theorem announces_real_accepted :
    let s := serverMachine.runTrace (initial .empty) acceptRun
    .connection 0 ∈ s.log ∧ AnnouncesReal tableLibsrt s := by
  intro s
  have h : (serverMachine.restrict RefusalsSeen).Execution (initial .empty) _ :=
    Machine.execution_of_trace _ _ acceptRun (by decide)
  rw [Machine.runTrace_restrict] at h
  exact ⟨by decide, (announces_real table_lawful table_fresh h).1⟩

/-- The server is disposed of between the status of its socket and the `accept`, which fails
on the closed socket. -/
def disposedAcceptRun : List (Event TableEvent) :=
  openRun ++ [.env (.clientArrives 1)] ++ answer ++
    [.exec, .dispose, .deliver, .resume, .exec, .exec, .deliver, .resume, .deliver, .resume,
      .resume]

theorem failed_accept_is_announced :
    ¬ ∀ s : State Table TableEvent, serverMachine.Execution (initial .empty) s →
      AnnouncesReal tableLibsrt s := by
  intro h
  have hr := serverMachine.execution_of_trace (initial .empty) disposedAcceptRun (by decide)
  obtain ⟨conn, fd, -, -, ⟨u, -, -, hg⟩, -⟩ := (h _ hr).emitted 0 (by decide)
  have hall : ∀ y ∈ (serverMachine.runTrace (initial .empty)
      disposedAcceptRun).asyncSrt.async.executed, y.1.method = .accept → y.2.toOption = none := by
    decide
  cases hall _ hg.1 rfl

end SocketAsync
