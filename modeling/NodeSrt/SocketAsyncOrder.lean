import NodeSrt.SocketAsyncTurns

/-! # The order in which a socket object makes its calls

Calls of `create` come before all others, since nothing else is called without a socket.
When `open` goes on to `listen` no `create` is on its way any more, so that the socket stays
what it is until the worker is gone. This holds in every run. -/
namespace SocketAsync

open AsyncValues
open TransitionSystem
open AsyncApi
open NativeSrt

variable {σ ω : Type*} {s t u : State σ ω} {p : Config} {x : Prompt} {e : Event ω}
  {sync : SyncSRT σ ω}

theorem mem_awaits {a : Await} :
    a ∈ s.awaits ↔ (∃ r, (a, r) ∈ s.microtasks) ∨ a ∈ s.queue := by
  simp [awaits_eq]

theorem Prompted.awaits (hx : Prompted s e x u) : ∀ a ∈ u.awaits, a ∈ s.awaits := by
  have hsame := hx.same
  simp only [Prod.mk.injEq] at hsame
  intro a ha
  rcases mem_awaits.mp ha with ⟨r, hr⟩ | ha
  · exact mem_awaits.mpr (Or.inl ⟨r, hx.microtasks _ hr⟩)
  · refine mem_awaits.mpr (Or.inr ?_)
    rw [State.queue, hsame.1] at ha
    exact ha

theorem Calls.not_owning {a : Await} {post : AsyncSRTWorkerPost} (h : Calls p s x a post) :
    a.owning = false := by
  cases h <;> rfl

theorem Closes.not_owning {a : Await} (h : Closes x a) : a.owning = false := by
  obtain ⟨event, v, fd, -, rfl⟩ := h
  rfl

/-- What comes after a call: the awaits are those before it and some of calls. -/
theorem Sends.mem_awaits (h : Sends p s x t) {a : Await} :
    a ∈ t.awaits → a ∈ s.awaits ∨ Closes x a ∨ ∃ post, Calls p s x a post := by
  obtain ⟨-, qs, ms, -, hq, hm, hqs, hms⟩ := h
  intro ha
  rcases SocketAsync.mem_awaits.mp ha with ⟨r, hr⟩ | ha
  · rw [hm] at hr
    rcases List.mem_append.mp hr with hr | hr
    · exact Or.inl (SocketAsync.mem_awaits.mpr (Or.inl ⟨r, hr⟩))
    · exact Or.inr ((hms _ hr).imp And.left And.left)
  · rw [hq] at ha
    rcases List.mem_append.mp ha with ha | ha
    · exact Or.inl (SocketAsync.mem_awaits.mpr (Or.inr ha))
    · obtain ⟨q, hq, rfl⟩ := List.mem_map.mp ha
      exact Or.inr (Or.inr ⟨_, (hqs q hq).1⟩)

theorem Sends.count_awaits (h : Sends p s x t) {a : Await} (ha : a.owning = true) :
    t.awaits.count a = s.awaits.count a := by
  obtain ⟨-, qs, ms, -, hq, hm, hqs, hms⟩ := h
  have hno : ∀ {b : Await}, b.owning = false → b ≠ a := fun hb he => by
    rw [he, ha] at hb
    cases hb
  have hqs' : (qs.map fun q => q.1.waiter).count a = 0 := by
    rw [List.count_eq_zero]
    intro hmem
    obtain ⟨q, hq, he⟩ := List.mem_map.mp hmem
    exact hno (hqs q hq).1.not_owning he
  have hms' : (ms.map Prod.fst).count a = 0 := by
    rw [List.count_eq_zero]
    intro hmem
    obtain ⟨y, hy, he⟩ := List.mem_map.mp hmem
    rcases hms y hy with ⟨hc, -⟩ | ⟨⟨post, hc⟩, -⟩
    · exact hno hc.not_owning he
    · exact hno hc.not_owning he
  rw [awaits_eq, awaits_eq, hq, hm]
  simp only [List.map_append, List.count_append]
  omega

theorem Sends.mem_owning (h : Sends p s x t) {a : Await} (ha : a.owning = true)
    (hmem : a ∈ t.awaits) : a ∈ s.awaits := by
  have hcount := List.count_pos_iff.mpr hmem
  rw [h.count_awaits ha] at hcount
  exact List.count_pos_iff.mp hcount

structure Ordered (s : State σ ω) : Prop where
  order : s.queue.Pairwise fun a b => b = .create → a = .create
  fresh : s.socket = .null → s.startedToDispose = false →
    (∀ a ∈ s.awaits, a = .create) ∧ .opened ∉ s.stack ∧ s.pollEventsTimer = false
  bound : ∀ v, (.opening .bind, .ok v) ∈ s.microtasks → .create ∉ s.awaits
  final : ∀ q ∈ s.asyncSrt.async.posted, q.1.waiter = .opening .listen →
    .create ∉ s.awaits ∧ (s.socket = .null → s.startedToDispose = true) ∧
      (s.asyncSrt.async.worker = true → q.2 = listenPost s.socket)
  once : s.awaits.count .disposeClose ≤ 1
  unclosed : s.startedToDispose = false → .disposeClose ∉ s.awaits
  unstarted : .disposeClose ∈ s.awaits → s.asyncSrt.async.startedToDispose = false
  exited : .disposeAsync ∈ s.awaits → s.asyncSrt.async.worker = false

theorem initial_ordered (n : σ) : Ordered (initial n : State σ ω) := by
  constructor <;> simp [initial, Backed.initial, AsyncApi.initial, State.awaits, State.queue]

theorem Wired.held (h : Wired s) (hd : s.asyncSrt.async.startedToDispose = false) :
    s.asyncSrt.async.worker = true :=
  h.invariant.disposal.held.mpr (Or.inl (h.invariant.disposal.started.mp hd))

/-- The one disposal of the instance that the object starts is not over at once. -/
theorem Wired.disposeAsync_eq (h : Wired s) (hd : s.asyncSrt.async.startedToDispose = false) :
    s.disposeAsync = { s.setAsync s.asyncSrt.async.dispose with disposal := .disposing } := by
  have hphase : s.asyncSrt.async.dispose.disposing ≠ .finished := by
    rcases (h.dispose_same hd).2.2 with he | he <;> simp [he]
  simp [State.disposeAsync, State.awaitDisposed, State.setAsync, hd, hphase]

namespace Ordered

theorem frame (h : Ordered s)
    (he : (t.socket, t.startedToDispose, t.asyncSrt.async.posted,
        t.asyncSrt.async.startedToDispose) =
      (s.socket, s.startedToDispose, s.asyncSrt.async.posted, s.asyncSrt.async.startedToDispose))
    (hq : t.queue = s.queue) (hm : t.microtasks.Sublist s.microtasks)
    (hs : .opened ∈ t.stack → .opened ∈ s.stack)
    (ht : t.pollEventsTimer = true → s.pollEventsTimer = true)
    (hw : t.asyncSrt.async.worker = true → s.asyncSrt.async.worker = true) : Ordered t := by
  simp only [Prod.mk.injEq] at he
  obtain ⟨hsock, hdisp, hp, hstart⟩ := he
  have hsub : t.awaits.Sublist s.awaits := by
    rw [awaits_eq, awaits_eq, hq]
    exact (hm.map _).append_right _
  refine ⟨hq ▸ h.order, ?_, fun v hv hc => h.bound v (hm.subset hv) (hsub.subset hc), ?_, ?_, ?_,
    ?_, ?_⟩
  · rw [hsock, hdisp]
    intro hnull hd
    obtain ⟨hall, hopened, htimer⟩ := h.fresh hnull hd
    refine ⟨fun a ha => hall a (hsub.subset ha), fun ho => hopened (hs ho), ?_⟩
    by_contra hn
    have htrue := ht (by simpa using hn)
    simp [htimer] at htrue
  · rw [hsock, hdisp, hp]
    intro q hqp hwait
    obtain ⟨hno, hnull, hpost⟩ := h.final q hqp hwait
    exact ⟨fun hc => hno (hsub.subset hc), hnull, fun hwork => hpost (hw hwork)⟩
  · exact (hsub.count_le _).trans h.once
  · rw [hdisp]
    exact fun hd hc => h.unclosed hd (hsub.subset hc)
  · rw [hstart]
    exact fun hc => h.unstarted (hsub.subset hc)
  · intro hc
    have hgone := h.exited (hsub.subset hc)
    by_contra hn
    have hheld := hw (by simpa using hn)
    simp [hgone] at hheld

theorem prompted (h : Ordered s) (hx : Prompted s e x u) : Ordered u := by
  cases hx with
  | user => exact h
  | await hs hq => exact h.frame rfl rfl (hq ▸ List.sublist_cons_self _ _) id id id
  | listeners hs =>
    exact h.frame rfl rfl (List.Sublist.refl _) (fun hf => hs ▸ List.mem_cons_of_mem _ hf) id id
  | timer => exact h.frame rfl rfl (List.Sublist.refl _) id (fun ht => by cases ht) id

theorem awaited (h : Ordered s) (hx : Prompted s e x u) (hnull : u.socket = .null)
    (hd : u.startedToDispose = false) {a : Await} {r : Except Failure ReturnValue}
    (he : x = .await a r) : a = .create := by
  subst he
  cases hx with
  | await hs hq => exact (h.fresh hnull hd).1 a (mem_awaits.mpr (Or.inl ⟨r, by simp [hq]⟩))

theorem begins (h : Ordered s) (hx : Prompted s e x u) {a : Await} {post : AsyncSRTWorkerPost}
    (hc : Calls p u x a post) (hnull : u.socket = .null) : u.startedToDispose = true := by
  by_contra hn
  have hd : u.startedToDispose = false := by simpa using hn
  cases hc with
  | bind _ hs | connect _ hs => exact hs hnull
  | subscribe =>
    cases hx with
    | listeners hs => exact (h.fresh hnull hd).2.1 (hs ▸ List.mem_cons_self)
  | pollAgain =>
    cases hx with
    | timer hi ht =>
      have hoff := (h.fresh hnull hd).2.2
      simp [ht] at hoff
  | listen | epollCreate | poll | status | accept | add => cases h.awaited hx hnull hd rfl

/-- A function that runs without a socket leaves nothing that awaits but calls of `create`. -/
theorem turn_fresh (h : Ordered s) (hx : Prompted s e x u) (ht : Turn p u x t)
    (hnull : u.socket = .null) (hd : u.startedToDispose = false) :
    (∀ a ∈ t.awaits, a = .create) ∧ .opened ∉ t.stack ∧ t.pollEventsTimer = false := by
  obtain ⟨hall, hopened, htimer⟩ := (h.prompted hx).fresh hnull hd
  have hsilent : ∀ {a post}, ¬ Calls p u x a post := fun hc => by
    have hbegun := h.begins hx hc hnull
    simp [hd] at hbegun
  refine ⟨fun a ha => ?_, fun ho => ?_, ?_⟩
  · rcases ht.sends.mem_awaits ha with ha | ⟨event, v, fd, he, -⟩ | ⟨post, hc⟩
    · exact hall a ha
    · cases h.awaited hx hnull hd he
    · exact absurd hc hsilent
  · rcases ht.stack _ ho with ho | ⟨-, ho | ⟨-, v, -, he, -⟩⟩
    · exact hopened ho
    · cases ho
    · cases h.awaited hx hnull hd he
  · by_contra hn
    rcases ht.timer (by simpa using hn) with ho | ⟨events, he⟩
    · simp [htimer] at ho
    · cases h.awaited hx hnull hd he

theorem turn_bound (h : Ordered s) (hw : Wired s) (hx : Prompted s e x u) (ht : Turn p u x t)
    {v : ReturnValue} (hv : (.opening .bind, .ok v) ∈ t.microtasks) : .create ∉ t.awaits := by
  intro hc
  have hc := ht.sends.mem_owning rfl hc
  obtain ⟨-, qs, ms, -, -, hm, -, hms⟩ := ht.sends
  rw [hm] at hv
  rcases List.mem_append.mp hv with hv | hv
  · exact (h.prompted hx).bound v hv hc
  · rcases hms _ hv with ⟨⟨event, w, fd, -, he⟩, -⟩ | ⟨⟨post, hcall⟩, hr⟩
    · cases he
    · cases hcall with
      | bind _ _ hd =>
        rcases hr with ⟨e, he⟩ | ⟨-, hr⟩
        · cases he
        · cases hx
          have hs := hw.disposing hr
          simp [hd] at hs

theorem turn_listens (h : Ordered s) (hx : Prompted s e x u) (ht : Turn p u x t)
    {post : AsyncSRTWorkerPost} (hcall : Calls p u x (.opening .listen) post) :
    .create ∉ t.awaits ∧ (u.socket = .null → u.startedToDispose = true) ∧
      post = listenPost u.socket := by
  have hbegins := h.begins hx hcall
  cases hcall with
  | listen hv =>
    refine ⟨fun hc => ?_, hbegins, rfl⟩
    have hsub := ht.sends.mem_owning rfl hc
    cases hx with
    | await hs hq =>
      refine h.bound _ (by rw [hq]; exact List.mem_cons_self) ?_
      rcases mem_awaits.mp hsub with ⟨r, hr⟩ | hsub
      · exact mem_awaits.mpr (Or.inl ⟨r, by rw [hq]; exact List.mem_cons_of_mem _ hr⟩)
      · exact mem_awaits.mpr (Or.inr hsub)

theorem turn (h : Ordered s) (hw : Wired s) (hx : Prompted s e x u) (ht : Turn p u x t) :
    Ordered t := by
  have hu := h.prompted hx
  have hnew : ∀ {a : Await}, a.owning = true → a ∈ t.awaits → a ∈ u.awaits :=
    fun ha => ht.sends.mem_owning ha
  obtain ⟨hf, qs, ms, hp, hq, -, hqs, -⟩ := ht.sends
  simp only [Prod.mk.injEq] at hf
  obtain ⟨hsock, hdisp, -, -, hstart, hwork, -⟩ := hf
  refine ⟨?_, ?_, fun v hv => h.turn_bound hw hx ht hv, ?_, ?_, ?_, ?_, ?_⟩
  · rw [hq]
    refine pairwise_create_append hu.order fun hb => ?_
    obtain ⟨q, hmem, he⟩ := List.mem_map.mp hb
    have ho := (hqs q hmem).1.not_owning
    rw [he] at ho
    cases ho
  · rw [hsock, hdisp]
    exact h.turn_fresh hx ht
  · rw [hsock, hdisp, hp]
    intro q hmem hwait
    rcases List.mem_append.mp hmem with hmem | hmem
    · obtain ⟨hno, hnull, hpost⟩ := hu.final q hmem hwait
      exact ⟨fun hc => hno (hnew rfl hc), hnull, fun ht => hpost (hwork ▸ ht)⟩
    · have hcall := (hqs q hmem).1
      rw [hwait] at hcall
      exact (h.turn_listens hx ht hcall).imp_right (And.imp_right fun he _ => he)
  · rw [ht.sends.count_awaits rfl]
    exact hu.once
  · rw [hdisp]
    exact fun hd hc => hu.unclosed hd (hnew rfl hc)
  · rw [hstart]
    exact fun hc => hu.unstarted (hnew rfl hc)
  · rw [hwork]
    exact fun hc => hu.exited (hnew rfl hc)

theorem step_delivers (h : Ordered s) (hw : Wired s) (he : Enabled s (.deliver : Event ω)) :
    Ordered s.deliver := by
  have hasync := (hw.moves_deliver he).ordinary.async
  obtain ⟨a, v, hmicro, hqueue, hmicro', hfields⟩ := hw.delivers he
  generalize s.deliver = t at *
  have hawaits : t.awaits = s.awaits := by
    rw [awaits_eq, awaits_eq, hmicro, hmicro', hqueue]
    rfl
  have horder := h.order
  rw [hqueue, List.pairwise_cons] at horder
  simp only [Prod.mk.injEq] at hfields hasync
  obtain ⟨hsock, -, hdisp, hstack, -, htimer, -, -, hp⟩ := hfields
  obtain ⟨-, -, hstart, hwork⟩ := hasync
  refine ⟨horder.2, ?_, ?_, ?_, ?_, ?_, ?_, ?_⟩
  · rw [hsock, hdisp, hawaits, hstack, htimer]
    exact h.fresh
  · intro w hw' hc
    rw [hmicro'] at hw'
    obtain ⟨rfl, -⟩ : Await.opening .bind = a ∧ _ := by simpa using hw'
    rw [hawaits, awaits_eq, hmicro, hqueue] at hc
    rcases List.mem_cons.mp hc with hc | hc
    · cases hc
    · cases horder.1 _ hc rfl
  · rw [hp, hawaits, hsock, hdisp, hwork]
    exact h.final
  · rw [hawaits]
    exact h.once
  · rw [hdisp, hawaits]
    exact h.unclosed
  · rw [hawaits, hstart]
    exact h.unstarted
  · rw [hawaits, hwork]
    exact h.exited

theorem step_creates (h : Ordered s) (hs : s.socket = .null) (hd : s.startedToDispose = false) :
    Ordered ({ s with createCalls := s.createCalls + 1 }.setAsync
      (s.asyncSrt.async.accept (.createSocket .undefined) false .create)) := by
  obtain ⟨hall, hrest⟩ := h.fresh hs hd
  have hawaits := awaits_accept { s with createCalls := s.createCalls + 1 }
    (.createSocket .undefined) .create
  have hqueue : ({ s with createCalls := s.createCalls + 1 }.setAsync
      (s.asyncSrt.async.accept (.createSocket .undefined) false .create)).queue =
      s.queue ++ [.create] := by
    simp [State.queue, State.setAsync, AsyncSRT.accept, AsyncSRT.prepare]
  have hmem : ∀ a ∈ s.awaits ++ [Await.create], a = .create := by
    intro a ha
    rcases List.mem_append.mp ha with ha | ha
    · exact hall a ha
    · exact List.mem_singleton.mp ha
  refine ⟨?_, fun _ _ => ⟨hawaits ▸ hmem, hrest⟩, fun v hv => ?_, fun q hq hwait => ?_, ?_,
    fun _ hc => ?_, fun hc => ?_, fun hc => ?_⟩
  · rw [hqueue, List.pairwise_append]
    exact ⟨h.order, List.pairwise_singleton _ _,
      fun a ha _ _ _ => hall a (mem_awaits.mpr (Or.inr ha))⟩
  · cases hall _ (mem_awaits.mpr (Or.inl ⟨_, hv⟩))
  · rcases List.mem_append.mp hq with hq | hq
    · have hnull := (h.final q hq hwait).2.1 hs
      simp [hd] at hnull
    · rw [List.mem_singleton.mp hq] at hwait
      cases hwait
  · rw [hawaits, List.count_append]
    exact h.once
  · cases hmem _ (hawaits ▸ hc)
  · cases hmem _ (hawaits ▸ hc)
  · cases hmem _ (hawaits ▸ hc)

theorem step_created (h : Ordered s) {v : ReturnValue}
    {rest : List (Await × Except Failure ReturnValue)}
    (hq : s.microtasks = (.create, .ok v) :: rest) :
    Ordered ({ s with microtasks := rest, socket := .ofReply v }.emit .created .created) := by
  have hpop := awaits_pop
    (t := { s with microtasks := rest, socket := .ofReply v }.emit .created .created) hq rfl
  have hmem : .create ∈ s.awaits := hpop ▸ List.mem_cons_self
  have hsub : ∀ a ∈ ({ s with microtasks := rest, socket := .ofReply v }.emit .created
      .created).awaits, a ∈ s.awaits := fun a ha => hpop ▸ List.mem_cons_of_mem _ ha
  refine ⟨h.order, fun hnull => ?_, fun w hw => ?_, fun q hqp hwait => ?_, ?_,
    fun hd hc => h.unclosed hd (hsub _ hc), fun hc => h.unstarted (hsub _ hc),
    fun hc => h.exited (hsub _ hc)⟩
  · cases v <;> cases hnull
  · exact absurd hmem (h.bound w (hq ▸ List.mem_cons_of_mem _ hw))
  · exact absurd hmem (h.final q hqp hwait).1
  · have honce := h.once
    rw [hpop, List.count_cons] at honce
    exact (Nat.le_add_right _ _).trans honce

theorem step_closes (h : Ordered s) (hw : Wired s) (timer : Bool)
    (hd : s.startedToDispose = false) :
    Ordered ({ s with
      pollEventsTimer := timer
      startedToDispose := true
      disposal := .closing }.post (.close s.socket.toValue) .disposeClose) := by
  have hstage := hw.closing timer
  have hno := h.unclosed hd
  have hstart := (hw.async_notCalled hd).1
  have hperm := (post_frame hstage.invariant (simple_close s.socket) .disposeClose).1
  obtain ⟨hf, he, qs, ms, hp, hq, hm, hqs, hms⟩ :=
    hstage.post_sends (simple_close s.socket) .disposeClose
  simp only [Prod.mk.injEq] at hf he
  obtain ⟨hsock, hdisp, -, -, hstart', hwork, -⟩ := hf
  generalize State.post _ _ _ = t at *
  have hmem : ∀ a, a ∈ t.awaits → a ≠ .disposeClose → a ∈ s.awaits := by
    intro a ha hne
    have ha := hperm.mem_iff.mp ha
    exact (List.mem_append.mp ha).elim id fun ha => absurd (List.mem_singleton.mp ha) hne
  refine ⟨?_, fun _ hf => ?_, fun v hv hc => ?_, fun q hqp hwait => ?_, ?_, fun hf => ?_,
    fun _ => hstart'.trans hstart, fun hc => ?_⟩
  · rw [hq]
    refine pairwise_create_append h.order fun hb => ?_
    obtain ⟨q, hmem, he⟩ := List.mem_map.mp hb
    rw [(hqs q hmem).1] at he
    cases he
  · rw [hdisp] at hf
    cases hf
  · rw [hm] at hv
    rcases List.mem_append.mp hv with hv | hv
    · exact h.bound v hv (hmem _ hc (by simp))
    · cases (hms _ hv).1
  · rw [hp] at hqp
    rcases List.mem_append.mp hqp with hqp | hqp
    · obtain ⟨hcreate, -, hpost⟩ := h.final q hqp hwait
      refine ⟨fun hc => hcreate (hmem _ hc (by simp)), fun _ => hdisp, fun ht => ?_⟩
      rw [hsock]
      exact hpost (hwork ▸ ht)
    · rw [(hqs q hqp).1] at hwait
      cases hwait
  · have hcount : s.awaits.count .disposeClose = 0 := List.count_eq_zero.mpr hno
    rw [hperm.count_eq, List.count_append]
    exact Nat.add_le_add_right hcount.le 1
  · rw [hdisp] at hf
    cases hf
  · rw [hwork]
    exact h.exited (hmem _ hc (by simp))

theorem step_closed (h : Ordered s) (hw : Wired s) {v : ReturnValue}
    {rest : List (Await × Except Failure ReturnValue)}
    (hq : s.microtasks = (.disposeClose, .ok v) :: rest) :
    Ordered { s with microtasks := rest }.disposeAsync := by
  have hwp : Wired { s with microtasks := rest } := hw.pop hq
  have hpop := awaits_pop (t := { s with microtasks := rest }) hq rfl
  have hstart := h.unstarted (hpop ▸ List.mem_cons_self)
  obtain ⟨hsame, -, -⟩ := hwp.dispose_same hstart
  have hheld := hw.held hstart
  rw [hwp.disposeAsync_eq hstart]
  simp only [Prod.mk.injEq] at hsame
  obtain ⟨hp, -, -, hqueue⟩ := hsame
  have hawaits : ({ State.setAsync { s with microtasks := rest } s.asyncSrt.async.dispose with
      disposal := .disposing } : State σ ω).awaits = { s with microtasks := rest }.awaits := by
    simp [State.awaits, State.setAsync, hqueue]
  generalize ht : ({ State.setAsync { s with microtasks := rest } s.asyncSrt.async.dispose with
      disposal := .disposing } : State σ ω) = t at *
  have hgone : .disposeClose ∉ t.awaits := by
    have honce := h.once
    rw [hpop, List.count_cons_self] at honce
    rw [hawaits, ← List.count_eq_zero]
    omega
  have hsub : ∀ a ∈ t.awaits, a ∈ s.awaits := fun a ha =>
    hpop ▸ List.mem_cons_of_mem _ (hawaits ▸ ha)
  subst ht
  refine ⟨?_, fun hnull hd => ?_, fun w hw' hc => ?_, fun q hqp hwait => ?_, ?_,
    fun _ => hgone, fun hc => absurd hc hgone, fun hc => ?_⟩
  · simpa [State.queue, State.setAsync, hqueue] using h.order
  · obtain ⟨hall, hrest⟩ := h.fresh hnull hd
    exact ⟨fun a ha => hall a (hsub a ha), hrest⟩
  · exact h.bound w (hq ▸ List.mem_cons_of_mem _ hw') (hsub _ hc)
  · have hqp : q ∈ s.asyncSrt.async.posted := by simpa [State.setAsync, hp] using hqp
    obtain ⟨hno, hnull, hpost⟩ := h.final q hqp hwait
    exact ⟨fun hc => hno (hsub _ hc), hnull, fun _ => hpost hheld⟩
  · rw [List.count_eq_zero.mpr hgone]
    exact Nat.zero_le 1
  · have hdropped := h.exited (hsub _ hc)
    simp [hheld] at hdropped

theorem step_disposed (h : Ordered s) (hw : Wired s) {v : ReturnValue}
    {rest : List (Await × Except Failure ReturnValue)}
    (hq : s.microtasks = (.disposeAsync, .ok v) :: rest) :
    Ordered { s with microtasks := rest, socket := .null }.emitDisposed := by
  have hpop := awaits_pop (t := { s with microtasks := rest, socket := .null }.emitDisposed) hq rfl
  have hdropped := h.exited (hpop ▸ List.mem_cons_self)
  have hstart : s.startedToDispose = true := by
    apply hw.disposing
    by_contra hn
    have hheld := hw.held (by simpa using hn)
    simp [hdropped] at hheld
  have hu : Ordered { s with microtasks := rest } :=
    h.frame rfl rfl (hq ▸ List.sublist_cons_self _ _) id id id
  refine ⟨hu.order, fun _ hd => ?_, hu.bound, fun q hqp hwait => ?_, hu.once, fun hd => ?_,
    hu.unstarted, hu.exited⟩
  · cases hstart.symm.trans hd
  · refine ⟨(hu.final q hqp hwait).1, fun _ => hstart, fun ht => ?_⟩
    cases hdropped.symm.trans ht
  · cases hstart.symm.trans hd

theorem step_terminates (h : Ordered s) (hw : Wired s)
    (hd : s.asyncSrt.async.disposing = .resuming) :
    Ordered (s.setAsync s.asyncSrt.async.terminateWorker) := by
  have hl := hw.invariant.disposal.clear (by simp [hd]) (by simp [hd])
  have hsame := hw.terminateWorker_same hl
  simp only [Prod.mk.injEq] at hsame
  obtain ⟨hp, -, -, hq, hstart⟩ := hsame
  refine h.frame ?_ ?_ (List.Sublist.refl _) id id ?_
  · simp [State.setAsync, hp, hstart]
  · simp [State.queue, State.setAsync, hq]
  · have hheld := hw.invariant.disposal.held.mpr (Or.inr (Or.inr hd))
    exact fun _ => hheld

theorem step_exits (h : Ordered s) (hw : Wired s)
    (hd : s.asyncSrt.async.disposing = .terminating) (code : ℤ) :
    Ordered ((s.setAsync (AsyncApi.next s.asyncSrt.async (.exited code))).wake .disposeAsync
      (.ok .undefined)) := by
  have hdropped := hw.terminated (Or.inl hd)
  have hold : ∀ a, a ≠ .disposeAsync → a ∈ ((s.setAsync (AsyncApi.next s.asyncSrt.async
      (.exited code))).wake .disposeAsync (.ok .undefined)).awaits → a ∈ s.awaits := by
    intro a hne ha
    have ha := (awaits_wake _ _ _).mem_iff.mp ha
    exact (List.mem_append.mp ha).elim id fun ha => absurd (List.mem_singleton.mp ha) hne
  refine ⟨h.order, fun hnull hdis => ?_, fun v hv hc => ?_, fun q hq hwait => ?_, ?_,
    fun hdis hc => h.unclosed hdis (hold _ (by simp) hc),
    fun hc => h.unstarted (hold _ (by simp) hc), fun _ => hdropped⟩
  · have hstart := hw.async_notCalled hdis
    simp [hd] at hstart
  · rcases List.mem_append.mp hv with hv | hv
    · exact h.bound v hv (hold _ (by simp) hc)
    · cases List.mem_singleton.mp hv
  · obtain ⟨hno, hrest⟩ := h.final q hq hwait
    exact ⟨fun hc => hno (hold _ (by simp) hc), hrest⟩
  · rw [(awaits_wake _ _ _).count_eq, List.count_append]
    exact h.once

theorem step (h : Ordered s) (hw : Wired s) (hc : Change sync p s e t) : Ordered t := by
  cases hc with
  | turns hx _ ht => exact h.turn hw hx ht
  | delivers he => exact h.step_delivers hw he
  | creates hs hd => exact h.step_creates hs hd
  | created _ hq => exact h.step_created hq
  | closes _ _ hd => exact h.step_closes hw _ hd
  | vacuous ht _ hd =>
    refine ⟨h.order, (fun _ hf => by cases hf), h.bound, fun q hq hwait => ?_, h.once,
      (fun hf => by cases hf), h.unstarted, h.exited⟩
    obtain ⟨hno, -, hpost⟩ := h.final q hq hwait
    exact ⟨hno, fun _ => rfl, hpost⟩
  | closed _ hq => exact h.step_closed hw hq
  | disposed _ hq => exact h.step_disposed hw hq
  | executes hq => exact h.frame rfl rfl (List.Sublist.refl _) id id id
  | waits hi hd =>
    simp only [AsyncApi.next]
    split
    · exact h.frame rfl rfl (List.Sublist.refl _) id id id
    · exact h
  | terminates _ hd => exact h.step_terminates hw hd
  | exits _ hd => exact h.step_exits hw hd _
  | env w => exact h.frame rfl rfl (List.Sublist.refl _) id id id

end Ordered

theorem execution_ordered {n : σ} (h : (machine sync p).Execution (initial n) s) :
    Wired s ∧ Ordered s :=
  h.invariant (I := fun s => Wired s ∧ Ordered s) ⟨initial_wired n, initial_ordered n⟩
    fun _ _ hu he => ⟨step_wired hu.1 he, hu.2.step hu.1 (hu.1.changes he)⟩

end SocketAsync
