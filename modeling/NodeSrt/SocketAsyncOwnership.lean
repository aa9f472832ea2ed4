import NodeSrt.SocketAsyncDisposal

/-! # A socket object owns at most one native socket

`create` tests the socket field before its await and writes it after. The test therefore
excludes a second socket only in the runs in which no `create` is called while another is
in flight. -/
namespace SocketAsync

open AsyncValues
open TransitionSystem
open AsyncApi
open NativeSrt

variable {σ ω : Type*} {s t : State σ ω}

/-- The calls of `createSocket` the worker has executed, and those it was sent. -/
def State.createsExecuted (s : State σ ω) : ℕ :=
  s.asyncSrt.async.executed.countP fun x => x.1.method = .createSocket

def State.createsPosted (s : State σ ω) : ℕ :=
  s.asyncSrt.async.posted.countP fun p => p.2.method = .createSocket

def createdBy : AsyncSRTWorkerPost × Outcome → Option ℤ
  | (⟨.createSocket, _⟩, .ok (.number u)) => some u
  | _ => none

def State.created (s : State σ ω) : List ℤ := s.asyncSrt.async.executed.filterMap createdBy

theorem createdBy_eq {x : AsyncSRTWorkerPost × Outcome} {u : ℤ} :
    createdBy x = some u ↔ x.1.method = .createSocket ∧ x.2 = .ok (.number u) := by
  obtain ⟨⟨method, args⟩, o⟩ := x
  unfold createdBy
  split
  · rename_i he
    cases he
    simp
  · rename_i hne
    constructor
    · exact fun h => by cases h
    · rintro ⟨hm, ho⟩
      exact absurd (by rw [← ho, ← hm]) (hne args u)

theorem mem_created {u : ℤ} : u ∈ s.created ↔
    ∃ x ∈ s.asyncSrt.async.executed, x.1.method = .createSocket ∧ x.2 = .ok (.number u) := by
  simp only [State.created, List.mem_filterMap, createdBy_eq]

def closePostOf (u : ℤ) : AsyncSRTWorkerPost := ⟨.close, [.number u]⟩

def createTwice : Call × Except Failure CallValue := (.create, .error (.socket .createTwice))

def createNull : Call × Except Failure CallValue := (.create, .ok (.value .null))

structure OneSocket (s t : State σ ω) : Prop where
  once : t.createsExecuted ≤ 1
  rejected : t.startedToDispose = false → t.returns.count createTwice = t.createCalls - 1
  stable : s.socket ≠ .null → t.socket = s.socket ∨ t.socket = .null ∧ t.startedToDispose = true
  reachable : ∀ u ∈ t.created, .create ∈ t.awaits ∨ t.socket = .number u ∨
    closePostOf u ∈ t.asyncSrt.async.executed.map Prod.fst

/-- No `create` gets past its guards while another is in flight. -/
def CreatesAlone (s : State σ ω) : Event ω → Prop
  | .create => s.socket = .null → s.startedToDispose = false → .create ∉ s.awaits
  | _ => True

instance (s : State σ ω) : (e : Event ω) → Decidable (CreatesAlone s e)
  | .create => inferInstanceAs (Decidable (s.socket = .null → s.startedToDispose = false →
      Await.create ∉ s.awaits))
  | .opening | .dispose | .closeConnection _ | .listenerReturn _ | .resume | .resumeDispose
  | .exec | .deliver | .pollTimer | .pollDispose | .exited _ | .env _ => isTrue trivial

structure Alone (s : State σ ω) : Prop where
  posts : s.createsPosted ≤ 1
  tracked : s.createsPosted = 0 ∨ .create ∈ s.awaits ∨ s.socket ≠ .null ∨
    s.startedToDispose = true
  single : s.awaits.count .create ≤ 1
  unset : .create ∈ s.awaits → s.socket = .null
  replied : s.socket ≠ .null → ∃ x ∈ s.asyncSrt.async.executed,
    x.1.method = .createSocket ∧ s.socket = .ofReply (resultOf x.2)
  calls : s.createCalls = s.createsPosted + s.returns.count createTwice +
    s.returns.count createNull
  nulls : s.startedToDispose = false → s.returns.count createNull = 0
  untried : s.createsPosted = 0 → s.returns.count createTwice = 0
  kept : ∀ u ∈ s.created, .create ∈ s.awaits ∨ s.socket = .number u ∨
    closePostOf u ∈ s.asyncSrt.async.executed.map Prod.fst

theorem initial_alone (n : σ) : Alone (initial n : State σ ω) := by
  constructor <;> simp [initial, Backed.initial, AsyncApi.initial, State.awaits,
    State.createsPosted, State.created]

theorem createsExecuted_le (h : Wired s) : s.createsExecuted ≤ s.createsPosted := by
  have hc := h.invariant.correlated.calls
  have hexec : s.createsExecuted =
      (s.asyncSrt.async.executed.map Prod.fst).countP fun post => post.method = .createSocket := by
    rw [List.countP_map]
    rfl
  have hposted : s.createsPosted =
      (s.asyncSrt.async.posted.map Prod.snd).countP fun post => post.method = .createSocket := by
    rw [List.countP_map]
    rfl
  rw [hexec, hposted, hc]
  exact (List.take_sublist _ _).countP_le

theorem eq_of_countP_le_one {α : Type*} {l : List α} {P : α → Bool} (h : l.countP P ≤ 1) {x y : α}
    (hx : x ∈ l) (hy : y ∈ l) (px : P x = true) (py : P y = true) : x = y := by
  rw [List.countP_eq_length_filter] at h
  have hx' : x ∈ l.filter P := List.mem_filter.mpr ⟨hx, px⟩
  have hy' : y ∈ l.filter P := List.mem_filter.mpr ⟨hy, py⟩
  match hl : l.filter P, h with
  | [], _ => simp [hl] at hx'
  | [z], _ =>
    rw [hl] at hx' hy'
    rw [List.mem_singleton.mp hx', List.mem_singleton.mp hy']

namespace Alone

theorem frame (h : Alone s)
    (he : (t.socket, t.createCalls, t.asyncSrt.async.executed) =
      (s.socket, s.createCalls, s.asyncSrt.async.executed))
    (hd : s.startedToDispose = true → t.startedToDispose = true)
    (hc : t.awaits.count .create = s.awaits.count .create)
    (hp : ∃ ps, t.asyncSrt.async.posted = s.asyncSrt.async.posted ++ ps ∧
      ∀ p ∈ ps, p.2.method ≠ .createSocket)
    (hr : ∃ l, t.returns = s.returns ++ l ∧ ∀ x ∈ l, x ∉ refusals) : Alone t := by
  simp only [Prod.mk.injEq] at he
  obtain ⟨hsock, hcalls, hexec⟩ := he
  obtain ⟨ps, hps, hno⟩ := hp
  obtain ⟨l, hl, hnone⟩ := hr
  have hposts : t.createsPosted = s.createsPosted := by
    have hz : ps.countP (fun p => decide (p.2.method = .createSocket)) = 0 := by
      simpa using fun a b hab => hno (a, b) hab
    rw [State.createsPosted, hps, List.countP_append, hz]
    rfl
  have hcount : ∀ x ∈ refusals, t.returns.count x = s.returns.count x := by
    intro x hx
    rw [hl, List.count_append, List.count_eq_zero_of_not_mem fun hm => hnone x hm hx, Nat.add_zero]
  have htwice := hcount createTwice (by simp [refusals, createTwice])
  have hnull := hcount createNull (by simp [refusals, createNull])
  have hmem : .create ∈ t.awaits ↔ .create ∈ s.awaits := by
    rw [← List.count_pos_iff, ← List.count_pos_iff, hc]
  refine ⟨hposts ▸ h.posts, ?_, hc ▸ h.single, ?_, ?_, ?_, ?_, ?_, ?_⟩
  · rw [hposts, hmem, hsock]
    exact h.tracked.imp_right (Or.imp_right (Or.imp_right hd))
  · rw [hmem, hsock]
    exact h.unset
  · rw [hsock, hexec]
    exact h.replied
  · rw [hcalls, hposts, htwice, hnull]
    exact h.calls
  · intro hs
    rw [hnull]
    apply h.nulls
    by_contra hn
    have := hd (by simpa using hn)
    simp [hs] at this
  · rw [hposts, htwice]
    exact h.untried
  · intro u hu
    rw [hmem, hsock, hexec]
    apply h.kept u
    rwa [State.created, hexec] at hu

theorem moves (h : Alone s) (hm : Moves s t) : Alone t := by
  obtain ⟨hf, ha, hawaits, ⟨ps, hps, hmeth⟩, _, _, hret⟩ := hm.ordinary
  simp only [Prod.mk.injEq] at hf ha
  exact h.frame (by simp [hf, ha]) (fun hs => by rw [hf.2.1]; exact hs) (hawaits _ rfl)
    ⟨ps, hps, fun p hp => (hmeth p hp).1⟩ hret

theorem posted_of_socket (h : Alone s) (hw : Wired s) (hs : s.socket ≠ .null) :
    s.createsPosted ≠ 0 := by
  obtain ⟨x, hx, hm, _⟩ := h.replied hs
  have hpos : 0 < s.createsExecuted := List.countP_pos_iff.mpr ⟨x, hx, by simpa using hm⟩
  have hle := createsExecuted_le hw
  omega

theorem step_refuses (h : Alone s) (hw : Wired s) {r : Except Failure CallValue}
    (hr : (.create, r) ∈ refusals) (hs : r = .error (.socket .createTwice) → s.socket ≠ .null)
    (hd : r = .ok (.value .null) → s.startedToDispose = true) :
    Alone ({ s with createCalls := s.createCalls + 1 }.ret .create r) := by
  have hcalls := h.calls
  have hcount : ∀ x, (s.returns ++ [(Call.create, r)]).count x =
      s.returns.count x + if (Call.create, r) = x then 1 else 0 := by
    intro x
    rw [List.count_append, List.count_singleton]
    simp
  simp only [refusals, List.mem_cons, Prod.mk.injEq, true_and, List.not_mem_nil, or_false] at hr
  have ret : ∀ x, ({ s with createCalls := s.createCalls + 1 }.ret .create r).returns.count x =
      (s.returns ++ [(Call.create, r)]).count x := fun _ => rfl
  rcases hr with rfl | rfl
  · have htwice := (hcount createTwice).trans (congrArg _ (if_pos rfl))
    have hnull := (hcount createNull).trans (congrArg _ (if_neg (by decide)))
    refine { h with calls := ?_, nulls := ?_, untried := ?_ }
    · rw [ret, ret, htwice, hnull]
      show s.createCalls + 1 = s.createsPosted + _ + _
      omega
    · intro hst
      rw [ret, hnull]
      exact h.nulls hst
    · exact fun hz => absurd hz (h.posted_of_socket hw (hs rfl))
  · have htwice := (hcount createTwice).trans (congrArg _ (if_neg (by decide)))
    have hnull := (hcount createNull).trans (congrArg _ (if_pos rfl))
    refine { h with calls := ?_, nulls := ?_, untried := ?_ }
    · rw [ret, ret, htwice, hnull]
      show s.createCalls + 1 = s.createsPosted + _ + _
      omega
    · intro hst
      rw [show s.startedToDispose = false from hst] at hd
      cases hd rfl
    · rw [ret, htwice]
      exact h.untried

/-- The guards are passed for the first and only time. -/
theorem step_creates (h : Alone s) (hs : s.socket = .null) (hd : s.startedToDispose = false)
    (hno : .create ∉ s.awaits) :
    Alone ({ s with createCalls := s.createCalls + 1 }.setAsync
      (s.asyncSrt.async.accept (.createSocket .undefined) false .create)) := by
  have hawaits := awaits_accept { s with createCalls := s.createCalls + 1 }
    (.createSocket .undefined) .create
  have hzero : s.createsPosted = 0 := by
    rcases h.tracked with hz | hm | hne | hst
    · exact hz
    · exact absurd hm hno
    · exact absurd hs hne
    · simp [hd] at hst
  have hone : ({ s with createCalls := s.createCalls + 1 }.setAsync
      (s.asyncSrt.async.accept (.createSocket .undefined) false .create)).createsPosted = 1 := by
    show (s.asyncSrt.async.posted ++ [_]).countP _ = 1
    rw [List.countP_append]
    exact congrArg (· + 1) hzero
  have hmem : .create ∈ ({ s with createCalls := s.createCalls + 1 }.setAsync
      (s.asyncSrt.async.accept (.createSocket .undefined) false .create)).awaits := by
    rw [hawaits]
    exact List.mem_append_right _ List.mem_cons_self
  refine ⟨hone.le, Or.inr (Or.inl hmem), ?_, fun _ => hs, h.replied, ?_, h.nulls,
    fun hz => absurd (hone.symm.trans hz) one_ne_zero, fun _ _ => Or.inl hmem⟩
  · rw [hawaits, List.count_append]
    show s.awaits.count _ + 1 ≤ 1
    rw [List.count_eq_zero_of_not_mem hno]
  · have hcalls := h.calls
    rw [hzero] at hcalls
    rw [hone]
    show s.createCalls + 1 = 1 + s.returns.count createTwice + s.returns.count createNull
    omega

theorem step_created (h : Alone s) (hw : Wired s) {v : ReturnValue}
    {rest : List (Await × Except Failure ReturnValue)}
    (hq : s.microtasks = (.create, .ok v) :: rest) :
    Alone ({ s with microtasks := rest, socket := .ofReply v }.emit .created .created) := by
  have hpop := awaits_pop (t := { s with microtasks := rest, socket := .ofReply v }.emit .created
    .created) hq rfl
  have hsingle := h.single
  rw [hpop, List.count_cons_self] at hsingle
  have hno : .create ∉ ({ s with microtasks := rest, socket := .ofReply v }.emit .created
      .created).awaits := List.count_eq_zero.mp (by omega)
  obtain ⟨q, hqp, o, hwait, hx, hv⟩ : Replied s .create v :=
    hw.replied (Or.inl rfl) (by simp [Await.method]) (hq ▸ List.mem_cons_self)
  have hm : q.2.method = .createSocket := hw.method_of_waiter hqp hwait rfl
  have hne : Slot.ofReply v ≠ .null := by
    unfold Slot.ofReply
    split <;> simp
  refine { h with
      tracked := Or.inr (Or.inr (Or.inl hne))
      single := by omega
      unset := fun hc => absurd hc hno
      replied := fun _ => ⟨_, hx, hm, by rw [← hv]; rfl⟩
      kept := ?_ }
  intro u hu
  obtain ⟨x, hxu, hxm, hxo⟩ := mem_created.mp hu
  have hsame : x = (q.2, o) := eq_of_countP_le_one ((createsExecuted_le hw).trans h.posts) hxu hx
    (by simpa using hxm) (by simpa using hm)
  subst hsame
  refine Or.inr (Or.inl ?_)
  show Slot.ofReply v = _
  rw [hv, show o = .ok (.number u) from hxo]
  rfl

theorem step_disposed (h : Alone s) (hdis : Disposing s) {v : ReturnValue}
    {rest : List (Await × Except Failure ReturnValue)}
    (hq : s.microtasks = (.disposeAsync, .ok v) :: rest) :
    Alone { s with microtasks := rest, socket := .null }.emitDisposed := by
  have hpop := awaits_pop (t := { s with microtasks := rest, socket := .null }.emitDisposed) hq rfl
  have hd := (hdis.exited (hpop ▸ List.mem_cons_self)).1
  have hstart := hdis.started (by simp [hd])
  obtain ⟨hno, _, _⟩ := hdis.owned (Or.inr hd)
  rw [hpop] at hno
  have hno' : .create ∉ { s with microtasks := rest, socket := .null }.emitDisposed.awaits :=
    fun hm => hno (List.mem_cons_of_mem _ hm)
  refine { h with
      tracked := Or.inr (Or.inr (Or.inr hstart))
      single := ?_
      unset := fun hm => absurd hm hno'
      replied := fun hne => absurd rfl hne
      kept := ?_ }
  · rw [List.count_eq_zero_of_not_mem hno']
    exact Nat.zero_le 1
  · intro u hu
    rcases h.kept u hu with hm | hm | hm
    · exact absurd (hpop ▸ hm) hno
    · have hclosed := hdis.closed hd
      rw [State.closePost, hm] at hclosed
      exact Or.inr (Or.inr hclosed)
    · exact Or.inr (Or.inr hm)

theorem step_executes (h : Alone s) (hw : Wired s) {data : AsyncSRTWorkerPost}
    {rest : List AsyncSRTWorkerPost} (hq : s.asyncSrt.async.toWorker = data :: rest) (o : Outcome)
    (n : σ) (history : List (ω ⊕ AsyncSRTWorkerPost)) :
    Alone { s with asyncSrt := ⟨s.asyncSrt.async.exec data o, n, history⟩ } := by
  obtain ⟨_, hu, q, hqp, hdata, hwait⟩ := hw.executing hq
  have hexec := exec_executed s.asyncSrt.async hu o
  refine { h with replied := ?_, kept := ?_ }
  · intro hne
    obtain ⟨x, hx, hrest⟩ := h.replied hne
    exact ⟨x, hexec ▸ List.mem_append_left _ hx, hrest⟩
  · intro u hmem
    obtain ⟨x, hx, hm, ho⟩ := mem_created.mp hmem
    rw [hexec] at hx
    rcases List.mem_append.mp hx with hx | hx
    · rcases h.kept u (mem_created.mpr ⟨x, hx, hm, ho⟩) with hk | hk | hk
      · exact Or.inl hk
      · exact Or.inr (Or.inl hk)
      · refine Or.inr (Or.inr ?_)
        show _ ∈ (s.asyncSrt.async.exec data o).executed.map Prod.fst
        rw [hexec, List.map_append]
        exact List.mem_append_left _ hk
    · -- only a `create` waits for a created socket
      rw [List.mem_singleton.mp hx] at hm
      have hmatch := hw.matched q hqp
      rw [hdata, hm] at hmatch
      exact Or.inl (Await.eq_create hmatch ▸ hwait)

theorem other (h : Alone s)
    (he : (t.socket, t.createCalls, t.asyncSrt.async.executed, t.asyncSrt.async.posted) =
      (s.socket, s.createCalls, s.asyncSrt.async.executed, s.asyncSrt.async.posted))
    (hd : s.startedToDispose = true → t.startedToDispose = true)
    (hc : t.awaits.count .create = s.awaits.count .create)
    (hr : ∃ l, t.returns = s.returns ++ l ∧ ∀ x ∈ l, x ∉ refusals) : Alone t := by
  simp only [Prod.mk.injEq] at he
  obtain ⟨hs, hcalls, hx, hp⟩ := he
  exact h.frame (by simp [hs, hcalls, hx]) hd hc ⟨[], by simp [hp]⟩ hr

theorem step {sync : SyncSRT σ ω} {e : Event ω} (h : Alone s) (hw : Wired s) (hdis : Disposing s)
    (hc : Case sync s e t) (ha : CreatesAlone s e) : Alone t := by
  cases hc with
  | moves hm => exact h.moves hm
  | refuses hr hs hd => exact h.step_refuses hw hr hs hd
  | creates hs hd => exact h.step_creates hs hd (ha hs hd)
  | @closes u hm _ _ =>
    have hpost := post_frame (s := { u with startedToDispose := true, disposal := .closing })
      hm.wired.invariant (simple_close u.socket) .disposeClose
    obtain ⟨hperm, ⟨ps, hps, hall⟩, hf, hasync⟩ := hpost
    simp only [Prod.mk.injEq] at hf hasync
    have hcount : _ = (u.awaits ++ [Await.disposeClose]).count .create := hperm.count_eq _
    refine (h.moves hm).frame (by simp [hf, hasync]) (fun _ => hf.2.1) ?_ ⟨ps, hps, ?_⟩
      ⟨[], by simp [hf]⟩
    · rw [hcount, List.count_append]
      rfl
    · intro p hp
      rw [hall p hp]
      simp [ApiCall.post]
  | vacuous hm _ _ =>
    exact (h.moves hm).other rfl (fun _ => rfl) rfl ⟨[], by simp [State.emitDisposed, State.emit]⟩
  | created hq => exact h.step_created hw hq
  | @closed rest v hq =>
    have hwp : Wired { s with microtasks := rest } := hw.pop hq
    have hpop := awaits_pop (t := { s with microtasks := rest }) hq rfl
    obtain ⟨hf, hcount, _⟩ := hwp.disposeAsync_frame
    simp only [Prod.mk.injEq] at hf
    refine h.other (by simp [hf]) (fun hs => hf.2.1.trans hs) ?_ ⟨[], by simp [hf]⟩
    rw [hcount _ (by decide), hpop, List.count_cons_of_ne (by decide)]
  | disposed _ hq => exact h.step_disposed hdis hq
  | @fails rest a e ho hq =>
    have hpop := awaits_pop (t := { s with microtasks := rest }.failDispose e) hq rfl
    have hne : a ≠ .create := by
      rcases ho with rfl | rfl <;> decide
    refine h.other rfl id ?_ ⟨[_], rfl, by simp [refusals]⟩
    rw [hpop, List.count_cons_of_ne hne]
  | finishes _ => exact h.other rfl id rfl ⟨[_], rfl, by simp [refusals]⟩
  | throws _ => exact h.other rfl id rfl ⟨[_], rfl, by simp [refusals]⟩
  | executes hq => exact h.step_executes hw hq _ _ _
  | phase hsame _ _ =>
    simp only [Prod.mk.injEq] at hsame
    refine h.other (by simp [State.setAsync, hsame]) id ?_ ⟨[], by simp [State.setAsync]⟩
    simp [State.awaits, State.setAsync, hsame]
  | exits _ _ =>
    refine h.other rfl id ?_ ⟨[], by simp [State.wake, State.setAsync]⟩
    rw [(awaits_wake _ _ _).count_eq, List.count_append]
    rfl
  | env w => exact h.other rfl id rfl ⟨[], by simp⟩

/-- Creates that are alone are settled before a disposal that finds their socket. -/
theorem settled (h : Alone s) (e : Event ω) : CreatesSettled s e := by
  cases e with
  | dispose => exact fun _ hne hm => hne (h.unset hm)
  | _ => trivial

end Alone

theorem execution_alone {sync : SyncSRT σ ω} {p : Config} {n : σ}
    (h : ((machine sync p).restrict CreatesAlone).Execution (initial n) s) :
    Wired s ∧ Disposing s ∧ Alone s := by
  refine h.invariant (I := fun s => Wired s ∧ Disposing s ∧ Alone s)
    ⟨initial_wired n, initial_disposing n, initial_alone n⟩ fun u e hu he => ?_
  obtain ⟨hw, hdis, ha⟩ := hu
  obtain ⟨hw', hc⟩ := step_cases hw he.1
  exact ⟨hw', hdis.step hw hc (ha.settled e), ha.step hw hdis hc he.2⟩

theorem Case.keeps {sync : SyncSRT σ ω} {e : Event ω} (h : Case sync s e t) (hw : Wired s)
    (hdis : Disposing s) :
    (s.socket ≠ .null → t.socket ≠ .null ∨ t.startedToDispose = true) ∧
    ∀ x ∈ s.asyncSrt.async.executed, x ∈ t.asyncSrt.async.executed := by
  cases h with
  | moves hm =>
    have hf := hm.ordinary.fields
    have ha := hm.ordinary.async
    simp only [Prod.mk.injEq] at hf ha
    exact ⟨fun hs => Or.inl (hf.1 ▸ hs), fun x hx => ha.1 ▸ hx⟩
  | refuses | creates | env => exact ⟨Or.inl, fun _ hx => hx⟩
  | @closes u hm _ _ =>
    have ha := hm.ordinary.async
    have hpost := post_frame (s := { u with startedToDispose := true, disposal := .closing })
      hm.wired.invariant (simple_close u.socket) .disposeClose
    obtain ⟨_, _, hf', ha'⟩ := hpost
    simp only [Prod.mk.injEq] at hf' ha ha'
    exact ⟨fun _ => Or.inr hf'.2.1, fun x hx => ha'.1 ▸ ha.1 ▸ hx⟩
  | vacuous hm _ _ =>
    have ha := hm.ordinary.async
    simp only [Prod.mk.injEq] at ha
    exact ⟨fun _ => Or.inr rfl, fun x hx => ha.1 ▸ hx⟩
  | @created rest v _ =>
    refine ⟨fun _ => Or.inl ?_, fun _ hx => hx⟩
    show Slot.ofReply v ≠ .null
    unfold Slot.ofReply
    split <;> simp
  | @closed rest v hq =>
    have hwp : Wired { s with microtasks := rest } := hw.pop hq
    obtain ⟨hf, _⟩ := hwp.disposeAsync_frame
    simp only [Prod.mk.injEq] at hf
    obtain ⟨hsock, _, _, _, _, _, _, _, hx⟩ := hf
    exact ⟨fun hs => Or.inl fun he => hs (hsock.symm.trans he), fun x hmem => hx ▸ hmem⟩
  | @disposed rest v _ hq =>
    have hpop :=
      awaits_pop (t := { s with microtasks := rest, socket := .null }.emitDisposed) hq rfl
    have hd := (hdis.exited (hpop ▸ List.mem_cons_self)).1
    exact ⟨fun _ => Or.inr (hdis.started (by simp [hd])), fun _ hx => hx⟩
  | fails | finishes | throws => exact ⟨Or.inl, fun _ hx => hx⟩
  | executes hq =>
    refine ⟨Or.inl, fun x hx => ?_⟩
    simp only [AsyncSRT.exec]
    split
    · exact hx
    · exact List.mem_append_left _ hx
  | phase hsame _ _ =>
    simp only [Prod.mk.injEq] at hsame
    exact ⟨Or.inl, fun x hx => hsame.2.1 ▸ hx⟩
  | exits => exact ⟨Or.inl, fun _ hx => hx⟩

section

variable {sync : SyncSRT σ ω} {p : Config} {n : σ}

theorem later (h : ((machine sync p).restrict CreatesAlone).Execution (initial n) s)
    (k : ((machine sync p).restrict CreatesAlone).Execution s t) :
    (s.socket ≠ .null → t.socket ≠ .null ∨ t.startedToDispose = true) ∧
      ∀ x ∈ s.asyncSrt.async.executed, x ∈ t.asyncSrt.async.executed := by
  have main := k.invariant (I := fun u => (Wired u ∧ Disposing u ∧ Alone u) ∧
      (s.socket ≠ .null → u.socket ≠ .null ∨ u.startedToDispose = true) ∧
      ∀ x ∈ s.asyncSrt.async.executed, x ∈ u.asyncSrt.async.executed)
    ⟨execution_alone h, Or.inl, fun _ hx => hx⟩ fun u e hu he => ?_
  · exact main.2
  obtain ⟨⟨hw, hdis, ha⟩, hsock, hexec⟩ := hu
  obtain ⟨hw', hc⟩ := step_cases hw he.1
  obtain ⟨hs, hx⟩ := hc.keeps hw hdis
  exact ⟨⟨hw', hdis.step hw hc (ha.settled e), ha.step hw hdis hc he.2⟩,
    fun hn => (hsock hn).elim hs fun hst => Or.inr (hc.starts hw hst),
    fun x hmem => hx x (hexec x hmem)⟩

/-- The object owns at most one socket while its creates do not overlap. -/
theorem owns_one_socket (h : ((machine sync p).restrict CreatesAlone).Execution (initial n) s)
    (k : ((machine sync p).restrict CreatesAlone).Execution s t) : OneSocket s t := by
  obtain ⟨_, _, hs⟩ := execution_alone h
  obtain ⟨hw, _, ht⟩ := execution_alone (h.trans k)
  obtain ⟨hkept, hexec⟩ := later h k
  have honce : t.createsExecuted ≤ 1 := (createsExecuted_le hw).trans ht.posts
  refine ⟨honce, ?_, ?_, ht.kept⟩
  · intro hd
    have hcalls := ht.calls
    rw [ht.nulls hd, Nat.add_zero] at hcalls
    have hposts := ht.posts
    by_cases hz : t.createsPosted = 0
    · have := ht.untried hz
      omega
    · omega
  · intro hne
    by_cases hnull : t.socket = .null
    · exact Or.inr ⟨hnull, (hkept hne).resolve_left fun he => he hnull⟩
    · obtain ⟨x, hx, hxm, hxs⟩ := hs.replied hne
      obtain ⟨y, hy, hym, hys⟩ := ht.replied hnull
      have hsame : x = y := eq_of_countP_le_one honce (hexec x hx) hy (by simpa using hxm)
        (by simpa using hym)
      exact Or.inl (by rw [hxs, hys, hsame])

end

theorem owns_one_socket_disposed :
    let s := serverMachine.runTrace (initial .empty) (createRun ++ [.create])
    OneSocket s (serverMachine.runTrace s disposeRun) := by
  intro s
  have h : (serverMachine.restrict CreatesAlone).Execution (initial .empty) _ :=
    Machine.execution_of_trace _ _ (createRun ++ [.create]) (by decide)
  have k : (serverMachine.restrict CreatesAlone).Execution s _ :=
    Machine.execution_of_trace _ _ disposeRun (by decide)
  rw [Machine.runTrace_restrict] at h k
  exact owns_one_socket h k

def overlappingRun : List (Event TableEvent) :=
  [.create, .create] ++ answer ++ [.listenerReturn false] ++ answer

theorem overlapping_creates_own_two :
    ¬ ∀ s t : State Table TableEvent, serverMachine.Execution (initial .empty) s →
      serverMachine.Execution s t → OneSocket s t := by
  intro h
  have hr := serverMachine.execution_of_trace (initial .empty) overlappingRun (by decide)
  have honce := (h _ _ hr (.refl _)).once
  exact absurd honce (by decide)

end SocketAsync
