import NodeSrt.SocketAsyncOrder

/-! # What a step leaves

Microtasks stay until they run and calls are awaited until they are answered. What is new
after a step is for a reply, for a call that was not sent, or for a disposal. -/
namespace SocketAsync

open AsyncValues
open TransitionSystem
open AsyncApi
open NativeSrt

variable {σ ω : Type*} {s t : State σ ω} {p : Config} {e : Event ω} {sync : SyncSRT σ ω}

theorem Change.socket (hc : Change sync p s e t) (hw : Wired s) :
    t.socket = s.socket ∨ .create ∈ s.awaits ∨ .disposeAsync ∈ s.awaits := by
  cases hc with
  | turns hx _ ht =>
    have hf := ht.sends.fields
    have hsame := hx.same
    simp only [Prod.mk.injEq] at hf hsame
    exact Or.inl (hf.1.trans hsame.2.1)
  | delivers he =>
    obtain ⟨a, v, -, -, -, hf⟩ := hw.delivers he
    simp only [Prod.mk.injEq] at hf
    exact Or.inl hf.1
  | closes =>
    obtain ⟨hf, -⟩ := (hw.closing _).post_sends (simple_close s.socket) .disposeClose
    simp only [Prod.mk.injEq] at hf
    exact Or.inl hf.1
  | closed _ hq =>
    obtain ⟨hf, -⟩ := (hw.pop hq).disposeAsync_frame
    simp only [Prod.mk.injEq] at hf
    exact Or.inl hf.1
  | created _ hq => exact Or.inr (Or.inl (mem_awaits.mpr (Or.inl ⟨_, hq ▸ List.mem_cons_self⟩)))
  | disposed _ hq => exact Or.inr (Or.inr (mem_awaits.mpr (Or.inl ⟨_, hq ▸ List.mem_cons_self⟩)))
  | creates | vacuous | executes | waits | terminates | exits | env => exact Or.inl rfl

theorem terminateWorker_answered (s : AsyncSRT Await) :
    s.terminateWorker.answered = s.answered := by
  cases hw : s.worker with
  | true => rw [terminateWorker_eq hw]
  | false => simp [AsyncSRT.terminateWorker, hw]

theorem dispose_answered (s : AsyncSRT Await) : s.dispose.answered = s.answered := by
  rcases dispose_cases s with ⟨-, he⟩ | ⟨-, -, he⟩ | ⟨-, -, he⟩
  · rw [he]
  · rw [he]
  · rw [he, terminateWorker_answered]

theorem disposeAsync_stays (s : State σ ω) :
    s.disposeAsync.asyncSrt.async.answered = s.asyncSrt.async.answered ∧
      (s.disposeAsync.microtasks = s.microtasks ∨
        s.disposeAsync.microtasks = s.microtasks ++ [(.disposeAsync, .ok .undefined)]) := by
  have h := dispose_answered s.asyncSrt.async
  simp only [State.disposeAsync, State.awaitDisposed]
  split
  · exact ⟨h, Or.inr rfl⟩
  · exact ⟨h, Or.inl rfl⟩

/-- Unless a reply comes in, no call is answered, and a microtask stays until it runs. -/
theorem Change.stays (hc : Change sync p s e t) (hw : Wired s) (hn : e ≠ .deliver) :
    t.asyncSrt.async.answered = s.asyncSrt.async.answered ∧ ∀ y ∈ s.microtasks,
      y ∈ t.microtasks ∨ e = .resume ∧ ∃ rest, s.microtasks = y :: rest := by
  have popped : ∀ {y z rest}, s.microtasks = z :: rest → y ∈ s.microtasks →
      y ∈ rest ∨ (Event.resume : Event ω) = .resume ∧ ∃ rest, s.microtasks = y :: rest := by
    intro y z rest hq hy
    rw [hq] at hy
    rcases List.mem_cons.mp hy with rfl | hy
    · exact Or.inr ⟨rfl, rest, hq⟩
    · exact Or.inl hy
  cases hc with
  | turns hx _ ht =>
    have hf := ht.sends.fields
    obtain ⟨-, qs, ms, -, -, hm, -⟩ := ht.sends
    have hsame := hx.same
    simp only [Prod.mk.injEq] at hf hsame
    refine ⟨hsame.1 ▸ hf.2.2.2.2.2.2.1, fun y hy => ?_⟩
    rw [hm, List.mem_append]
    cases hx with
    | await hs hq => exact (popped hq hy).imp_left Or.inl
    | user | listeners | timer => exact Or.inl (Or.inl hy)
  | delivers he => exact absurd rfl hn
  | creates | vacuous | executes | env => exact ⟨rfl, fun y hy => Or.inl hy⟩
  | created _ hq | disposed _ hq => exact ⟨rfl, fun y hy => popped hq hy⟩
  | closes =>
    obtain ⟨hf, -, qs, ms, -, -, hm, -⟩ :=
      (hw.closing _).post_sends (simple_close s.socket) .disposeClose
    simp only [Prod.mk.injEq] at hf
    exact ⟨hf.2.2.2.2.2.2.1, fun y hy => Or.inl (hm ▸ List.mem_append_left _ hy)⟩
  | @closed rest v _ hq =>
    obtain ⟨ha, hm⟩ := disposeAsync_stays { s with microtasks := rest }
    refine ⟨ha, fun y hy => (popped hq hy).imp_left fun hy => ?_⟩
    rcases hm with hm | hm
    · exact hm ▸ hy
    · exact hm ▸ List.mem_append_left _ hy
  | waits =>
    simp only [AsyncApi.next]
    split <;> exact ⟨rfl, fun y hy => Or.inl hy⟩
  | terminates => exact ⟨terminateWorker_answered _, fun y hy => Or.inl hy⟩
  | exits => exact ⟨rfl, fun y hy => Or.inl (List.mem_append_left _ hy)⟩

theorem Change.wakes (hc : Change sync p s e t) (hw : Wired s) (hn : e ≠ .deliver) :
    ∀ y ∈ t.microtasks, y ∈ s.microtasks ∨ (y.1.method = none ∧ ∃ v, y.2 = .ok v) ∨
      Refused s y.2 := by
  have popped : ∀ {y z rest}, s.microtasks = z :: rest → y ∈ rest → y ∈ s.microtasks := by
    intro y z rest hq hy
    exact hq ▸ List.mem_cons_of_mem _ hy
  intro y hy
  cases hc with
  | turns hx _ ht =>
    obtain ⟨-, qs, ms, -, -, hm, -, hms⟩ := ht.sends
    have hsame := hx.same
    simp only [Prod.mk.injEq] at hsame
    rw [hm] at hy
    rcases List.mem_append.mp hy with hy | hy
    · exact Or.inl (hx.microtasks y hy)
    · rcases hms y hy with ⟨⟨event, v, fd, -, ha⟩, hr⟩ | ⟨-, hr⟩
      · exact Or.inr (Or.inl ⟨by rw [ha]; rfl, _, hr⟩)
      · rw [Refused, hsame.1] at hr
        exact Or.inr (Or.inr hr)
  | delivers he => exact absurd rfl hn
  | creates | vacuous | executes | terminates | env => exact Or.inl hy
  | created _ hq | disposed _ hq => exact Or.inl (popped hq hy)
  | closes =>
    obtain ⟨-, -, qs, ms, -, -, hm, -, hms⟩ :=
      (hw.closing _).post_sends (simple_close s.socket) .disposeClose
    rw [hm] at hy
    rcases List.mem_append.mp hy with hy | hy
    · exact Or.inl hy
    · exact Or.inr (Or.inr (hms y hy).2)
  | @closed rest v _ hq =>
    rcases (disposeAsync_stays { s with microtasks := rest }).2 with hm | hm
    · rw [hm] at hy
      exact Or.inl (popped hq hy)
    · rw [hm] at hy
      rcases List.mem_append.mp hy with hy | hy
      · exact Or.inl (popped hq hy)
      · rw [List.mem_singleton.mp hy]
        exact Or.inr (Or.inl ⟨rfl, _, rfl⟩)
  | waits =>
    simp only [AsyncApi.next] at hy
    split at hy <;> exact Or.inl hy
  | exits =>
    rcases List.mem_append.mp hy with hy | hy
    · exact Or.inl hy
    · rw [List.mem_singleton.mp hy]
      exact Or.inr (Or.inl ⟨rfl, _, rfl⟩)

/-- What a step awaits: what was awaited before, or a call, or the disposal. -/
theorem Change.mem_awaits (hc : Change sync p s e t) (hw : Wired s) {a : Await}
    (ha : a ∈ t.awaits) : a ∈ s.awaits ∨ a.owning = true ∨
      ∃ x u, Prompted s e x u ∧ (Closes x a ∨ ∃ post, Calls p u x a post) := by
  have popped : ∀ {b r rest}, s.microtasks = (b, r) :: rest →
      a ∈ ({ s with microtasks := rest } : State σ ω).awaits → a ∈ s.awaits := by
    intro b r rest hq hmem
    rw [awaits_pop (t := { s with microtasks := rest }) hq rfl]
    exact List.mem_cons_of_mem _ hmem
  cases hc with
  | @turns _ x u _ hx _ ht =>
    refine (ht.sends.mem_awaits ha).imp (hx.awaits a) fun hc => Or.inr ⟨x, u, hx, hc⟩
  | delivers he =>
    obtain ⟨b, v, -, hq, hm, -⟩ := hw.delivers he
    refine Or.inl (SocketAsync.mem_awaits.mpr (Or.inr ?_))
    rw [hq]
    rcases SocketAsync.mem_awaits.mp ha with ⟨r, hr⟩ | ha
    · rw [hm] at hr
      rw [(Prod.mk.inj (List.mem_singleton.mp hr)).1]
      exact List.mem_cons_self
    · exact List.mem_cons_of_mem _ ha
  | creates =>
    rcases List.mem_append.mp ((awaits_accept _ _ _) ▸ ha) with ha | ha
    · exact Or.inl ha
    · exact Or.inr (Or.inl (by rw [List.mem_singleton.mp ha]; rfl))
  | created _ hq | disposed _ hq => exact Or.inl (popped hq ha)
  | @closes timer =>
    have hf := (post_frame (hw.closing timer).invariant (simple_close s.socket) .disposeClose).1
    rcases List.mem_append.mp (hf.mem_iff.mp ha) with ha | ha
    · exact Or.inl ha
    · exact Or.inr (Or.inl (by rw [List.mem_singleton.mp ha]; rfl))
  | @closed rest v _ hq =>
    by_cases hd : a = .disposeAsync
    · exact Or.inr (Or.inl (by rw [hd]; rfl))
    · have hcount := (hw.pop hq).disposeAsync_frame.2.1 a hd
      exact Or.inl (popped hq (List.count_pos_iff.mp (hcount ▸ List.count_pos_iff.mpr ha)))
  | vacuous | executes | env => exact Or.inl ha
  | waits =>
    simp only [AsyncApi.next] at ha
    split at ha <;> exact Or.inl ha
  | terminates _ hd =>
    have hl := hw.invariant.disposal.clear (by simp [hd]) (by simp [hd])
    have hsame := hw.terminateWorker_same hl
    simp only [Prod.mk.injEq] at hsame
    left
    simpa [State.awaits, State.setAsync, hsame.2.2.2.1] using ha
  | exits =>
    rcases List.mem_append.mp ((awaits_wake _ _ _).mem_iff.mp ha) with ha | ha
    · exact Or.inl ha
    · exact Or.inr (Or.inl (by rw [List.mem_singleton.mp ha]; rfl))

/-! ## How often something is awaited -/

theorem Sends.uncalled {x : Prompt} (h : Sends p s x t) {a : Await} (hcl : ¬ Closes x a)
    (hc : ∀ post, ¬ Calls p s x a post) : t.awaits.count a = s.awaits.count a ∧
      ∀ r, (a, r) ∈ t.microtasks → (a, r) ∈ s.microtasks := by
  obtain ⟨-, qs, ms, -, hq, hm, hqs, hms⟩ := h
  have hqs' : (qs.map fun q => q.1.waiter).count a = 0 := by
    rw [List.count_eq_zero]
    intro hmem
    obtain ⟨q, hq, rfl⟩ := List.mem_map.mp hmem
    exact hc _ (hqs q hq).1
  have hno : ∀ y ∈ ms, y.1 ≠ a := by
    rintro y hy rfl
    rcases hms y hy with ⟨hclose, -⟩ | ⟨⟨post, hcall⟩, -⟩
    · exact hcl hclose
    · exact hc post hcall
  have hms' : (ms.map Prod.fst).count a = 0 := by
    rw [List.count_eq_zero]
    intro hmem
    obtain ⟨y, hy, he⟩ := List.mem_map.mp hmem
    exact hno y hy he
  constructor
  · rw [awaits_eq, awaits_eq, hq, hm]
    simp only [List.map_append, List.count_append]
    omega
  · intro r hr
    rw [hm] at hr
    exact (List.mem_append.mp hr).resolve_right fun hr => hno _ hr rfl

theorem Prompted.count_awaits {x : Prompt} {u : State σ ω} (hx : Prompted s e x u) {a : Await}
    (hruns : ∀ r rest, e = .resume → s.microtasks ≠ (a, r) :: rest) :
    u.awaits.count a = s.awaits.count a := by
  cases hx with
  | user | listeners | timer => rfl
  | @await b r rest hs hq =>
    have hne : b ≠ a := fun hb => hruns r rest rfl (hb ▸ hq)
    rw [awaits_pop (t := { s with microtasks := rest }) hq rfl, List.count_cons_of_ne hne]

theorem Change.count_awaits (hc : Change sync p s e t) (hw : Wired s) {a : Await}
    (ha : a.owning = false) (hruns : ∀ r rest, e = .resume → s.microtasks ≠ (a, r) :: rest)
    (hcalls : ∀ x u, Prompted s e x u → ¬ Closes x a ∧ ∀ post, ¬ Calls p u x a post) :
    t.awaits.count a = s.awaits.count a := by
  have hne : ∀ {b : Await}, b.owning = true → b ≠ a := by
    rintro b hb rfl
    exact absurd (hb.symm.trans ha) (by decide)
  have popped : ∀ {b r rest}, s.microtasks = (b, r) :: rest → b.owning = true →
      ({ s with microtasks := rest } : State σ ω).awaits.count a = s.awaits.count a := by
    intro b r rest hq hb
    rw [awaits_pop (t := { s with microtasks := rest }) hq rfl, List.count_cons_of_ne (hne hb)]
  have added : ∀ {b : Await} {l : List Await}, b.owning = true → l.Perm (s.awaits ++ [b]) →
      l.count a = s.awaits.count a := by
    intro b l hb hl
    rw [hl.count_eq, List.count_append, List.count_singleton, if_neg (by simpa using hne hb)]
    rfl
  cases hc with
  | @turns _ x u _ hx _ ht =>
    exact (ht.sends.uncalled (hcalls x u hx).1 (hcalls x u hx).2).1.trans (hx.count_awaits hruns)
  | delivers he =>
    obtain ⟨b, v, hnil, hq, hm, -⟩ := hw.delivers he
    rw [awaits_eq, awaits_eq, hq, hm, hnil]
    simp [List.count_cons, Nat.add_comm]
  | creates => exact added rfl (.of_eq (awaits_accept _ _ _))
  | created _ hq | disposed _ hq => exact popped hq rfl
  | @closes timer =>
    have hf := (post_frame (hw.closing timer).invariant (simple_close s.socket) .disposeClose).1
    exact added rfl hf
  | closed _ hq =>
    exact ((hw.pop hq).disposeAsync_frame.2.1 a (hne rfl).symm).trans (popped hq rfl)
  | vacuous | executes | env => rfl
  | waits =>
    simp only [AsyncApi.next]
    split <;> rfl
  | terminates _ hd =>
    have hl := hw.invariant.disposal.clear (by simp [hd]) (by simp [hd])
    have hsame := hw.terminateWorker_same hl
    simp only [Prod.mk.injEq] at hsame
    simp [State.awaits, State.setAsync, hsame.2.2.2.1]
  | exits => exact added rfl (awaits_wake _ _ _)

theorem Change.count_microtasks (hc : Change sync p s e t) (hw : Wired s) (hn : e ≠ .deliver)
    {y : Await × Except Failure ReturnValue} (hy : y.1.owning = false)
    (hruns : ∀ rest, e = .resume → s.microtasks ≠ y :: rest)
    (hcalls : ∀ x u, Prompted s e x u → ¬ (Closes x y.1 ∧ y.2 = .ok .null) ∧
      ¬ ((∃ post, Calls p u x y.1 post) ∧ Refused u y.2)) :
    t.microtasks.count y = s.microtasks.count y := by
  have hne : ∀ {z : Await × Except Failure ReturnValue}, z.1.owning = true → z ≠ y := by
    rintro z hz rfl
    exact absurd (hz.symm.trans hy) (by decide)
  have popped : ∀ {z rest}, s.microtasks = z :: rest → z.1.owning = true →
      rest.count y = s.microtasks.count y := by
    intro z rest hq hz
    rw [hq, List.count_cons_of_ne (hne hz)]
  have added : ∀ (l ms : List (Await × Except Failure ReturnValue)), y ∉ ms →
      (l ++ ms).count y = l.count y := by
    intro l ms hms
    rw [List.count_append, List.count_eq_zero_of_not_mem hms, Nat.add_zero]
  cases hc with
  | @turns _ x u _ hx _ ht =>
    obtain ⟨-, qs, ms, -, -, hm, -, hms⟩ := ht.sends
    have hnot : y ∉ ms := fun hmem => by
      rcases hms y hmem with hclose | hcall
      · exact (hcalls x u hx).1 hclose
      · exact (hcalls x u hx).2 hcall
    rw [hm, added _ _ hnot]
    cases hx with
    | user | listeners | timer => rfl
    | @await b r rest hs hq =>
      have hb : (b, r) ≠ y := fun he => hruns rest rfl (he ▸ hq)
      rw [hq, List.count_cons_of_ne hb]
  | delivers he => exact absurd rfl hn
  | creates | vacuous | executes | terminates | env => rfl
  | created _ hq | disposed _ hq => exact popped hq rfl
  | closes =>
    obtain ⟨-, -, qs, ms, -, -, hm, -, hms⟩ :=
      (hw.closing _).post_sends (simple_close s.socket) .disposeClose
    have hnot : y ∉ ms := fun hmem => hne (z := y) (by rw [(hms y hmem).1]; rfl) rfl
    rw [hm, added _ _ hnot]
  | @closed rest v _ hq =>
    rcases (disposeAsync_stays { s with microtasks := rest }).2 with hm | hm
    · rw [hm]
      exact popped hq rfl
    · have hnot : y ∉ [(Await.disposeAsync, Except.ok ReturnValue.undefined)] := fun hmem =>
        hne rfl (List.mem_singleton.mp hmem).symm
      rw [hm, added _ _ hnot]
      exact popped hq rfl
  | waits =>
    simp only [AsyncApi.next]
    split <;> rfl
  | exits =>
    have hnot : y ∉ [(Await.disposeAsync, Except.ok ReturnValue.undefined)] := fun hmem =>
      hne rfl (List.mem_singleton.mp hmem).symm
    exact added _ _ hnot

theorem Change.unhandled (hc : Change sync p s e t) (hw : Wired s) : ∀ y ∈ t.unhandled,
    y ∈ s.unhandled ∨ ∃ x u, Prompted s e x u ∧ Raises u x y := by
  intro y hy
  cases hc with
  | @turns _ x u _ hx _ ht =>
    have hsame := hx.same
    simp only [Prod.mk.injEq] at hsame
    exact (ht.unhandled y hy).imp (fun hy => hsame.2.2.2.2.2.2.2.2 ▸ hy) fun hr => ⟨x, u, hx, hr⟩
  | delivers he =>
    obtain ⟨q, ks, v, heq, -⟩ := hw.deliver_eq he.2
    rw [heq] at hy
    exact Or.inl hy
  | closes =>
    obtain ⟨-, hf, -⟩ := (hw.closing _).post_sends (simple_close s.socket) .disposeClose
    simp only [Prod.mk.injEq] at hf
    exact Or.inl (hf.2.2.2.2.1 ▸ hy)
  | closed =>
    simp only [State.disposeAsync, State.awaitDisposed] at hy
    split at hy <;> exact Or.inl hy
  | waits =>
    simp only [AsyncApi.next] at hy
    split at hy <;> exact Or.inl hy
  | creates | created | vacuous | disposed | executes | terminates | exits | env => exact Or.inl hy

end SocketAsync
