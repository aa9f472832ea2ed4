import Mathlib.Data.List.TakeWhile
import NodeSrt.AsyncApiServing
import NodeSrt.SocketAsyncSteps

/-! # setSocketFlags

`setSocketFlags` of `srt-socket-async.ts` posts one `setSockFlag` after the other. What is
wrong with an option is found when those before it have been posted. -/
namespace SocketFlags

open AsyncValues
open TransitionSystem
open AsyncApi
open OrderedPort
open SocketAsync (Slot recordWrite_nil)

variable {κ : Type*}

/-- The fields of the object that `setSocketFlags` uses. Its AsyncSRT is public. -/
structure SRTSocketAsync (κ : Type*) where
  asyncSrt : AsyncSRT κ
  socket : Slot
  startedToDispose : Bool

inductive FlagsError where
  | noSocket | differentLengths
  | async (e : AsyncError)
  deriving DecidableEq, Repr

def FlagsError.message (detached : Finset ArrayBuffer) : FlagsError → JSString
  | .noSocket => ascii "There is no socket, call create() first"
  | .differentLengths => ascii "opts and values must have same length"
  | .async e => e.message detached

inductive FlagsReturn where
  | rejected (e : FlagsError)
  | all (promises : List CallReturn)
  deriving DecidableEq, Repr

/-- `this.asyncSrt.setSockFlag(this.socket, opt, value)` -/
def flagCall (socket : Slot) (x : JSValue × JSValue) : ApiCall :=
  .setSockFlag socket.toValue x.1 x.2

/-- `x => x`, on what `setSockFlag` hands back. -/
def isTruthy : CallReturn → Bool
  | .undefined => false
  | _ => true

namespace SRTSocketAsync

/-- `opts.map`, which ends when a call throws. -/
def mapFlags (o : SRTSocketAsync κ) (waiter : κ) :
    List (JSValue × JSValue) → SRTSocketAsync κ × Except AsyncError (List CallReturn)
  | [] => (o, .ok [])
  | x :: rest =>
    if o.socket ≠ .null ∧ o.startedToDispose = false then
      let r := o.asyncSrt.apiCall (flagCall o.socket x) false waiter
      let o := { o with asyncSrt := r.1 }
      match r.2 with
      | .threw e => (o, .error e)
      | ret =>
        let r := o.mapFlags waiter rest
        (r.1, r.2.map (ret :: ·))
    else
      let r := o.mapFlags waiter rest
      (r.1, r.2.map (.undefined :: ·))

def setSocketFlags (o : SRTSocketAsync κ) (waiter : κ) (opts values : List JSValue) :
    SRTSocketAsync κ × FlagsReturn :=
  if o.socket = .null then (o, .rejected .noSocket)
  else if opts.length ≠ values.length then (o, .rejected .differentLengths)
  else if o.startedToDispose then (o, .all [])
  else
    let r := o.mapFlags waiter (opts.zip values)
    match r.2 with
    | .error e => (r.1, .rejected (.async e))
    | .ok promises => (r.1, .all (promises.filter isTruthy))

end SRTSocketAsync

/-! ## All or nothing -/

/-- What an element given to `Promise.all` has come to. -/
def settlement (s : AsyncSRT κ) : CallReturn → Settlement
  | .promise k => s.promise k
  | .rejectedPromise e | .threw e => .rejected e
  | .undefined => .fulfilled .undefined

def FlagsReturn.Rejects (s : AsyncSRT κ) : FlagsReturn → Prop
  | .rejected _ => True
  | .all promises => ∃ p ∈ promises, ∃ e, settlement s p = .rejected e

def FlagsReturn.FulfilledWith (s : AsyncSRT κ) (vs : List ReturnValue) : FlagsReturn → Prop
  | .rejected _ => False
  | .all promises => promises.map (settlement s) = vs.map .fulfilled

/-- In the state `u`, the calls having been posted from `first` up to `last`: none of them is
rejected, the worker is held until their replies are in, and then the promise is fulfilled
with what the native calls have returned. -/
structure Fulfils (first last : ℕ) (posts : List AsyncSRTWorkerPost) (r : FlagsReturn)
    (u : AsyncSRT κ) : Prop where
  rejects : ¬ r.Rejects u
  held : ∀ k, first ≤ k → k < last → u.answered ≤ k → u.worker = true
  results : (∀ k, first ≤ k → k < last → k < u.answered) →
    ∃ xs, xs.map Prod.fst = posts ∧ xs <+: u.executed.drop first ∧
      r.FulfilledWith u (xs.map fun x => resultOf x.2)

/-- The call rejects and has posted nothing, or it has posted all pairs in order and is
fulfilled with their results, whatever happens later. -/
def AllOrNothing (o : SRTSocketAsync κ) (waiter : κ) (opts values : List JSValue) : Prop :=
  let s := o.asyncSrt
  let t := (o.setSocketFlags waiter opts values).1.asyncSrt
  let r := (o.setSocketFlags waiter opts values).2
  let posts := (opts.zip values).map fun x => (flagCall o.socket x).post
  (t.posted = s.posted ∧ r.Rejects t) ∨
  (t.posted.map Prod.snd = s.posted.map Prod.snd ++ posts ∧
    ∀ u, (machine κ).Execution t u → Fulfils s.posted.length t.posted.length posts r u)

def flagArgs (socket : Slot) (pairs : List (JSValue × JSValue)) : List JSValue :=
  pairs.flatMap fun x => (flagCall socket x).post.args

/-- No pair up to the first that is refused can be posted. -/
def PostsNothing (s : AsyncSRT κ) (socket : Slot) (pairs : List (JSValue × JSValue)) : Prop :=
  ∀ x ∈ pairs.takeWhile (fun x => ReachesPost s (flagCall socket x)),
    ¬ Sendable s.detached (flagCall socket x).post.args

/-- The instance is disposing by itself, and hands back `undefined` for every pair. -/
def Ignored (s : AsyncSRT κ) (socket : Slot) (pairs : List (JSValue × JSValue)) : Prop :=
  pairs ≠ [] ∧ s.worker = true ∧ s.startedToDispose = true ∧
    ∀ x ∈ pairs, (flagCall socket x).earlyError = none

/-- All pairs can be posted, and no earlier `postMessage` has thrown. -/
def PostsAll (s : AsyncSRT κ) (socket : Slot) (pairs : List (JSValue × JSValue)) : Prop :=
  (∀ x ∈ pairs, ReachesPost s (flagCall socket x)) ∧
    Sendable s.detached (flagArgs socket pairs) ∧ ¬ Orphaned s

/-! ## One pair -/

section Pairs

variable {s : AsyncSRT κ} {socket : Slot} {waiter : κ} {x : JSValue × JSValue}
  {pairs : List (JSValue × JSValue)}

theorem apiCall_of_refused (h : ¬ ReachesPost s (flagCall socket x)) :
    s.apiCall (flagCall socket x) false waiter = (s, s.earlyReturn (flagCall socket x)) := by
  obtain ⟨n, e⟩ := apiCall_of_early h false waiter
  rw [e]
  simp [flagCall, ApiCall.writeFrame]

theorem apiCall_of_posted (h : Accepts s (flagCall socket x)) :
    s.apiCall (flagCall socket x) false waiter =
      (s.accept (flagCall socket x) false waiter, .promise s.nextCall) := by
  rw [apiCall_of_accepts h]
  simp [flagCall, ApiCall.writeFrame]

theorem apiCall_of_thrown (h : PostThrows s (flagCall socket x)) :
    s.apiCall (flagCall socket x) false waiter =
      ((s.prepare (flagCall socket x) false waiter).settle s.nextCall (.rejected .dataClone),
        .promise s.nextCall) := by
  rw [apiCall_of_throws h]
  simp [flagCall, ApiCall.writeFrame]

theorem apiCall_of_lost (h : TraceThrows s (flagCall socket x)) :
    s.apiCall (flagCall socket x) false waiter =
      (s.lose (flagCall socket x), .rejectedPromise .typeError) := by
  rw [apiCall_of_untraced h]
  simp [flagCall, ApiCall.writeFrame]

theorem mapFlags_cons (hs : socket ≠ .null) (rest : List (JSValue × JSValue)) :
    (SRTSocketAsync.mk s socket false).mapFlags waiter (x :: rest) =
      match (s.apiCall (flagCall socket x) false waiter).2 with
      | .threw e => (⟨(s.apiCall (flagCall socket x) false waiter).1, socket, false⟩, .error e)
      | ret =>
        (((SRTSocketAsync.mk (s.apiCall (flagCall socket x) false waiter).1 socket false).mapFlags
            waiter rest).1,
          ((SRTSocketAsync.mk (s.apiCall (flagCall socket x) false waiter).1 socket
            false).mapFlags waiter rest).2.map (ret :: ·)) := by
  rw [SRTSocketAsync.mapFlags, if_pos ⟨hs, rfl⟩]

theorem mapFlags_of_return (hs : socket ≠ .null) {t : AsyncSRT κ} {ret : CallReturn}
    (h : s.apiCall (flagCall socket x) false waiter = (t, ret))
    (rest : List (JSValue × JSValue)) (hret : ∀ e, ret ≠ .threw e := by simp) :
    (SRTSocketAsync.mk s socket false).mapFlags waiter (x :: rest) =
      (((SRTSocketAsync.mk t socket false).mapFlags waiter rest).1,
        ((SRTSocketAsync.mk t socket false).mapFlags waiter rest).2.map (ret :: ·)) := by
  rw [mapFlags_cons hs, h]
  cases ret with
  | threw e => exact absurd rfl (hret e)
  | promise k | rejectedPromise e | undefined => rfl

theorem mapFlags_of_refused (waiter : κ) (hs : socket ≠ .null)
    (h : ¬ ReachesPost s (flagCall socket x)) (rest : List (JSValue × JSValue)) :
    (∃ e, (SRTSocketAsync.mk s socket false).mapFlags waiter (x :: rest) =
      (⟨s, socket, false⟩, .error e)) ∨
    ((s.worker = false ∨ s.startedToDispose = true) ∧ (flagCall socket x).earlyError = none ∧
      (SRTSocketAsync.mk s socket false).mapFlags waiter (x :: rest) =
        (((SRTSocketAsync.mk s socket false).mapFlags waiter rest).1,
          ((SRTSocketAsync.mk s socket false).mapFlags waiter rest).2.map
            ((if s.worker = false then .rejectedPromise .disposedOnCall
              else .undefined) :: ·))) := by
  rw [mapFlags_cons hs, apiCall_of_refused h]
  cases he : (flagCall socket x).earlyError with
  | some e => exact Or.inl ⟨e, by simp [AsyncSRT.earlyReturn, he]⟩
  | none =>
    by_cases hw : s.worker = false
    · exact Or.inr ⟨Or.inl hw, rfl, by simp [AsyncSRT.earlyReturn, he, hw]⟩
    · by_cases hd : s.startedToDispose = true
      · exact Or.inr ⟨Or.inr hd, rfl, by simp [AsyncSRT.earlyReturn, he, hw, hd]⟩
      · exact Or.inl ⟨undefinedError s.detached (flagCall socket x).post,
          by simp [AsyncSRT.earlyReturn, he, hw, hd]⟩

/-! ## All pairs -/

theorem posted_mapFlags (waiter : κ) (hs : socket ≠ .null) (s : AsyncSRT κ)
    (pairs : List (JSValue × JSValue)) :
    ∃ l, ((SRTSocketAsync.mk s socket false).mapFlags waiter pairs).1.asyncSrt.posted =
      s.posted ++ l ∧ l.length ≤ pairs.length := by
  induction pairs generalizing s with
  | nil => exact ⟨[], by simp [SRTSocketAsync.mapFlags], le_rfl⟩
  | cons x rest ih =>
    rcases call_cases s (flagCall socket x) with h | h | h | h
    · rcases mapFlags_of_refused waiter hs h rest with ⟨e, he⟩ | ⟨_, _, he⟩
      · exact ⟨[], by rw [he, List.append_nil], Nat.zero_le _⟩
      · obtain ⟨l, hl, hlen⟩ := ih s
        exact ⟨l, by rw [he, hl], Nat.le_succ_of_le hlen⟩
    · rw [mapFlags_of_return hs (apiCall_of_posted h)]
      obtain ⟨l, hl, hlen⟩ := ih (s.accept (flagCall socket x) false waiter)
      refine ⟨_ :: l, hl.trans (List.append_assoc _ _ _), ?_⟩
      simpa using hlen
    · rw [mapFlags_of_return hs (apiCall_of_thrown h)]
      obtain ⟨l, hl, hlen⟩ := ih
        ((s.prepare (flagCall socket x) false waiter).settle s.nextCall (.rejected .dataClone))
      exact ⟨l, hl, Nat.le_succ_of_le hlen⟩
    · rw [mapFlags_of_return hs (apiCall_of_lost h)]
      obtain ⟨l, hl, hlen⟩ := ih (s.lose (flagCall socket x))
      exact ⟨l, hl, Nat.le_succ_of_le hlen⟩

theorem postsNothing_of_refused (h : ¬ ReachesPost s (flagCall socket x))
    (rest : List (JSValue × JSValue)) : PostsNothing s socket (x :: rest) := by
  intro y hy
  simp [h] at hy

theorem postsNothing_cons (h : ReachesPost s (flagCall socket x))
    (rest : List (JSValue × JSValue)) :
    PostsNothing s socket (x :: rest) ↔
      ¬ Sendable s.detached (flagCall socket x).post.args ∧ PostsNothing s socket rest := by
  simp [PostsNothing, h]

/-- Nothing has been posted if and only if no pair up to the first refused one can be. -/
theorem posted_unchanged_iff (waiter : κ) (hs : socket ≠ .null) (s : AsyncSRT κ)
    (pairs : List (JSValue × JSValue)) :
    ((SRTSocketAsync.mk s socket false).mapFlags waiter pairs).1.asyncSrt.posted = s.posted ↔
      PostsNothing s socket pairs := by
  induction pairs generalizing s with
  | nil => exact iff_of_true rfl fun y hy => by simp at hy
  | cons x rest ih =>
    rcases call_cases s (flagCall socket x) with h | h | h | h
    · refine iff_of_true ?_ (postsNothing_of_refused h rest)
      rcases mapFlags_of_refused waiter hs h rest with ⟨e, he⟩ | ⟨hgone, _, he⟩
      · rw [he]
      · rw [he]
        refine (ih s).mpr fun y hy => ?_
        -- an instance that is gone or going lets no pair pass
        have hy := List.mem_takeWhile_imp hy
        obtain ⟨_, hw, hd, _⟩ := of_decide_eq_true hy
        rcases hgone with hgone | hgone
        · simp [hw] at hgone
        · simp [hd] at hgone
    · refine iff_of_false (fun he => ?_) fun hn => ((postsNothing_cons h.1 rest).mp hn).1 h.2
      rw [mapFlags_of_return hs (apiCall_of_posted h)] at he
      obtain ⟨l, hl, _⟩ := posted_mapFlags waiter hs
        (s.accept (flagCall socket x) false waiter) rest
      have hlen := congrArg List.length (hl.symm.trans he)
      simp only [AsyncSRT.accept, List.length_append, List.length_singleton] at hlen
      omega
    · rw [mapFlags_of_return hs (apiCall_of_thrown h), postsNothing_cons h.1 rest,
        and_iff_right fun hs => h.2.2 hs.2]
      exact ih _
    · rw [mapFlags_of_return hs (apiCall_of_lost h), postsNothing_cons h.1 rest,
        and_iff_right fun hs => absurd hs.1 (by simp [h.2])]
      exact ih _

/-- The map does not settle a promise twice. -/
theorem rejected_mapFlags (waiter : κ) (hs : socket ≠ .null) (s : AsyncSRT κ)
    (pairs : List (JSValue × JSValue)) {k : ℕ} {e : AsyncError}
    (h : s.promise k = .rejected e) :
    ((SRTSocketAsync.mk s socket false).mapFlags waiter pairs).1.asyncSrt.promise k =
      .rejected e := by
  induction pairs generalizing s with
  | nil => exact h
  | cons x rest ih =>
    rcases call_cases s (flagCall socket x) with hc | hc | hc | hc
    · rcases mapFlags_of_refused waiter hs hc rest with ⟨e', he⟩ | ⟨_, _, he⟩
      · rw [he]
        exact h
      · rw [he]
        exact ih s h
    · rw [mapFlags_of_return hs (apiCall_of_posted hc)]
      exact ih _ h
    · rw [mapFlags_of_return hs (apiCall_of_thrown hc)]
      refine ih _ ?_
      have hsettled : s.promise k ≠ .pending := by simp [h]
      by_cases hk : k = s.nextCall
      · subst hk
        simpa [AsyncSRT.settle, AsyncSRT.prepare, settled, hsettled] using h
      · exact (settled_of_ne hk _).trans h
    · rw [mapFlags_of_return hs (apiCall_of_lost hc)]
      exact ih _ h

theorem sendable_append {detached : Finset ArrayBuffer} {a b : List JSValue} :
    Sendable detached (a ++ b) ↔ Sendable detached a ∧
      Sendable (detached ∪ (movedBuffers a).toFinset) b := by
  have hlist : extractTransferListFromParams (a ++ b) =
      extractTransferListFromParams a ++ extractTransferListFromParams b :=
    List.filterMap_append
  have hmoved : movedBuffers (a ++ b) = movedBuffers a ++ movedBuffers b := by
    rw [movedBuffers, hlist, List.filter_append, movedBuffers, movedBuffers]
  -- a listed buffer that the first list moves is one that the second list moves too
  have hmove : ∀ v ∈ extractTransferListFromParams b, v ∈ movedBuffers a → v ∈ movedBuffers b :=
    fun v hv hva => List.mem_filter.mpr ⟨hv, (List.mem_filter.mp hva).2⟩
  simp only [Sendable, Postable, hlist, hmoved, List.all_append, Bool.and_eq_true, List.mem_append,
    List.nodup_append', Finset.mem_union, List.mem_toFinset, not_or, List.disjoint_right]
  constructor
  · rintro ⟨⟨hta, htb⟩, hc, hd, ha, hb, hab⟩
    exact ⟨⟨hta, fun v hv => hc v (Or.inl hv), fun v hv => hd v (Or.inl hv), ha⟩, htb,
      fun v hv => hc v (Or.inr hv), fun v hv => ⟨(hd v (Or.inr hv)).1, (hd v (Or.inr hv)).2,
        fun hva => hab (hmove v hv hva) hva⟩, hb⟩
  · rintro ⟨⟨hta, hca, hda, ha⟩, htb, hcb, hdb, hb⟩
    exact ⟨⟨hta, htb⟩, fun v hv => hv.elim (hca v) (hcb v),
      fun v hv => hv.elim (hda v) fun hv => ⟨(hdb v hv).1, (hdb v hv).2.1⟩, ha, hb,
      fun v hv => (hdb v (List.mem_of_mem_filter hv)).2.2⟩

theorem sendable_nil (detached : Finset ArrayBuffer) : Sendable detached [] := by
  simp [Sendable, Postable, movedBuffers, extractTransferListFromParams]

theorem flagArgs_cons (x : JSValue × JSValue) (rest : List (JSValue × JSValue)) :
    flagArgs socket (x :: rest) = (flagCall socket x).post.args ++ flagArgs socket rest := rfl

/-- As many messages as pairs: every one of them was posted. -/
theorem sendable_of_length (hs : socket ≠ .null) (s : AsyncSRT κ)
    (pairs : List (JSValue × JSValue))
    (h : ((SRTSocketAsync.mk s socket false).mapFlags waiter pairs).1.asyncSrt.posted.length =
      s.posted.length + pairs.length) :
    (∀ x ∈ pairs, ReachesPost s (flagCall socket x)) ∧
      Sendable s.detached (flagArgs socket pairs) := by
  induction pairs generalizing s with
  | nil => exact ⟨by simp, sendable_nil _⟩
  | cons x rest ih =>
    rcases call_cases s (flagCall socket x) with hc | hc | hc | hc
    · have hnone := (posted_unchanged_iff waiter hs s (x :: rest)).mpr
        (postsNothing_of_refused hc rest)
      rw [hnone, List.length_cons] at h
      omega
    · rw [mapFlags_of_return hs (apiCall_of_posted hc)] at h
      obtain ⟨hall, hpost⟩ := ih (s.accept (flagCall socket x) false waiter) (by
        rw [h]
        simp only [AsyncSRT.accept, List.length_append, List.length_cons, List.length_nil]
        omega)
      refine ⟨?_, ?_⟩
      · intro y hy
        rcases List.mem_cons.mp hy with rfl | hy
        · exact hc.1
        · exact hall y hy
      · rw [flagArgs_cons, sendable_append]
        exact ⟨hc.2, hpost⟩
    · rw [mapFlags_of_return hs (apiCall_of_thrown hc)] at h
      obtain ⟨l, hl, hlen⟩ := posted_mapFlags waiter hs
        ((s.prepare (flagCall socket x) false waiter).settle s.nextCall (.rejected .dataClone)) rest
      rw [hl] at h
      simp only [AsyncSRT.settle, AsyncSRT.prepare, List.length_append, List.length_cons] at h
      omega
    · rw [mapFlags_of_return hs (apiCall_of_lost hc)] at h
      obtain ⟨l, hl, hlen⟩ := posted_mapFlags waiter hs (s.lose (flagCall socket x)) rest
      rw [hl] at h
      simp only [AsyncSRT.lose, List.length_append, List.length_cons] at h
      omega

/-! ## When all pairs are posted -/

/-- The callbacks and messages of the pairs, numbered from `k`. -/
def flagPosts (socket : Slot) (waiter : κ) (k : ℕ) :
    List (JSValue × JSValue) → List (OnResult κ × AsyncSRTWorkerPost)
  | [] => []
  | x :: rest =>
    (⟨k, waiter, false, false⟩, (flagCall socket x).post) :: flagPosts socket waiter (k + 1) rest

theorem flagPosts_snd (k : ℕ) :
    (flagPosts socket waiter k pairs).map Prod.snd =
      pairs.map fun x => (flagCall socket x).post := by
  induction pairs generalizing k with
  | nil => rfl
  | cons x rest ih => simp [flagPosts, ih]

theorem flagPosts_getElem? {k i : ℕ} {p : OnResult κ × AsyncSRTWorkerPost}
    (h : (flagPosts socket waiter k pairs)[i]? = some p) :
    p.1.call = k + i ∧ p.1.useTimeout = false := by
  induction pairs generalizing k i with
  | nil => simp [flagPosts] at h
  | cons x rest ih =>
    cases i with
    | zero =>
      have hp : p = (⟨k, waiter, false, false⟩, (flagCall socket x).post) := by
        simpa [flagPosts] using h.symm
      simp [hp]
    | succ i =>
      obtain ⟨hcall, hu⟩ := ih (k := k + 1) (i := i) (by simpa [flagPosts] using h)
      exact ⟨by omega, hu⟩

def acceptFlags (s : AsyncSRT κ) (socket : Slot) (waiter : κ) :
    List (JSValue × JSValue) → AsyncSRT κ
  | [] => s
  | x :: rest => acceptFlags (s.accept (flagCall socket x) false waiter) socket waiter rest

theorem acceptFlags_fields (s : AsyncSRT κ) (socket : Slot) (waiter : κ)
    (pairs : List (JSValue × JSValue)) :
    ((acceptFlags s socket waiter pairs).posted,
      (acceptFlags s socket waiter pairs).workCbQueue,
      (acceptFlags s socket waiter pairs).toWorker) =
      (s.posted ++ flagPosts socket waiter s.nextCall pairs,
        s.workCbQueue ++ (flagPosts socket waiter s.nextCall pairs).map Prod.fst,
        s.toWorker ++ (flagPosts socket waiter s.nextCall pairs).map Prod.snd) ∧
    ((acceptFlags s socket waiter pairs).worker, (acceptFlags s socket waiter pairs).answered,
      (acceptFlags s socket waiter pairs).promise, (acceptFlags s socket waiter pairs).toMain) =
      (s.worker, s.answered, s.promise, s.toMain) := by
  induction pairs generalizing s with
  | nil => simp [acceptFlags, flagPosts]
  | cons x rest ih =>
    obtain ⟨h₁, h₂⟩ := ih (s.accept (flagCall socket x) false waiter)
    refine ⟨?_, h₂⟩
    rw [acceptFlags, h₁]
    simp [flagPosts, AsyncSRT.accept, AsyncSRT.prepare, flagCall, ApiCall.useTimeout]

theorem sendable_rest (waiter : κ) {rest : List (JSValue × JSValue)}
    (hr : ∀ y ∈ x :: rest, ReachesPost s (flagCall socket y))
    (hp : Sendable s.detached (flagArgs socket (x :: rest))) :
    Accepts s (flagCall socket x) ∧
      (∀ y ∈ rest, ReachesPost (s.accept (flagCall socket x) false waiter) (flagCall socket y)) ∧
      Sendable (s.accept (flagCall socket x) false waiter).detached (flagArgs socket rest) := by
  rw [flagArgs_cons, sendable_append] at hp
  exact ⟨⟨hr x List.mem_cons_self, hp.1⟩, fun y hy => hr y (List.mem_cons_of_mem _ hy), hp.2⟩

theorem mapFlags_of_sendable (hs : socket ≠ .null) (s : AsyncSRT κ)
    (pairs : List (JSValue × JSValue)) (hr : ∀ y ∈ pairs, ReachesPost s (flagCall socket y))
    (hp : Sendable s.detached (flagArgs socket pairs)) :
    (SRTSocketAsync.mk s socket false).mapFlags waiter pairs =
      (⟨acceptFlags s socket waiter pairs, socket, false⟩,
        .ok ((flagPosts socket waiter s.nextCall pairs).map fun p => .promise p.1.call)) := by
  induction pairs generalizing s with
  | nil => rfl
  | cons x rest ih =>
    obtain ⟨ha, hr', hp'⟩ := sendable_rest waiter hr hp
    rw [mapFlags_of_return hs (apiCall_of_posted ha), ih _ hr' hp']
    rfl

theorem execution_acceptFlags (waiter : κ) (s : AsyncSRT κ) (pairs : List (JSValue × JSValue))
    (hr : ∀ y ∈ pairs, ReachesPost s (flagCall socket y))
    (hp : Sendable s.detached (flagArgs socket pairs)) :
    (postingMachine κ).Execution s (acceptFlags s socket waiter pairs) := by
  induction pairs generalizing s with
  | nil => exact .refl s
  | cons x rest ih =>
    obtain ⟨ha, hr', hp'⟩ := sendable_rest waiter hr hp
    have he : (postingMachine κ).Enabled s (.call (flagCall socket x) false waiter) :=
      ⟨trivial, ha.not_throws⟩
    have hnext : (postingMachine κ).next s (.call (flagCall socket x) false waiter) =
        s.accept (flagCall socket x) false waiter := by
      show (s.apiCall (flagCall socket x) false waiter).1 = _
      rw [apiCall_of_posted ha]
    exact .trans (.step he) (hnext ▸ ih _ hr' hp')

end Pairs

section Results

variable {s u : AsyncSRT κ} {socket : Slot} {waiter : κ} {pairs : List (JSValue × JSValue)}

theorem exists_executed {β : Type*} {f : OnResult κ × AsyncSRTWorkerPost → β} {g : Outcome → β}
    (posts : List (OnResult κ × AsyncSRTWorkerPost))
    (executed : List (AsyncSRTWorkerPost × Outcome))
    (h : ∀ (i : ℕ) (p : OnResult κ × AsyncSRTWorkerPost), posts[i]? = some p →
      ∃ o, executed[i]? = some (p.2, o) ∧ f p = g o) :
    ∃ xs, xs.map Prod.fst = posts.map Prod.snd ∧ xs <+: executed ∧
      posts.map f = xs.map fun x => g x.2 := by
  induction posts generalizing executed with
  | nil => exact ⟨[], rfl, List.nil_prefix, rfl⟩
  | cons p posts ih =>
    obtain ⟨o, hx, hf⟩ := h 0 p rfl
    cases executed with
    | nil => simp at hx
    | cons x executed =>
      have hx : x = (p.2, o) := by simpa using hx
      obtain ⟨xs, hfst, hpre, hmap⟩ := ih executed fun i q hq => by
        simpa using h (i + 1) q (by simpa using hq)
      exact ⟨x :: xs, by simp [hx, hfst], List.cons_prefix_cons.mpr ⟨rfl, hpre⟩,
        by simp [hx, hf, hmap]⟩

theorem isTruthy_promises (posts : List (OnResult κ × AsyncSRTWorkerPost)) :
    (posts.map fun p => CallReturn.promise p.1.call).filter isTruthy =
      posts.map fun p => CallReturn.promise p.1.call := by
  rw [List.filter_eq_self]
  intro r hr
  obtain ⟨p, _, rfl⟩ := List.mem_map.mp hr
  rfl

theorem acceptFlags_posted (hinv : Invariant s) {i : ℕ} {p : OnResult κ × AsyncSRTWorkerPost}
    (hi : (flagPosts socket waiter s.posted.length pairs)[i]? = some p) :
    (acceptFlags s socket waiter pairs).posted[s.posted.length + i]? = some p ∧
      p.1.call = s.posted.length + i := by
  obtain ⟨hfields, _⟩ := acceptFlags_fields s socket waiter pairs
  simp only [Prod.mk.injEq] at hfields
  rw [hfields.1, ← hinv.correlated.posted_length,
    List.getElem?_append_right (Nat.le_add_right _ _), Nat.add_sub_cancel_left]
  exact ⟨hi, (flagPosts_getElem? hi).1⟩

theorem serving_acceptFlags (hinv : Invariant s) (hqueue : Queued s) (hw : s.worker = true)
    (hr : ∀ y ∈ pairs, ReachesPost s (flagCall socket y))
    (hp : Sendable s.detached (flagArgs socket pairs))
    (h : (machine κ).Execution (acceptFlags s socket waiter pairs) u) :
    Serving (acceptFlags s socket waiter pairs).posted s.posted.length u ∧ Ported u := by
  obtain ⟨hfields, hsame⟩ := acceptFlags_fields s socket waiter pairs
  simp only [Prod.mk.injEq] at hfields hsame
  have hcalls := execution_acceptFlags waiter s pairs hr hp
  have hqueue' : Queued (acceptFlags s socket waiter pairs) :=
    hcalls.of_restrict.invariant hqueue fun _ _ hu he => hu.step he
  have hinv' := execution_invariant hcalls hinv
  have hans : (acceptFlags s socket waiter pairs).answered ≤ s.posted.length := by
    have ht := hinv.correlated.transit
    have hle := ht.received_le.trans ht.served_le
    rw [List.length_map] at hle
    rwa [hsame.2.1]
  have hport : Ported u := h.invariant hinv'.correlated.ported fun _ e hu _ => hu.step e
  refine ⟨execution_serving h hqueue' hinv'.correlated.ported
    (serving_of_invariant hinv' (hsame.1.trans hw) hans fun k p hk hpk => ?_), hport⟩
  rw [hfields.1, List.getElem?_append_right hk] at hpk
  exact (flagPosts_getElem? hpk).2

/-- The calls of an instance that has never failed to post get their results, whatever
happens later. -/
theorem fulfils_of_invariant (hinv : Invariant s) (hqueue : Queued s) (hw : s.worker = true)
    (hr : ∀ y ∈ pairs, ReachesPost s (flagCall socket y))
    (hp : Sendable s.detached (flagArgs socket pairs))
    (h : (machine κ).Execution (acceptFlags s socket waiter pairs) u) :
    Fulfils s.posted.length (acceptFlags s socket waiter pairs).posted.length
      (pairs.map fun x => (flagCall socket x).post)
      (.all ((flagPosts socket waiter s.nextCall pairs).map fun p => .promise p.1.call)) u := by
  obtain ⟨hserving, hport⟩ := serving_acceptFlags hinv hqueue hw hr hp h
  rw [← hinv.correlated.posted_length]
  refine ⟨?_, fun k hk hlt hle => hserving.held (by omega) (by omega), fun hall => ?_⟩
  · rintro ⟨r, hmem, e, he⟩
    obtain ⟨p, hp, rfl⟩ := List.mem_map.mp hmem
    obtain ⟨i, hi⟩ := List.mem_iff_getElem?.mp hp
    obtain ⟨hget, hcall⟩ := acceptFlags_posted hinv hi
    have hlt := (List.getElem?_eq_some_iff.mp hget).1
    rw [settlement, hcall] at he
    by_cases hans : u.answered ≤ s.posted.length + i
    · rw [hserving.pending _ (by omega) hlt hans] at he
      cases he
    · obtain ⟨_, _, hful⟩ := hserving.fulfilled _ (by omega) hlt (by omega)
      rw [hful] at he
      cases he
  · obtain ⟨xs, hfst, hpre, hmap⟩ := exists_executed (f := fun p => u.promise p.1.call)
      (g := fun o => .fulfilled (resultOf o)) (flagPosts socket waiter s.posted.length pairs)
      (u.executed.drop s.posted.length) fun i p hi => by
        obtain ⟨hget, hcall⟩ := acceptFlags_posted hinv hi
        have hlt := (List.getElem?_eq_some_iff.mp hget).1
        have hans := hall _ (Nat.le_add_right _ i) hlt
        have hrep : s.posted.length + i < u.replies.length :=
          hans.trans_le hport.transit.received_le
        have hlater := getElem?_of_prefix hserving.posted hget
        obtain ⟨o, hx, _⟩ := hport.executed_at hlater (List.getElem?_eq_getElem hrep)
        obtain ⟨x, hx', hful⟩ := hserving.fulfilled _ (Nat.le_add_right _ i) hlt hans
        have he : x = (p.2, o) := Option.some.inj (hx'.symm.trans hx)
        exact ⟨o, by rw [List.getElem?_drop, hx], by rw [hcall, hful, he]⟩
    refine ⟨xs, by rw [hfst, flagPosts_snd], hpre, ?_⟩
    rw [FlagsReturn.FulfilledWith, List.map_map, List.map_map]
    exact hmap

theorem exists_mem_drop_append {α : Type*} {a l : List α} {j : ℕ} (h : j < (a ++ l).length)
    (hl : l ≠ []) : ∃ x ∈ l, x ∈ (a ++ l).drop j := by
  refine ⟨l.getLast hl, List.getLast_mem hl, List.mem_iff_getElem?.mpr
    ⟨(a ++ l).length - 1 - j, ?_⟩⟩
  rw [List.getElem?_drop, Nat.add_sub_cancel' (by omega), ← List.getLast?_eq_getElem?,
    List.getLast?_append_of_ne_nil _ hl, List.getLast?_eq_some_getLast hl]

/-- With a callback too many the last call does not get its reply. -/
theorem not_fulfils_of_orphaned (waiter : κ) (hqueue : Queued s) (hport : Ported s)
    (ho : Orphaned s) (hw : s.worker = true) (hne : pairs ≠ [])
    (hr : ∀ y ∈ pairs, ReachesPost s (flagCall socket y))
    (hp : Sendable s.detached (flagArgs socket pairs)) :
    ∃ u, (machine κ).Execution (acceptFlags s socket waiter pairs) u ∧
      ¬ Fulfils s.posted.length (acceptFlags s socket waiter pairs).posted.length
        (pairs.map fun x => (flagCall socket x).post)
        (.all ((flagPosts socket waiter s.nextCall pairs).map fun p => .promise p.1.call)) u := by
  have hcalls := (execution_acceptFlags waiter s pairs hr hp).of_restrict
  have hqueue' := hcalls.invariant hqueue fun _ _ hu he => hu.step he
  have hport' := hcalls.invariant hport fun _ e hu _ => hu.step e
  obtain ⟨hfields, hsame⟩ := acceptFlags_fields s socket waiter pairs
  simp only [Prod.mk.injEq] at hfields hsame
  obtain ⟨hposted, hqueued, htoWorker⟩ := hfields
  obtain ⟨hworker, _, hprom, hmain⟩ := hsame
  have hheld := hworker.trans hw
  have hmore : (acceptFlags s socket waiter pairs).unanswered <
      (acceptFlags s socket waiter pairs).workCbQueue.length := by
    rw [Orphaned, unanswered_of_worker hw] at ho
    rw [unanswered_of_worker hheld, hqueued, htoWorker, hmain]
    simp only [List.length_append, List.length_map]
    omega
  obtain ⟨u, hrun, _, hans, hleft, hsettled⟩ := exists_drained hqueue' hheld hmore.le
  refine ⟨u, hrun, fun hf => ?_⟩
  have hall : u.answered = (acceptFlags s socket waiter pairs).posted.length := by
    have ho := hport'.transit.outstanding
    have hle := hport'.transit.received_le.trans hport'.transit.served_le
    rw [List.length_map] at ho hle
    rw [hans, unanswered_of_worker hheld]
    omega
  obtain ⟨xs, _, _, hful⟩ := hf.results fun k _ hlt => hall ▸ hlt
  -- a callback of the pairs is left in the queue, so its promise is pending
  obtain ⟨cb, hcb, hdrop⟩ : ∃ cb ∈ (flagPosts socket waiter s.nextCall pairs).map Prod.fst,
      cb ∈ u.workCbQueue := by
    rw [hleft, hqueued]
    refine exists_mem_drop_append (by rwa [← hqueued]) ?_
    cases pairs with
    | nil => exact absurd rfl hne
    | cons x rest => simp [flagPosts]
  obtain ⟨p, hp', rfl⟩ := List.mem_map.mp hcb
  obtain ⟨i, hi⟩ := List.mem_iff_getElem?.mp hp'
  have hpend : u.promise p.1.call = .pending := by
    rw [hsettled _ hdrop, hprom, (flagPosts_getElem? hi).1]
    exact (hqueue.fresh _ (Nat.le_add_right _ _)).1
  have hmem : settlement u (.promise p.1.call) ∈ (xs.map fun x => resultOf x.2).map .fulfilled := by
    rw [← hful]
    exact List.mem_map_of_mem (List.mem_map_of_mem hp')
  obtain ⟨v, _, hv⟩ := List.mem_map.mp hmem
  rw [settlement, hpend] at hv
  cases hv

end Results

/-! ## All or nothing -/

section AllOrNothing

variable {s : AsyncSRT κ} {socket : Slot} {waiter : κ} {opts values : List JSValue}

theorem setSocketFlags_eq (hs : socket ≠ .null) (hlen : opts.length = values.length) :
    (SRTSocketAsync.mk s socket false).setSocketFlags waiter opts values =
      match ((SRTSocketAsync.mk s socket false).mapFlags waiter (opts.zip values)).2 with
      | .error e =>
        (((SRTSocketAsync.mk s socket false).mapFlags waiter (opts.zip values)).1,
          .rejected (.async e))
      | .ok promises =>
        (((SRTSocketAsync.mk s socket false).mapFlags waiter (opts.zip values)).1,
          .all (promises.filter isTruthy)) := by
  rw [SRTSocketAsync.setSocketFlags, if_neg hs, if_neg (not_not.mpr hlen), if_neg (by simp)]

theorem setSocketFlags_asyncSrt (hs : socket ≠ .null) (hlen : opts.length = values.length) :
    ((SRTSocketAsync.mk s socket false).setSocketFlags waiter opts values).1.asyncSrt =
      ((SRTSocketAsync.mk s socket false).mapFlags waiter (opts.zip values)).1.asyncSrt := by
  rw [setSocketFlags_eq hs hlen]
  split <;> rfl

theorem mapFlags_of_gone (waiter : κ) (hs : socket ≠ .null)
    (hg : s.worker = false ∨ s.startedToDispose = true) (pairs : List (JSValue × JSValue)) :
    ((∃ x ∈ pairs, (flagCall socket x).earlyError ≠ none) ∧
      ∃ t e, (SRTSocketAsync.mk s socket false).mapFlags waiter pairs = (t, .error e)) ∨
    ((∀ x ∈ pairs, (flagCall socket x).earlyError = none) ∧
      (SRTSocketAsync.mk s socket false).mapFlags waiter pairs =
        (⟨s, socket, false⟩, .ok (pairs.map fun _ =>
          if s.worker = false then .rejectedPromise .disposedOnCall else .undefined))) := by
  induction pairs with
  | nil => exact Or.inr ⟨by simp, rfl⟩
  | cons x rest ih =>
    have hno : ¬ ReachesPost s (flagCall socket x) := by
      rintro ⟨_, hw, hd, _⟩
      rcases hg with hg | hg
      · simp [hw] at hg
      · simp [hd] at hg
    cases he : (flagCall socket x).earlyError with
    | some e =>
      left
      refine ⟨⟨x, List.mem_cons_self, by simp [he]⟩, ⟨s, socket, false⟩, e, ?_⟩
      rw [mapFlags_cons hs, apiCall_of_refused hno]
      simp [AsyncSRT.earlyReturn, he]
    | none =>
      have hcons : (SRTSocketAsync.mk s socket false).mapFlags waiter (x :: rest) =
          (((SRTSocketAsync.mk s socket false).mapFlags waiter rest).1,
            ((SRTSocketAsync.mk s socket false).mapFlags waiter rest).2.map
              ((if s.worker = false then .rejectedPromise .disposedOnCall
                else .undefined) :: ·)) := by
        rw [mapFlags_cons hs, apiCall_of_refused hno]
        by_cases hw : s.worker = false
        · simp [AsyncSRT.earlyReturn, he, hw]
        · simp [AsyncSRT.earlyReturn, he, hw, hg.resolve_left hw]
      rcases ih with ⟨⟨y, hy, hye⟩, t, e, ih⟩ | ⟨hall, ih⟩
      · exact Or.inl ⟨⟨y, List.mem_cons_of_mem _ hy, hye⟩, t, e, by rw [hcons, ih]; rfl⟩
      · refine Or.inr ⟨fun y hy => ?_, by rw [hcons, ih]; rfl⟩
        rcases List.mem_cons.mp hy with rfl | hy
        · exact he
        · exact hall y hy

theorem rejects_of_postsNothing (hs : socket ≠ .null) (hqueue : Queued s)
    (hlen : opts.length = values.length) (hne : opts.zip values ≠ [])
    (hn : PostsNothing s socket (opts.zip values)) :
    ((SRTSocketAsync.mk s socket false).setSocketFlags waiter opts values).2.Rejects
      ((SRTSocketAsync.mk s socket false).setSocketFlags waiter opts values).1.asyncSrt ↔
    ¬ Ignored s socket (opts.zip values) := by
  rw [setSocketFlags_eq hs hlen]
  by_cases hg : s.worker = false ∨ s.startedToDispose = true
  · rcases mapFlags_of_gone waiter hs hg (opts.zip values) with
      ⟨⟨x, hx, he⟩, t, e, h⟩ | ⟨hall, h⟩
    · rw [h]
      exact iff_of_true trivial fun hi => he (hi.2.2.2 x hx)
    · rw [h]
      by_cases hw : s.worker = false
      · refine iff_of_true ?_ fun hi => ?_
        · obtain ⟨x, hx⟩ := List.exists_mem_of_ne_nil _ hne
          refine ⟨.rejectedPromise .disposedOnCall, List.mem_filter.mpr ⟨?_, rfl⟩,
            .disposedOnCall, rfl⟩
          exact List.mem_map.mpr ⟨x, hx, if_pos hw⟩
        · have := hi.2.1
          simp [hw] at this
      · refine iff_of_false ?_ fun hi => hi ⟨hne, by simpa using hw, hg.resolve_left hw, hall⟩
        rintro ⟨r, hr, -⟩
        simp only [if_neg hw, List.mem_filter, List.mem_map] at hr
        obtain ⟨⟨_, _, rfl⟩, htruthy⟩ := hr
        cases htruthy
  · refine iff_of_true ?_ fun hi => hg (Or.inr hi.2.2.1)
    obtain ⟨x, rest, hx⟩ := List.exists_cons_of_ne_nil hne
    rw [hx] at hn ⊢
    rcases call_cases s (flagCall socket x) with hc | hc | hc | hc
    · rcases mapFlags_of_refused waiter hs hc rest with ⟨e, he⟩ | ⟨hgone, _⟩
      · rw [he]
        trivial
      · exact absurd hgone hg
    · exact absurd hc.2 ((postsNothing_cons hc.1 rest).mp hn).1
    · rw [mapFlags_of_return hs (apiCall_of_thrown hc)]
      have hpend := (hqueue.fresh s.nextCall le_rfl).1
      have hrej := rejected_mapFlags waiter hs
        ((s.prepare (flagCall socket x) false waiter).settle s.nextCall (.rejected .dataClone)) rest
        (k := s.nextCall) (e := .dataClone)
        (by simp [AsyncSRT.settle, AsyncSRT.prepare, settled_of_pending hpend])
      cases hmap : ((SRTSocketAsync.mk ((s.prepare (flagCall socket x) false waiter).settle
          s.nextCall (.rejected .dataClone)) socket false).mapFlags waiter rest).2 with
      | error e => simp [Except.map, FlagsReturn.Rejects]
      | ok promises =>
        exact ⟨.promise s.nextCall, List.mem_filter.mpr ⟨List.mem_cons_self, rfl⟩, .dataClone, hrej⟩
    · rw [mapFlags_of_return hs (apiCall_of_lost hc)]
      cases hmap : ((SRTSocketAsync.mk (s.lose (flagCall socket x)) socket false).mapFlags waiter
          rest).2 with
      | error e => simp [Except.map, FlagsReturn.Rejects]
      | ok promises =>
        exact ⟨.rejectedPromise .typeError, List.mem_filter.mpr ⟨List.mem_cons_self, rfl⟩,
          .typeError, rfl⟩

theorem setSocketFlags_of_sendable (waiter : κ) (hs : socket ≠ .null)
    (hlen : opts.length = values.length)
    (hr : ∀ y ∈ opts.zip values, ReachesPost s (flagCall socket y))
    (hp : Sendable s.detached (flagArgs socket (opts.zip values))) :
    (SRTSocketAsync.mk s socket false).setSocketFlags waiter opts values =
      (⟨acceptFlags s socket waiter (opts.zip values), socket, false⟩,
        .all ((flagPosts socket waiter s.nextCall (opts.zip values)).map
          fun p => .promise p.1.call)) := by
  rw [setSocketFlags_eq hs hlen, mapFlags_of_sendable hs s _ hr hp]
  dsimp only
  rw [isTruthy_promises]

theorem allOrNothing_nil (hs : socket ≠ .null) (hlen : opts.length = values.length)
    (hnil : opts.zip values = []) : AllOrNothing ⟨s, socket, false⟩ waiter opts values := by
  have e := setSocketFlags_of_sendable (s := s) waiter hs hlen (by simp [hnil])
    (by rw [hnil]; exact sendable_nil _)
  right
  rw [e, hnil]
  refine ⟨by simp [acceptFlags], fun u _ => ⟨?_, ?_, fun _ => ⟨[], rfl, List.nil_prefix, rfl⟩⟩⟩
  · rintro ⟨r, hr, -⟩
    simp [flagPosts] at hr
  · intro k hk hlt
    exact absurd (hk.trans_lt hlt) (lt_irrefl _)

/-- All pairs are posted and their results come if and only if they all can be posted and
there is no callback too many. -/
theorem posts_all_iff (hs : socket ≠ .null) (hlen : opts.length = values.length)
    (hne : opts.zip values ≠ []) (h : Reachable s) :
    (((SRTSocketAsync.mk s socket false).setSocketFlags waiter opts values).1.asyncSrt.posted.map
        Prod.snd = s.posted.map Prod.snd ++
          (opts.zip values).map (fun x => (flagCall socket x).post) ∧
      ∀ u, (machine κ).Execution
          ((SRTSocketAsync.mk s socket false).setSocketFlags waiter opts values).1.asyncSrt u →
        Fulfils s.posted.length
          ((SRTSocketAsync.mk s socket false).setSocketFlags waiter opts
            values).1.asyncSrt.posted.length
          ((opts.zip values).map fun x => (flagCall socket x).post)
          ((SRTSocketAsync.mk s socket false).setSocketFlags waiter opts values).2 u) ↔
    PostsAll s socket (opts.zip values) := by
  obtain ⟨hqueue, hport, hcases⟩ := reachable_cases h
  obtain ⟨x, hx⟩ := List.exists_mem_of_ne_nil _ hne
  constructor
  · rintro ⟨hposted, hful⟩
    have hcount := congrArg List.length hposted
    rw [setSocketFlags_asyncSrt hs hlen] at hcount
    simp only [List.length_append, List.length_map] at hcount
    obtain ⟨hr, hp⟩ := sendable_of_length hs s _ hcount
    refine ⟨hr, hp, fun ho => ?_⟩
    obtain ⟨u, hrun, hnot⟩ := not_fulfils_of_orphaned waiter hqueue hport ho
      (hr x hx).2.1 hne hr hp
    rw [setSocketFlags_of_sendable waiter hs hlen hr hp] at hful
    exact hnot (hful u hrun)
  · rintro ⟨hr, hp, ho⟩
    have hw := (hr x hx).2.1
    have hinv := hcases.resolve_right fun horph => ho (horph hw)
    rw [setSocketFlags_of_sendable waiter hs hlen hr hp]
    refine ⟨?_, fun u hrun => fulfils_of_invariant hinv hqueue hw hr hp hrun⟩
    have hfields := (acceptFlags_fields s socket waiter (opts.zip values)).1
    simp only [Prod.mk.injEq] at hfields
    rw [hfields.1, List.map_append, flagPosts_snd]

/-- Whatever happened to the instance before, `setSocketFlags` of an object that is not
disposing is all or nothing exactly when it posts nothing or can post everything. -/
theorem all_or_nothing_iff {o : SRTSocketAsync κ} (h : Reachable o.asyncSrt)
    (hs : o.socket ≠ .null) (hd : o.startedToDispose = false) (waiter : κ)
    (opts values : List JSValue) :
    AllOrNothing o waiter opts values ↔ opts.length ≠ values.length ∨
      (PostsNothing o.asyncSrt o.socket (opts.zip values) ∧
        ¬ Ignored o.asyncSrt o.socket (opts.zip values)) ∨
      PostsAll o.asyncSrt o.socket (opts.zip values) := by
  obtain ⟨s, socket, started⟩ := o
  dsimp only at h hs hd ⊢
  subst hd
  have hqueue := (reachable_cases h).1
  by_cases hlen : opts.length = values.length
  · rw [or_iff_right (not_not.mpr hlen)]
    by_cases hne : opts.zip values = []
    · refine iff_of_true (allOrNothing_nil hs hlen hne) (Or.inl ⟨?_, fun hi => hi.1 hne⟩)
      simp [PostsNothing, hne]
    · have hposted : ((SRTSocketAsync.mk s socket false).setSocketFlags waiter opts
          values).1.asyncSrt.posted = s.posted ↔ PostsNothing s socket (opts.zip values) := by
        rw [setSocketFlags_asyncSrt hs hlen]
        exact posted_unchanged_iff waiter hs s _
      refine or_congr ⟨?_, ?_⟩ (posts_all_iff hs hlen hne h)
      · rintro ⟨hp, hrej⟩
        have hn := hposted.mp hp
        exact ⟨hn, (rejects_of_postsNothing hs hqueue hlen hne hn).mp hrej⟩
      · rintro ⟨hn, hi⟩
        exact ⟨hposted.mpr hn, (rejects_of_postsNothing hs hqueue hlen hne hn).mpr hi⟩
  · refine iff_of_true (Or.inl ?_) (Or.inl hlen)
    rw [SRTSocketAsync.setSocketFlags, if_neg hs, if_pos hlen]
    exact ⟨rfl, trivial⟩

def createdSocket : SRTSocketAsync Unit := ⟨AsyncApi.initial, .number 1, false⟩

theorem all_or_nothing_iff_two :
    AllOrNothing createdSocket () [.number 0, .number SRTO_PASSPHRASE]
      [.number 1500, .string (ascii "0123456789")] := by
  have hall : PostsAll createdSocket.asyncSrt createdSocket.socket
      (List.zip [.number 0, .number SRTO_PASSPHRASE]
        [.number 1500, .string (ascii "0123456789")]) := ⟨by decide, by decide, by decide⟩
  exact (all_or_nothing_iff (o := createdSocket) (.refl _) (by decide) rfl () _ _).mpr
    (Or.inr (Or.inr hall))

/-- The second passphrase is too short: the first option has been posted when the call
rejects. -/
theorem first_option_is_posted :
    ¬ ∀ (o : SRTSocketAsync Unit) (opts values : List JSValue), Reachable o.asyncSrt →
      o.socket ≠ .null → o.startedToDispose = false → AllOrNothing o () opts values := by
  intro h
  rcases h createdSocket [.number 0, .number SRTO_PASSPHRASE]
      [.number 1500, .string (ascii "short")] (.refl _) (by decide) rfl with
    ⟨hposted, -⟩ | ⟨hposted, -⟩
  · exact absurd (congrArg List.length hposted) (by decide)
  · exact absurd (congrArg List.length hposted) (by decide)

end AllOrNothing

end SocketFlags
