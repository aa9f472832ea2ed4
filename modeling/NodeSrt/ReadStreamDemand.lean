import NodeSrt.Progress
import NodeSrt.ReadStreamRelease

/-! # The reads of an SRTReadStream are answered

`Readable` asks for data once and then waits for a push. Until then its request is with the read
loop or with the read timer, and a stream that has a descriptor comes to an answer. -/
namespace ReadStream

open TransitionSystem
open NativeSrt

variable {s t : Stream} {n : ℕ} {e : StreamEvent}

/-- More messages than `n` have been pushed, or none will be any more. -/
def Answered (n : ℕ) (s : Stream) : Prop := n < s.pushed.length ∨ s.destroyed = true

instance (n : ℕ) (s : Stream) : Decidable (Answered n s) := inferInstanceAs (Decidable (_ ∨ _))

/-- The read loop is running, or the timer that starts it is armed. -/
def Asked (s : Stream) : Prop :=
  (∃ remainingBytes, s.turn = .reading remainingBytes) ∨ ∃ r ∈ s.timers, s.readTimer = some r.1

/-- A request made when `n` messages had been pushed has not been lost. -/
structure Requested (n : ℕ) (s : Stream) : Prop where
  pushed : n ≤ s.pushed.length
  asked : Answered n s ∨ Asked s

theorem asked_of_eq (h : Asked s) (ht : (t.timers, t.readTimer) = (s.timers, s.readTimer))
    (hturn : ∀ b, s.turn = .reading b → t.turn = .reading b) : Asked t := by
  obtain ⟨htimers, htimer⟩ := Prod.mk.inj ht
  rcases h with ⟨b, hb⟩ | ⟨r, hr, hr'⟩
  · exact Or.inl ⟨b, hturn b hb⟩
  · exact Or.inr ⟨r, htimers ▸ hr, htimer.trans hr'⟩

theorem readSocketAndPush_asked (s : Stream) (bytes : ℤ) :
    Asked (s.readSocketAndPush bytes) := by
  unfold Stream.readSocketAndPush
  cases s.fd with
  | none => exact Or.inr ⟨(s.handles, bytes), List.mem_append_right _ List.mem_cons_self, rfl⟩
  | some fd => exact Or.inl ⟨bytes, rfl⟩

theorem recvmsg_answers {r : Recvmsg} {more closed : Bool}
    (he : s.Enabled (.recvmsg r more closed)) (hn : n ≤ s.pushed.length) :
    Answered n (s.next (.recvmsg r more closed)) := by
  cases r with
  | error lasterror =>
    rw [next_error he]
    exact Or.inr (destroy_destroyed s closed)
  | message data =>
    cases hturn : s.turn with
    | reading b =>
      apply Or.inl
      simp only [Stream.next, hturn, Stream.onRead, Read, List.length_append]
      exact Nat.lt_succ_of_le hn
    | _ => simp [Stream.Enabled, hturn] at he

theorem pushed_le (he : s.Enabled e) : s.pushed.length ≤ (s.next e).pushed.length := by
  cases e with
  | recvmsg r more closed =>
    cases r with
    | error lasterror =>
      rw [next_error he]
      exact (congrArg List.length (destroy_pushed s closed)).ge
    | message data =>
      cases hturn : s.turn with
      | reading b =>
        simp only [Stream.next, hturn, Stream.onRead, Read, List.length_append]
        exact Nat.le_add_right _ _
      | _ => simp [Stream.Enabled, hturn] at he
  | destroy closed => exact (congrArg List.length (destroy_pushed s closed)).ge
  | _ => exact (congrArg List.length (next_frame rfl).1).ge

theorem Answered.next (h : Answered n s) (he : s.Enabled e) : Answered n (s.next e) :=
  h.imp (fun hn => hn.trans_le (pushed_le he)) fun hd => next_destroyed hd e

/-- A request stays with the stream until it is answered. -/
theorem Requested.next (h : Requested n s) (he : s.Enabled e) : Requested n (s.next e) := by
  refine ⟨h.pushed.trans (pushed_le he), ?_⟩
  rcases h.asked with ha | ha
  · exact Or.inl (ha.next he)
  have hidle : s.turn = .idle → ∀ b, s.turn = .reading b → (s.next e).turn = .reading b :=
    fun hi b hb => by simp [hi] at hb
  cases e with
  | read bytes => exact Or.inr (readSocketAndPush_asked s bytes)
  | timer handle bytes => exact Or.inr (readSocketAndPush_asked _ bytes)
  | recvmsg r more closed => exact Or.inl (recvmsg_answers he h.pushed)
  | destroy closed => exact Or.inl (Or.inr (destroy_destroyed s closed))
  | listen o =>
    refine Or.inr (asked_of_eq ha ?_ (hidle he))
    simp only [Stream.next, Stream.listen]
    split_ifs
    · rfl
    · cases o <;> rfl
  | connect connected =>
    refine Or.inr (asked_of_eq ha ?_ (hidle he))
    simp only [Stream.next, Stream.connect]
    split_ifs <;> rfl
  | poll interval events => exact Or.inr (asked_of_eq ha rfl (hidle he.1))
  | pollEvent a =>
    cases hturn : s.turn with
    | polling i events =>
      refine Or.inr (asked_of_eq ha ?_ fun b hb => by simp [hturn] at hb)
      cases events with
      | nil => simp [Stream.Enabled, hturn] at he
      | cons event rest =>
        simp only [Stream.next, hturn, Stream.onEvent]
        split_ifs
        · rfl
        · rfl
        · unfold Stream.accept
          cases a.accepted <;> rfl
        · rfl
    | _ => simp [Stream.Enabled, hturn] at he

/-! ## A stream with a descriptor -/

/-- A poll reports no socket to read from other than the one a stream reads from already. -/
theorem Live.reported (h : Live s) {v event : ℤ} (hfd : s.fd = some v) {i : ℕ} {rest : List ℤ}
    (hturn : s.turn = .polling i (event :: rest)) : event = s.socket := by
  obtain ⟨-, -, hadded, hother⟩ := h.armed.polling i _ hturn
  obtain ⟨hcreated, hvopen⟩ := h.holds.fd_open v hfd
  have hmem := h.holds.added event (hadded event List.mem_cons_self)
  have hne : event ≠ v := fun he => hother v hfd (he ▸ List.mem_cons_self)
  rcases h.holds.created with hc | ⟨hclosed, fhandle, -, hc⟩
  · simpa [hc] using hmem
  · have hv : v = fhandle := by
      rw [hc] at hcreated
      rcases List.mem_cons.mp hcreated with rfl | hv
      · exact absurd hclosed hvopen
      · exact List.mem_singleton.mp hv
    rw [hc] at hmem
    rcases List.mem_cons.mp hmem with he | he
    · exact he
    · exact absurd ((List.mem_singleton.mp he).trans hv.symm) hne

theorem fd_next (h : Live s) (he : onLibsrt.Enabled s e) {v : ℤ} (hfd : s.fd = some v)
    (hlive : (s.next e).destroyed = false) : (s.next e).fd = some v := by
  have hsome : s.fd ≠ none := by simp [hfd]
  cases e with
  | listen o => simp [Stream.next, Stream.listen, hfd]
  | connect connected => simp [Stream.next, Stream.connect, hfd]
  | read bytes | timer handle bytes =>
    simp [Stream.next, Stream.readSocketAndPush, Stream.clearScheduledRead, hfd]
  | recvmsg r more closed =>
    cases r with
    | error lasterror =>
      rw [next_error he.1] at hlive
      exact absurd ((destroy_destroyed s closed).symm.trans hlive) (by decide)
    | message data =>
      cases hturn : s.turn with
      | reading b => simpa [Stream.next, hturn, Stream.onRead, Read] using hfd
      | _ => simp [onLibsrt, machine, Machine.restrict, Stream.Enabled, hturn] at he
  | poll interval events => exact hfd
  | destroy closed => exact absurd ((destroy_destroyed s closed).symm.trans hlive) (by decide)
  | pollEvent a =>
    cases hturn : s.turn with
    | polling i events =>
      cases events with
      | nil => simp [onLibsrt, machine, Machine.restrict, Stream.Enabled, hturn] at he
      | cons event rest =>
        simp only [Stream.next, hturn, Stream.onEvent]
        split_ifs with hgone hclosed hown
        · exact hfd
        · exact hfd
        · unfold Stream.accept
          cases a.accepted <;> exact hfd
        · exact absurd (h.reported hfd hturn) hown
    | _ => simp [onLibsrt, machine, Machine.restrict, Stream.Enabled, hturn] at he

theorem forEach_ne (i j : ℕ) (events : List ℤ) : forEach i events ≠ .polling j [] := by
  cases events <;> simp [forEach]

theorem polling_next (h : ∀ i, s.turn ≠ .polling i []) (he : s.Enabled e) (i : ℕ) :
    (s.next e).turn ≠ .polling i [] := by
  cases e with
  | listen o =>
    have hturn : (s.next (.listen o)).turn = s.turn := by
      simp only [Stream.next, Stream.listen]
      split_ifs
      · rfl
      · cases o <;> rfl
    exact hturn ▸ h i
  | connect connected =>
    have hturn : (s.next (.connect connected)).turn = s.turn := by
      simp only [Stream.next, Stream.connect]
      split_ifs <;> rfl
    exact hturn ▸ h i
  | read bytes | timer handle bytes =>
    simp only [Stream.next, Stream.readSocketAndPush]
    cases s.fd with
    | none => exact h i
    | some v => simp
  | recvmsg r more closed =>
    cases hturn : s.turn with
    | reading b =>
      cases r with
      | error lasterror => simp [next_error he]
      | message data =>
        simp only [Stream.next, hturn, Stream.onRead, Read]
        split_ifs <;> simp
    | _ => simp [Stream.Enabled, hturn] at he
  | poll interval events => exact forEach_ne interval i events
  | destroy closed => exact (destroy_turn s closed) ▸ h i
  | pollEvent a =>
    simp only [Stream.next]
    split
    · unfold Stream.onEvent
      split_ifs
      · exact forEach_ne _ _ _
      · simp
      · unfold Stream.accept
        cases a.accepted with
        | none => simp
        | some fhandle =>
          dsimp only
          split_ifs
          · exact forEach_ne _ _ _
          · simp
      · exact forEach_ne _ _ _
    · exact h i

structure Serving (s : Stream) : Prop where
  live : Live s
  undestroyed : s.destroyed = false
  fd : s.fd ≠ none
  polling : ∀ i, s.turn ≠ .polling i []

theorem Serving.next (h : Serving s) (he : onLibsrt.Enabled s e)
    (hlive : (s.next e).destroyed = false) : Serving (s.next e) := by
  obtain ⟨v, hv⟩ := Option.ne_none_iff_exists'.mp h.fd
  have hfd : (s.next e).fd = some v := fd_next h.live he hv hlive
  exact ⟨h.live.next he hlive, hlive, by simp [hfd], polling_next h.polling he.1⟩

/-! ## What is left to do -/

/-- The steps that a stream makes on its way to an answer. -/
def Serves (n : ℕ) (s : Stream) : StreamEvent → Prop
  | .timer _ _ | .recvmsg _ _ _ | .pollEvent _ => ¬ Answered n s
  | _ => False

instance (n : ℕ) (s : Stream) : (e : StreamEvent) → Decidable (Serves n s e)
  | .timer _ _ | .recvmsg _ _ _ | .pollEvent _ => inferInstanceAs (Decidable (¬ _))
  | .listen _ | .connect _ | .read _ | .poll _ _ | .destroy _ => isFalse id

def Turn.left : Turn → ℕ
  | .reading _ => 1
  | .idle => 2
  | .polling _ events => events.length + 2

def Stream.left (n : ℕ) (s : Stream) : ℕ := if Answered n s then 0 else s.turn.left

theorem left_of_answered (h : Answered n s) : s.left n = 0 := if_pos h

theorem left_le (n : ℕ) (s : Stream) : s.left n ≤ s.turn.left := by
  unfold Stream.left
  split_ifs
  · exact Nat.zero_le _
  · exact le_rfl

theorem turn_left_pos (u : Turn) : 0 < u.left := by
  cases u <;> simp [Turn.left]

theorem left_forEach (i : ℕ) (events : List ℤ) : (forEach i events).left = events.length + 2 := by
  cases events <;> rfl

/-- A round of `events.forEach` leaves one event less, or none. -/
theorem left_onEvent (s : Stream) (i : ℕ) (event : ℤ) (rest : List ℤ) (a : Answers) :
    (s.onEvent i event rest a).turn.left ≤ rest.length + 2 := by
  have hidle : Turn.idle.left ≤ rest.length + 2 := Nat.le_add_left 2 _
  unfold Stream.onEvent
  split_ifs
  · exact (left_forEach i rest).le
  · exact hidle
  · unfold Stream.accept
    cases a.accepted with
    | none => exact hidle
    | some fhandle =>
      dsimp only
      split_ifs
      · exact (left_forEach i rest).le
      · exact hidle
  · exact (left_forEach i rest).le

theorem left_readSocketAndPush (hfd : s.fd ≠ none) (bytes : ℤ) :
    (s.readSocketAndPush bytes).turn.left = 1 := by
  obtain ⟨v, hv⟩ := Option.ne_none_iff_exists'.mp hfd
  simp only [Stream.readSocketAndPush, hv]
  rfl

theorem left_next (hr : Requested n s) (hs : Serving s) (he : onLibsrt.Enabled s e) :
    (s.next e).left n ≤ s.left n ∧ (Serves n s e → (s.next e).left n < s.left n) := by
  by_cases hn : Answered n s
  · refine ⟨by rw [left_of_answered (hn.next he.1), left_of_answered hn], fun hserves => ?_⟩
    cases e <;> first | exact absurd hn hserves | exact hserves.elim
  have hleft : s.left n = s.turn.left := if_neg hn
  have hanswer : Answered n (s.next e) → (s.next e).left n < s.left n := fun ha => by
    rw [left_of_answered ha, hleft]
    exact turn_left_pos _
  have hunchanged : s.next e = s → ¬ Serves n s e →
      (s.next e).left n ≤ s.left n ∧ (Serves n s e → (s.next e).left n < s.left n) :=
    fun heq hno => ⟨by rw [heq], fun hserves => absurd hserves hno⟩
  cases e with
  | listen o => exact hunchanged (by simp [Stream.next, Stream.listen, hs.fd]) id
  | connect connected => exact hunchanged (by simp [Stream.next, Stream.connect, hs.fd]) id
  | read bytes =>
    refine ⟨?_, False.elim⟩
    rw [hleft, he.1.1]
    exact (left_le n _).trans ((left_readSocketAndPush hs.fd bytes).trans_le (Nat.le_succ 1))
  | timer handle bytes =>
    have hlt : (s.next (.timer handle bytes)).left n < s.left n := by
      rw [hleft, he.1.1]
      have hfired : { s with timers := s.timers.filter fun t => t.1 ≠ handle }.fd ≠ none := hs.fd
      have hone : (s.next (.timer handle bytes)).turn.left = 1 :=
        left_readSocketAndPush hfired bytes
      exact Nat.lt_succ_of_le ((left_le n _).trans hone.le)
    exact ⟨hlt.le, fun _ => hlt⟩
  | recvmsg r more closed =>
    have hlt := hanswer (recvmsg_answers he.1 hr.pushed)
    exact ⟨hlt.le, fun _ => hlt⟩
  | destroy closed =>
    exact ⟨(hanswer (Or.inr (destroy_destroyed s closed))).le, False.elim⟩
  | poll interval events =>
    -- the interval has been cleared when the descriptor was set
    have hmem : interval ∈ s.intervals := he.1.2
    rw [hs.live.armed.receiving hs.fd] at hmem
    cases hmem
  | pollEvent a =>
    have hlt : (s.next (.pollEvent a)).left n < s.left n := by
      rw [hleft]
      cases hturn : s.turn with
      | polling i events =>
        cases events with
        | nil => exact absurd hturn (hs.polling i)
        | cons event rest =>
          have hround := left_onEvent s i event rest a
          have hnext : s.next (.pollEvent a) = s.onEvent i event rest a := by
            simp only [Stream.next, hturn]
          rw [hnext]
          exact (left_le n _).trans_lt (hround.trans_lt (Nat.lt_succ_self _))
      | _ => simp [onLibsrt, machine, Machine.restrict, Stream.Enabled, hturn] at he
    exact ⟨hlt.le, fun _ => hlt⟩

def Asking (n : ℕ) (s : Stream) : Prop :=
  Requested n s ∧ (s.destroyed = false → Serving s)

theorem Asking.next (h : Asking n s) (he : onLibsrt.Enabled s e) : Asking n (s.next e) := by
  refine ⟨h.1.next he.1, fun hlive => ?_⟩
  have hs : s.destroyed = false := by
    by_contra hd
    have hgone := next_destroyed (Bool.eq_true_of_not_eq_false hd) e
    exact absurd (hgone.symm.trans hlive) (by decide)
  exact (h.2 hs).next he hlive

theorem decreasing (n : ℕ) : onLibsrt.Decreasing (Serves n) (Asking n) (Stream.left n) := by
  have hstep : ∀ s e, Asking n s → onLibsrt.Enabled s e →
      (s.next e).left n ≤ s.left n ∧ (Serves n s e → (s.next e).left n < s.left n) := by
    intro s e h he
    by_cases hd : s.destroyed = true
    · have ha : Answered n s := Or.inr hd
      refine ⟨by rw [left_of_answered (ha.next he.1), left_of_answered ha], fun hserves => ?_⟩
      cases e <;> first | exact absurd ha hserves | exact hserves.elim
    · exact left_next h.1 (h.2 (Bool.eq_false_of_not_eq_true hd)) he
  exact ⟨fun _ _ h he => h.next he, fun s e h he => (hstep s e h he).1,
    fun s e h he => (hstep s e h he).2⟩

/-- A stream that has nothing left to do has answered. -/
theorem answered_of_exhausted (h : Asking n s) (hex : onLibsrt.Exhausted (Serves n) s) :
    Answered n s := by
  by_contra hn
  have hserving : Serving s := h.2 (Bool.eq_false_of_not_eq_true fun hd => hn (Or.inr hd))
  have hasked := h.1.asked.resolve_left hn
  cases hturn : s.turn with
  | reading b =>
    have he : onLibsrt.Enabled s (.recvmsg (.error 0) false false) := by
      simp [onLibsrt, machine, Machine.restrict, Stream.Enabled, hturn, Documented]
    exact hex _ he hn
  | idle =>
    rcases hasked with ⟨b, hb⟩ | ⟨⟨handle, bytes⟩, hr, -⟩
    · cases hturn.symm.trans hb
    · have he : onLibsrt.Enabled s (.timer handle bytes) := ⟨⟨hturn, hr⟩, trivial⟩
      exact hex _ he hn
  | polling i events =>
    cases events with
    | nil => exact hserving.polling i hturn
    | cons event rest =>
      -- whatever the socket, libsrt may find it broken and refuse to close it
      have he : onLibsrt.Enabled s (.pollEvent ⟨SRTS_BROKEN, false, none, false⟩) := by
        simp [onLibsrt, machine, Machine.restrict, Stream.Enabled, hturn, Documented,
          Answers.Gone]
      exact hex _ he hn

/-! ## The result -/

theorem execution_polling {socket : ℤ} (h : onLibsrt.Execution (start socket) s) (i : ℕ) :
    s.turn ≠ .polling i [] :=
  h.invariant (I := fun u => ∀ i, u.turn ≠ .polling i []) (fun _ => by simp [start])
    (fun _ _ hu he => polling_next hu he.1) i

/-- No request of `Readable` is lost, and once the stream has a descriptor it is answered: by
a message, or by the end of the stream. -/
theorem reads_answered {socket bytes : ℤ} (hs : onLibsrt.Execution (start socket) s)
    (he : onLibsrt.Enabled s (.read bytes))
    (ht : onLibsrt.Execution (s.next (.read bytes)) t) :
    (Answered s.pushed.length t ∨ Asked t) ∧
      (t.fd ≠ none →
        onLibsrt.Inevitable (Serves s.pushed.length) (Answered s.pushed.length) t) := by
  have hrequest : Requested s.pushed.length t := by
    apply ht.invariant (I := Requested s.pushed.length)
    · exact ⟨pushed_le he.1, Or.inr (readSocketAndPush_asked s bytes)⟩
    · intro u e hu hue
      exact hu.next hue.1
  refine ⟨hrequest.asked, fun hfd => ?_⟩
  have hrun : onLibsrt.Execution (start socket) t := (hs.tail he).trans ht
  have hasking : Asking s.pushed.length t :=
    ⟨hrequest, fun hd => ⟨live hrun hd, hd, hfd, execution_polling hrun⟩⟩
  exact (decreasing _).inevitable hasking fun _ hu hex => answered_of_exhausted hu hex

theorem reads_answered_connected :
    onLibsrt.Inevitable (Serves 0) (Answered 0)
      (((start 7).connect true).next (.read 1316)) :=
  (reads_answered (s := (start 7).connect true)
    (onLibsrt.execution_of_trace (start 7) [.connect true] (by decide))
    (by decide) (.refl _)).2 (by decide)

/-- A stream reads from one socket in its life, its own or the one it has accepted, and keeps it
open until it is destroyed. -/
theorem reads_one_socket {socket : ℤ} (hs : onLibsrt.Execution (start socket) s) {v : ℤ}
    (hv : s.fd = some v) (ht : onLibsrt.Execution s t) :
    t.destroyed = true ∨ t.fd = some v ∧ v ∉ t.sockets.closed := by
  have hrun : onLibsrt.Execution (start socket) t := hs.trans ht
  have hkept : onLibsrt.Execution (start socket) t ∧ (t.destroyed = true ∨ t.fd = some v) := by
    refine ht.invariant
      (I := fun u => onLibsrt.Execution (start socket) u ∧ (u.destroyed = true ∨ u.fd = some v))
      ⟨hs, Or.inr hv⟩ fun u e hu he => ⟨hu.1.tail he, ?_⟩
    by_cases hd : (u.next e).destroyed = true
    · exact Or.inl hd
    have hundestroyed : u.destroyed = false := by
      by_contra hn
      exact hd (next_destroyed (Bool.eq_true_of_not_eq_false hn) e)
    have hfd : u.fd = some v := hu.2.resolve_left (by simp [hundestroyed])
    exact Or.inr (fd_next (live hu.1 hundestroyed) he hfd (Bool.eq_false_of_not_eq_true hd))
  by_cases hd : t.destroyed = true
  · exact Or.inl hd
  have hfd : t.fd = some v := hkept.2.resolve_left hd
  exact Or.inr ⟨hfd, ((live hrun (Bool.eq_false_of_not_eq_true hd)).holds.fd_open v hfd).2⟩

theorem reads_one_socket_accepted :
    let accepted := [.listen .listens, .poll 0 [7],
      .pollEvent ⟨SRTS_LISTENING, false, some 8, true⟩, .poll 0 [8],
      .pollEvent ⟨SRTS_CONNECTED, false, none, false⟩].foldl Stream.next (start 7)
    (accepted.next (.read 1316)).destroyed = true ∨
      (accepted.next (.read 1316)).fd = some 8 ∧
        (8 : ℤ) ∉ (accepted.next (.read 1316)).sockets.closed :=
  reads_one_socket
    (onLibsrt.execution_of_trace (start 7) [.listen .listens, .poll 0 [7],
      .pollEvent ⟨SRTS_LISTENING, false, some 8, true⟩, .poll 0 [8],
      .pollEvent ⟨SRTS_CONNECTED, false, none, false⟩] (by decide))
    (by decide)
    (onLibsrt.execution_of_trace _ [.read 1316] (by decide))

end ReadStream
