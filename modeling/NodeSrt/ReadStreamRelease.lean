import NodeSrt.ReadStream

/-! # Destroying an SRTReadStream

Only a stream that is connected as a caller reads from the socket it closes. A listener reads
from the accepted one, and a stream without a descriptor closes nothing. -/
namespace ReadStream

open TransitionSystem
open NativeSrt

/-! ## The parts of a state -/

@[simp] theorem close_frame (n : Sockets) (u : ℤ) :
    (n.close u).created = n.created ∧ (n.close u).bound = n.bound ∧
      (n.close u).listening = n.listening ∧ (n.close u).added = n.added := by
  unfold Sockets.close
  split_ifs <;> simp

@[simp] theorem mem_close {n : Sockets} {u v : ℤ} :
    v ∈ (n.close u).closed ↔ v ∈ n.closed ∨ v = u := by
  unfold Sockets.close
  split_ifs with h
  · constructor
    · exact Or.inl
    · rintro (hv | rfl)
      · exact hv
      · exact h
  · simp

theorem close_of_mem {n : Sockets} {u : ℤ} (h : u ∈ n.closed) : n.close u = n := if_pos h

theorem forEach_eq_polling {i j : ℕ} {events us : List ℤ}
    (h : forEach i events = .polling j us) : j = i ∧ us = events := by
  cases events with
  | nil => cases h
  | cons u rest =>
    cases h
    exact ⟨rfl, rfl⟩

/-! ## A stream that is still there -/

/-- The sockets of a stream that has not been destroyed. -/
structure Holds (s : Stream) : Prop where
  created : s.sockets.created = [s.socket] ∨ s.socket ∈ s.sockets.closed ∧
    ∃ fhandle, fhandle ≠ s.socket ∧ s.sockets.created = [s.socket, fhandle]
  added : ∀ u ∈ s.sockets.added, u ∈ s.sockets.created
  fd_open : ∀ v, s.fd = some v → v ∈ s.sockets.created ∧ v ∉ s.sockets.closed
  bound : s.sockets.listening = true → s.sockets.bound = true

/-- Its interval and its read timer: there is one of each at most, and no interval any more once
there is a descriptor. -/
structure Armed (s : Stream) : Prop where
  interval : ∀ i ∈ s.intervals, s.eventPollInterval = some i
  listening : s.intervals ≠ [] → s.sockets.listening = true
  receiving : s.fd ≠ none → s.intervals = []
  timer : ∀ t ∈ s.timers, s.readTimer = some t.1
  polling : ∀ i us, s.turn = .polling i us → s.eventPollInterval = some i ∧ us.Nodup ∧
    (∀ u ∈ us, u ∈ s.sockets.added) ∧ ∀ v, s.fd = some v → v ∉ us

structure Live (s : Stream) : Prop where
  callbacks : s.callbacks = 0
  holds : Holds s
  armed : Armed s

theorem start_live (socket : ℤ) : Live (start socket) := by
  refine ⟨rfl, ⟨.inl rfl, ?_, nofun, nofun⟩, ⟨?_, ?_, ?_, ?_, nofun⟩⟩ <;> simp [start]

variable {s t : Stream}

/-- A stream reads from a socket other than its own only when its own is closed. -/
theorem Holds.own_closed (h : Holds s) {v : ℤ} (hv : s.fd = some v) (hne : v ≠ s.socket) :
    s.socket ∈ s.sockets.closed := by
  rcases h.created with hc | ⟨hclosed, -⟩
  · have hmem := (h.fd_open v hv).1
    rw [hc, List.mem_singleton] at hmem
    exact absurd hmem hne
  · exact hclosed

/-- The own socket is given up before there is a descriptor, or when its use fails. -/
theorem Holds.close_own (h : Holds s) (hfd : ∀ v, s.fd = some v → v ≠ s.socket) :
    Holds { s with sockets := s.sockets.close s.socket } := by
  constructor
  · rcases h.created with hc | ⟨-, hc⟩
    · exact Or.inl (by simpa using hc)
    · exact Or.inr ⟨by simp, by simpa using hc⟩
  · simpa using h.added
  · intro v hv
    obtain ⟨hmem, hopen⟩ := h.fd_open v hv
    simpa [hmem, hopen] using hfd v hv
  · simpa using h.bound

namespace Live

theorem close_own (h : Live s) (hfd : s.fd = none) (hturn : s.turn = .idle) :
    Live { s with sockets := s.sockets.close s.socket } :=
  ⟨h.callbacks, h.holds.close_own (by simp [hfd]), ⟨h.armed.interval,
    by simpa using h.armed.listening, h.armed.receiving, h.armed.timer,
    fun i us hp => absurd (hturn.symm.trans hp) nofun⟩⟩

theorem bound (h : Live s) (hfd : s.fd = none) (hturn : s.turn = .idle) (listening : Bool)
    (hlistening : s.sockets.listening = true → listening = true) :
    Live { s with sockets := { s.sockets with bound := true, listening := listening } } :=
  ⟨h.callbacks, ⟨h.holds.created, h.holds.added, by simp [hfd], fun _ => rfl⟩,
    ⟨h.armed.interval, fun hne => hlistening (h.armed.listening hne), h.armed.receiving,
      h.armed.timer, fun i us hp => absurd (hturn.symm.trans hp) nofun⟩⟩

theorem listen (h : Live s) (hturn : s.turn = .idle) {o : ListenOutcome}
    (ho : Documented s (.listen o)) : Live (s.listen o) := by
  unfold Stream.listen
  split
  · exact h
  · rename_i hfd
    have hnone : s.fd = none := not_not.mp hfd
    cases o with
    | badAddress => exact h
    | bindFails => exact h.close_own hnone hturn
    | listenFails =>
      exact (h.bound hnone hturn s.sockets.listening id).close_own hnone hturn
    | epollFails => exact h.bound hnone hturn true fun _ => rfl
    | listens =>
      have hbound : s.sockets.bound = false := by
        rcases ho with ho | ho | ho
        · cases ho
        · cases ho
        · exact ho.1
      -- A socket that was not bound has no interval, so the new one is the only one.
      have hempty : s.intervals = [] := by
        by_contra hne
        have hb := h.holds.bound (h.armed.listening hne)
        rw [hbound] at hb
        cases hb
      refine ⟨h.callbacks, ⟨h.holds.created, ?_, h.holds.fd_open, fun _ => rfl⟩,
        ⟨?_, fun _ => rfl, fun hne => absurd hnone hne, h.armed.timer,
          fun i us hp => absurd (hturn.symm.trans hp) nofun⟩⟩
      · intro u hu
        rcases List.mem_append.mp hu with hu | hu
        · exact h.holds.added u hu
        · rw [List.mem_singleton] at hu
          rcases h.holds.created with hc | ⟨-, v, -, hc⟩ <;> simp [hc, hu]
      · simp [hempty]

theorem connect (h : Live s) (hturn : s.turn = .idle) {connected : Bool}
    (ho : Documented s (.connect connected)) : Live (s.connect connected) := by
  unfold Stream.connect
  split_ifs with hfd hconnected
  · exact h
  · obtain ⟨hlistening, hopen⟩ := ho hconnected
    have hempty : s.intervals = [] := by
      by_contra hne
      have hl := h.armed.listening hne
      rw [hlistening] at hl
      cases hl
    refine ⟨h.callbacks, ⟨h.holds.created, h.holds.added, ?_, h.holds.bound⟩,
      ⟨h.armed.interval, h.armed.listening, fun _ => hempty, h.armed.timer,
        fun i us hp => absurd (hturn.symm.trans hp) nofun⟩⟩
    intro v hv
    cases hv
    refine ⟨?_, hopen⟩
    rcases h.holds.created with hc | ⟨-, v, -, hc⟩ <;> simp [hc]
  · exact h.close_own (not_not.mp hfd) hturn

theorem readSocketAndPush (h : Live s) (hturn : s.turn = .idle) (bytes : ℤ) :
    Live (s.readSocketAndPush bytes) := by
  have hcleared : s.clearScheduledRead.timers = [] := by
    simpa [Stream.clearScheduledRead] using h.armed.timer
  unfold Stream.readSocketAndPush
  split
  · refine ⟨h.callbacks, ⟨h.holds.created, h.holds.added, h.holds.fd_open, h.holds.bound⟩,
      ⟨h.armed.interval, h.armed.listening, h.armed.receiving, ?_,
        fun i us hp => absurd (hturn.symm.trans hp) nofun⟩⟩
    simp [Stream.scheduleNextRead, hcleared]
  · refine ⟨h.callbacks, ⟨h.holds.created, h.holds.added, h.holds.fd_open, h.holds.bound⟩,
      ⟨h.armed.interval, h.armed.listening, h.armed.receiving, ?_, nofun⟩⟩
    intro t ht
    exact absurd (hcleared ▸ ht) (List.not_mem_nil)

theorem accept (h : Live s) {i : ℕ} {rest : List ℤ} {a : Answers}
    (hne : ∀ v, s.fd = some v → v ≠ s.socket)
    (hpolling : ∀ j us, forEach i rest = .polling j us → s.eventPollInterval = some j ∧
      us.Nodup ∧ (∀ u ∈ us, u ∈ s.sockets.added) ∧ ∀ v, s.fd = some v → v ∉ us)
    (haccepted : ∀ fhandle, a.accepted = some fhandle →
      s.socket ∉ s.sockets.closed ∧ fhandle ∉ s.sockets.created) :
    Live (s.accept i rest a) := by
  unfold Stream.accept
  cases ha : a.accepted with
  | none =>
    have hclosed := h.holds.close_own hne
    exact ⟨h.callbacks, ⟨hclosed.created, hclosed.added, hclosed.fd_open, hclosed.bound⟩,
      ⟨h.armed.interval, by simpa using h.armed.listening, h.armed.receiving, h.armed.timer,
        nofun⟩⟩
  | some fhandle =>
    obtain ⟨hopen, hnew⟩ := haccepted fhandle ha
    have hcreated : s.sockets.created = [s.socket] :=
      h.holds.created.resolve_right fun hc => hopen hc.1
    -- The stream has only its own socket, which is no descriptor, so there is none yet.
    have hnone : s.fd = none := by
      cases hfd : s.fd with
      | none => rfl
      | some v =>
        have hmem := (h.holds.fd_open v hfd).1
        rw [hcreated, List.mem_singleton] at hmem
        exact absurd hmem (hne v hfd)
    have hfhandle : fhandle ≠ s.socket := fun he => hnew (he ▸ hcreated ▸ List.mem_singleton_self _)
    have hadded : ∀ u ∈ s.sockets.added, u ∈ s.sockets.created ++ [fhandle] := fun u hu =>
      List.mem_append_left _ (h.holds.added u hu)
    refine ⟨h.callbacks, ⟨.inr ⟨?_, fhandle, hfhandle, ?_⟩, ?_, by simp [hnone], ?_⟩,
      ⟨h.armed.interval, ?_, h.armed.receiving, h.armed.timer, ?_⟩⟩
    · cases a.added <;> simp
    · cases a.added <;> simp [hcreated]
    · cases a.added with
      | false => simpa using hadded
      | true =>
        intro u hu
        have hu' : u ∈ s.sockets.added ∨ u = fhandle := by simpa using hu
        rcases hu' with hu | rfl
        · simpa using hadded u hu
        · simp
    · cases a.added <;> simpa using h.holds.bound
    · cases a.added <;> simpa using h.armed.listening
    · cases a.added with
      | false => exact nofun
      | true =>
        intro j us hp
        obtain ⟨hj, hus, hin, hv⟩ := hpolling j us hp
        exact ⟨hj, hus, fun u hu => by simp [hin u hu], hv⟩

theorem onEvent (h : Live s) {i : ℕ} {event : ℤ} {rest : List ℤ}
    (hturn : s.turn = .polling i (event :: rest)) {a : Answers}
    (ho : Documented s (.pollEvent a)) : Live (s.onEvent i event rest a) := by
  obtain ⟨hinterval, hnodup, hadded, hfd⟩ := h.armed.polling i _ hturn
  obtain ⟨hrest, hnodup⟩ := List.nodup_cons.mp hnodup
  simp only [Documented, hturn] at ho
  obtain ⟨hgone, haccepted⟩ := ho
  have hne : ∀ v, s.fd = some v → v ≠ event := fun v hv he =>
    hfd v hv (he ▸ List.mem_cons_self)
  have hpolling : ∀ j us, forEach i rest = .polling j us → s.eventPollInterval = some j ∧
      us.Nodup ∧ (∀ u ∈ us, u ∈ s.sockets.added) ∧ ∀ v, s.fd = some v → v ∉ us := by
    intro j us hp
    obtain ⟨rfl, rfl⟩ := forEach_eq_polling hp
    exact ⟨hinterval, hnodup, fun u hu => hadded u (List.mem_cons_of_mem _ hu),
      fun v hv hu => hfd v hv (List.mem_cons_of_mem _ hu)⟩
  unfold Stream.onEvent
  split_ifs with hg hclosed hown
  · have hopen : event ∉ s.sockets.closed := fun hmem => by
      simp [(hgone hmem).2] at hclosed
    refine ⟨h.callbacks, ⟨?_, h.holds.added, ?_, h.holds.bound⟩,
      ⟨h.armed.interval, h.armed.listening, h.armed.receiving, h.armed.timer, hpolling⟩⟩
    · rcases h.holds.created with hc | ⟨hmem, hc⟩
      · exact .inl hc
      · exact .inr ⟨List.mem_append_left _ hmem, hc⟩
    · intro v hv
      obtain ⟨hmem, hvopen⟩ := h.holds.fd_open v hv
      simpa [hmem, hvopen] using hne v hv
  · exact ⟨h.callbacks, ⟨h.holds.created, h.holds.added, h.holds.fd_open, h.holds.bound⟩,
      ⟨h.armed.interval, h.armed.listening, h.armed.receiving, h.armed.timer, nofun⟩⟩
  · subst hown
    exact h.accept hne hpolling haccepted
  · have hopen : event ∉ s.sockets.closed := fun hmem => hg (hgone hmem).1
    have hempty : (s.intervals.filter fun j => j ≠ i) = [] := by
      rw [List.filter_eq_nil_iff]
      intro j hj
      have hij : j = i := Option.some.inj ((h.armed.interval j hj).symm.trans hinterval)
      simp [hij]
    refine ⟨h.callbacks, ⟨h.holds.created, h.holds.added, ?_, h.holds.bound⟩,
      ⟨?_, ?_, fun _ => hempty, h.armed.timer, ?_⟩⟩
    · intro v hv
      cases hv
      exact ⟨h.holds.added event (hadded event List.mem_cons_self), hopen⟩
    · exact fun j hj => h.armed.interval j (List.mem_of_mem_filter hj)
    · exact fun hj => absurd hempty hj
    · intro j us hp
      obtain ⟨hj, hus, hin, -⟩ := hpolling j us hp
      refine ⟨hj, hus, hin, fun v hv => ?_⟩
      cases hv
      obtain ⟨-, rfl⟩ := forEach_eq_polling hp
      exact hrest

theorem next (h : Live s) {e : StreamEvent} (he : onLibsrt.Enabled s e)
    (hlive : (s.next e).destroyed = false) : Live (s.next e) := by
  obtain ⟨he, ho⟩ := he
  cases e with
  | listen o => exact h.listen he ho
  | connect connected => exact h.connect he ho
  | read bytes => exact h.readSocketAndPush he.1 bytes
  | timer handle bytes =>
    have hfired : Live { s with timers := s.timers.filter fun t => t.1 ≠ handle } :=
      ⟨h.callbacks, ⟨h.holds.created, h.holds.added, h.holds.fd_open, h.holds.bound⟩,
        ⟨h.armed.interval, h.armed.listening, h.armed.receiving,
          fun t ht => h.armed.timer t (List.mem_of_mem_filter ht), h.armed.polling⟩⟩
    exact hfired.readSocketAndPush he.1 bytes
  | recvmsg r more closed =>
    cases hturn : s.turn with
    | reading remainingBytes =>
      simp only [Stream.next, hturn] at hlive ⊢
      cases r with
      | message data =>
        refine ⟨h.callbacks, ⟨h.holds.created, h.holds.added, h.holds.fd_open, h.holds.bound⟩,
          ⟨h.armed.interval, h.armed.listening, h.armed.receiving, h.armed.timer, ?_⟩⟩
        intro i us hp
        simp only [Stream.onRead, Read] at hp
        split_ifs at hp
      | error lasterror =>
        rw [show (s.onRead remainingBytes (Read (.error lasterror)) more closed).destroyed = true
          from destroy_destroyed s closed] at hlive
        cases hlive
    | _ => simp [machine, Stream.Enabled, hturn] at he
  | poll interval events =>
    obtain ⟨-, harmed⟩ := he
    obtain ⟨hnodup, hadded⟩ := ho
    refine ⟨h.callbacks, ⟨h.holds.created, h.holds.added, h.holds.fd_open, h.holds.bound⟩,
      ⟨h.armed.interval, h.armed.listening, h.armed.receiving, h.armed.timer, ?_⟩⟩
    intro i us hp
    obtain ⟨rfl, rfl⟩ := forEach_eq_polling hp
    refine ⟨h.armed.interval i harmed, hnodup, hadded, fun v hv => ?_⟩
    rw [h.armed.receiving (by simp [show s.fd = some v from hv])] at harmed
    cases harmed
  | pollEvent a =>
    cases hturn : s.turn with
    | polling i events =>
      cases events with
      | cons event rest =>
        simp only [Stream.next, hturn]
        exact h.onEvent hturn ho
      | nil => simp [machine, Stream.Enabled, hturn] at he
    | _ => simp [machine, Stream.Enabled, hturn] at he
  | destroy closed =>
    rw [show (s.next (.destroy closed)).destroyed = true from destroy_destroyed s closed] at hlive
    cases hlive

end Live

theorem live {socket : ℤ} (h : onLibsrt.Execution (start socket) s) (hs : s.destroyed = false) :
    Live s := by
  have hrun : s.destroyed = false → Live s := by
    apply h.invariant fun _ => start_live socket
    intro u e hu he hnext
    have hlive : u.destroyed = false := by
      by_contra hd
      have hdestroyed : (u.next e).destroyed = true := next_destroyed (by simpa using hd) e
      rw [show (u.next e).destroyed = false from hnext] at hdestroyed
      cases hdestroyed
    exact (hu hlive).next he hnext
  exact hrun hs

/-! ## What is released -/

/-- The callback of `_destroy` has been called once, nothing is armed and every socket created
or accepted has been closed once. -/
structure Released (s : Stream) : Prop where
  callback : s.callbacks = 1
  no_interval : s.intervals = []
  no_timer : s.timers = []
  closed_once : ∀ u ∈ s.sockets.created, s.sockets.closed.count u = 1

/-- A caller's stream after it has been destroyed. -/
structure Done (s : Stream) : Prop where
  destroyed : s.destroyed = true
  fd : s.fd = none
  turn : s.turn = .idle
  created : s.sockets.created = [s.socket]
  closed : s.socket ∈ s.sockets.closed
  released : Released s

/-- Nothing comes of a stream that is done: it has no descriptor, nothing is armed, and its
socket is good for nothing. -/
theorem Done.next (h : Done s) {e : StreamEvent} (he : onLibsrt.Enabled s e) :
    Done (s.next e) := by
  obtain ⟨he, ho⟩ := he
  have hclose : { s with sockets := s.sockets.close s.socket } = s := by
    rw [close_of_mem h.closed]
  cases e with
  | listen o =>
    rcases ho with rfl | rfl | ⟨-, hopen⟩
    · rw [show s.next (.listen .badAddress) = s from if_neg (not_not.mpr h.fd)]
      exact h
    · rw [show s.next (.listen .bindFails) = s from (if_neg (not_not.mpr h.fd)).trans hclose]
      exact h
    · exact absurd h.closed hopen
  | connect connected =>
    cases connected with
    | true => exact absurd h.closed (ho rfl).2
    | false =>
      rw [show s.next (.connect false) = s from (if_neg (not_not.mpr h.fd)).trans hclose]
      exact h
  | read bytes =>
    have hlive := he.2
    rw [h.destroyed] at hlive
    cases hlive
  | timer handle bytes =>
    have hmem := he.2
    rw [h.released.no_timer] at hmem
    cases hmem
  | recvmsg r more closed => simp [machine, Stream.Enabled, h.turn] at he
  | poll interval events =>
    have hmem := he.2
    rw [h.released.no_interval] at hmem
    cases hmem
  | pollEvent a => simp [machine, Stream.Enabled, h.turn] at he
  | destroy closed =>
    rw [show s.next (.destroy closed) = s from destroy_of_destroyed h.destroyed closed]
    exact h

def StreamEvent.destroys : StreamEvent → Option Bool
  | .destroy closed => some closed
  | .recvmsg (.error _) _ closed => some closed
  | _ => none

theorem next_of_destroys {e : StreamEvent} {closed : Bool} (he : s.Enabled e)
    (hd : e.destroys = some closed) : s.next e = { s.destroy closed with turn := .idle } := by
  cases e with
  | destroy c =>
    cases hd
    rw [← show s.turn = .idle from he, ← destroy_turn s closed]
    rfl
  | recvmsg r more c =>
    cases r with
    | message data => cases hd
    | error lasterror =>
      cases hd
      exact next_error he
  | _ => cases hd

theorem Live.destroy_done (h : Live s) (hlive : s.destroyed = false)
    (hfd : s.fd = some s.socket) : Done { s.destroy true with turn := .idle } := by
  obtain ⟨hmem, hopen⟩ := h.holds.fd_open _ hfd
  have hcreated : s.sockets.created = [s.socket] :=
    h.holds.created.resolve_right fun hc => hopen hc.1
  have hempty : s.intervals = [] := h.armed.receiving (by simp [hfd])
  have htimers : (s.timers.filter fun t => s.readTimer ≠ some t.1) = [] := by
    simpa using h.armed.timer
  have hs : s.destroy true = { s.clearScheduledRead with
      destroyed := true
      intervals := s.intervals.filter fun i => s.eventPollInterval ≠ some i
      sockets := { s.sockets with closed := s.sockets.closed ++ [s.socket] }
      fd := none
      callbacks := s.callbacks + 1 } := by
    simp [Stream.destroy, hlive, Stream.destroy_, hfd, Stream.clearScheduledRead]
  rw [hs]
  refine ⟨rfl, rfl, rfl, hcreated, List.mem_append_right _ (List.mem_singleton_self _),
    ⟨?_, ?_, htimers, ?_⟩⟩
  · simp [h.callbacks]
  · simp [hempty]
  · intro u hu
    have hu' : u = s.socket := by simpa [hcreated] using hu
    simp [hu', List.count_append, List.count_eq_zero_of_not_mem hopen]

theorem Live.destroy_keeps (h : Live s) (hlive : s.destroyed = false) {closed : Bool}
    (hclosed : closed = true → s.socket ∉ s.sockets.closed)
    (hreleased : Released (s.destroy closed)) : s.fd = some s.socket ∧ closed = true := by
  cases hfd : s.fd with
  | none =>
    have hs : s.destroy closed = { s with destroyed := true } := by
      simp [Stream.destroy, hlive, Stream.destroy_, hfd]
    have hcallback := hreleased.callback
    rw [hs, show ({ s with destroyed := true } : Stream).callbacks = 0 from h.callbacks]
      at hcallback
    cases hcallback
  | some v =>
    obtain ⟨hmem, hopen⟩ := h.holds.fd_open v hfd
    cases closed with
    | false =>
      have hsockets : (s.destroy false).sockets = s.sockets := by
        simp [Stream.destroy, hlive, Stream.destroy_, hfd]
      have hcount := hreleased.closed_once v (by rwa [hsockets])
      rw [hsockets, List.count_eq_zero_of_not_mem hopen] at hcount
      cases hcount
    | true =>
      refine ⟨?_, rfl⟩
      by_contra hne
      exact hclosed rfl (h.holds.own_closed hfd fun he => hne (by rw [he]))

/-- A destroyed stream releases everything, also in the time after it, just if it was connected
as a caller and its socket could be closed. -/
theorem releases_iff (socket : ℤ) {s : Stream} {e : StreamEvent} {closed : Bool}
    (h : onLibsrt.Execution (start socket) s) (hlive : s.destroyed = false)
    (he : onLibsrt.Enabled s e) (hd : e.destroys = some closed) :
    (∀ t, onLibsrt.Execution (s.next e) t → Released t) ↔
      s.fd = some s.socket ∧ closed = true := by
  have hs := live h hlive
  rw [next_of_destroys he.1 hd]
  constructor
  · intro hreleased
    have hnow := hreleased _ (.refl _)
    have hclosed : closed = true → s.socket ∉ s.sockets.closed := by
      cases e with
      | destroy c =>
        cases hd
        exact he.2
      | recvmsg r more c =>
        cases r with
        | message data => cases hd
        | error lasterror =>
          cases hd
          exact he.2
      | _ => cases hd
    exact hs.destroy_keeps hlive hclosed
      ⟨hnow.callback, hnow.no_interval, hnow.no_timer, hnow.closed_once⟩
  · rintro ⟨hfd, rfl⟩ t ht
    have hdone : Done t := ht.invariant (hs.destroy_done hlive hfd) fun u e hu he => hu.next he
    exact hdone.released

/-- A caller's stream that was asked to read before it connected. -/
def connectedCaller : List StreamEvent := [.read 16, .connect true]

theorem releases_iff_connectedCaller :
    Released (((machine.runTrace (start 7) connectedCaller).next (.destroy true)).next
      (.listen .bindFails)) :=
  (releases_iff 7 (e := .destroy true)
    (onLibsrt.execution_of_trace (start 7) connectedCaller (by decide)) (by decide) (by decide)
    rfl).mpr (by decide) _ (Machine.execution_of_trace onLibsrt _
    [.listen .bindFails] (by decide))

/-- A listener whose client has sent something. Its own socket was closed by `Accept`. -/
def receivingListener : List StreamEvent :=
  [.listen .listens, .poll 0 [7], .pollEvent ⟨SRTS_LISTENING, false, some 8, true⟩,
    .poll 0 [8], .pollEvent ⟨SRTS_CONNECTED, false, none, false⟩]

/-- Destroying a listener leaves the socket of its client open. -/
theorem accepted_socket_is_left_open :
    ¬ ∀ (socket : ℤ) (s : Stream) (closed : Bool), onLibsrt.Execution (start socket) s →
      s.destroyed = false → onLibsrt.Enabled s (.destroy closed) →
        ∀ t, onLibsrt.Execution (s.next (.destroy closed)) t → Released t := by
  intro h
  have hreleased := h 7 _ false
    (onLibsrt.execution_of_trace (start 7) receivingListener (by decide)) (by decide) (by decide)
    _ (.refl _)
  exact absurd (hreleased.closed_once 8 (by decide)) (by decide)

end ReadStream
