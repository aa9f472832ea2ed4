import NodeSrt.NativeSrt

/-! # SRTReadStream

The stream of `srt-stream-readable.ts` with its interval, its read timer and the sockets it has
made. What the native object answers comes with the event, and what libsrt documents of the
answers restricts the runs. A timer may fire at any time. Listeners do not call back into the
stream. -/
namespace ReadStream

open TransitionSystem
open AsyncValues
open NativeSrt

/-! ## Native reads -/

/-- What `srt_recvmsg` comes to: the bytes of a message, or `SRT_ERROR` and the last error. -/
inductive Recvmsg where
  | message (data : Bytes)
  | error (lasterror : ℤ)
  deriving DecidableEq, Repr

def SRT_EASYNCRCV : ℤ := 6002

inductive ReadResult where
  | thrown
  | null
  | SRT_ERROR
  | buffer (data : Bytes)
  deriving DecidableEq, Repr

/-- `NodeSRT::Read`, which throws whatever the error is. -/
def Read : Recvmsg → ReadResult
  | .message data => .buffer data
  | .error _ => .thrown

/-! ## State -/

/-- What a method or a callback is in the middle of, between two native calls. -/
inductive Turn where
  | idle
  | reading (remainingBytes : ℤ)
  | polling (interval : ℕ) (events : List ℤ)
  deriving DecidableEq, Repr

/-- The sockets created and accepted, the ones added to the epoll and the ones closed with
success, in order. The flags are about the stream's own socket. -/
structure Sockets where
  created : List ℤ
  bound : Bool
  listening : Bool
  added : List ℤ
  closed : List ℤ
  deriving DecidableEq, Repr

/-- The private fields, the intervals and timers that are armed, what the `Readable` keeps, and
the sockets. `callbacks` counts the calls of the callback given to `_destroy`. -/
structure Stream where
  socket : ℤ
  fd : Option ℤ
  eventPollInterval : Option ℕ
  readTimer : Option ℕ
  intervals : List ℕ
  timers : List (ℕ × ℤ)
  handles : ℕ
  destroyed : Bool
  callbacks : ℕ
  pushed : List Bytes
  ended : Bool
  turn : Turn
  sockets : Sockets

def start (socket : ℤ) : Stream where
  socket := socket
  fd := none
  eventPollInterval := none
  readTimer := none
  intervals := []
  timers := []
  handles := 0
  destroyed := false
  callbacks := 0
  pushed := []
  ended := false
  turn := .idle
  sockets := ⟨[socket], false, false, [], []⟩

/-- An `srt_close` whose result is not looked at. -/
def Sockets.close (n : Sockets) (u : ℤ) : Sockets :=
  if u ∈ n.closed then n else { n with closed := n.closed ++ [u] }

/-! ## listen and connect -/

inductive ListenOutcome where
  | badAddress | bindFails | listenFails | epollFails | listens
  deriving DecidableEq, Repr

def Stream.listen (s : Stream) (o : ListenOutcome) : Stream :=
  if s.fd ≠ none then s
  else match o with
    | .badAddress => s
    | .bindFails => { s with sockets := s.sockets.close s.socket }
    | .listenFails => { s with sockets := { s.sockets with bound := true }.close s.socket }
    | .epollFails => { s with sockets := { s.sockets with bound := true, listening := true } }
    | .listens =>
      { s with
        sockets := { s.sockets with
          bound := true, listening := true, added := s.sockets.added ++ [s.socket] }
        eventPollInterval := some s.handles
        intervals := s.intervals ++ [s.handles]
        handles := s.handles + 1 }

/-- `Connect` closes the socket when it fails. -/
def Stream.connect (s : Stream) (connected : Bool) : Stream :=
  if s.fd ≠ none then s
  else if connected then { s with fd := some s.socket }
  else { s with sockets := s.sockets.close s.socket }

/-! ## destroy -/

def Stream.scheduleNextRead (s : Stream) (requestedBytes : ℤ) : Stream :=
  { s with
    readTimer := some s.handles
    timers := s.timers ++ [(s.handles, requestedBytes)]
    handles := s.handles + 1 }

def Stream.clearScheduledRead (s : Stream) : Stream :=
  { s with timers := s.timers.filter fun t => s.readTimer ≠ some t.1, readTimer := none }

/-- `_destroy`. When `srt.close` throws, `Readable.destroy` hands the error to the callback. -/
def Stream.destroy_ (s : Stream) (closed : Bool) : Stream :=
  match s.fd with
  | none => s
  | some _ =>
    let s := { s with intervals := s.intervals.filter fun i => s.eventPollInterval ≠ some i }
    if closed then
      { { s with sockets := { s.sockets with closed := s.sockets.closed ++ [s.socket] }
                 fd := none }.clearScheduledRead with callbacks := s.callbacks + 1 }
    else { s with callbacks := s.callbacks + 1 }

/-- `close` and `Readable.destroy`, which calls `_destroy` once. -/
def Stream.destroy (s : Stream) (closed : Bool) : Stream :=
  if s.destroyed then s else { s with destroyed := true }.destroy_ closed

/-! ## Reading -/

/-- `_readSocketAndPush` up to its first native read. -/
def Stream.readSocketAndPush (s : Stream) (bytes : ℤ) : Stream :=
  match s.fd with
  | none => s.clearScheduledRead.scheduleNextRead bytes
  | some _ => { s.clearScheduledRead with turn := .reading bytes }

/-- A round of its loop. -/
def Stream.onRead (s : Stream) (remainingBytes : ℤ) (buffer : ReadResult) (more closed : Bool) :
    Stream :=
  match buffer with
  | .thrown | .null => { s.destroy closed with turn := .idle }
  | .SRT_ERROR => { s.scheduleNextRead remainingBytes with turn := .idle }
  | .buffer data =>
    { s with
      pushed := s.pushed ++ [data]
      turn := if more ∧ 0 < remainingBytes - data.length then
        .reading (remainingBytes - data.length) else .idle }

/-! ## The interval -/

/-- What the native calls in the body of the `forEach` answer. `closed` and `added` say that the
call does not throw, and so does a socket in `accepted`. -/
structure Answers where
  sockState : ℤ
  closed : Bool
  accepted : Option ℤ
  added : Bool
  deriving DecidableEq, Repr

def Answers.Gone (a : Answers) : Prop :=
  a.sockState = SRTS_BROKEN ∨ a.sockState = SRTS_NONEXIST ∨ a.sockState = SRTS_CLOSED

instance (a : Answers) : Decidable a.Gone := inferInstanceAs (Decidable (_ ∨ _))

def forEach (interval : ℕ) : List ℤ → Turn
  | [] => .idle
  | events => .polling interval events

/-- The own socket is ready. `Accept` closes the socket it accepts from. -/
def Stream.accept (s : Stream) (interval : ℕ) (rest : List ℤ) (a : Answers) : Stream :=
  match a.accepted with
  | none => { s with sockets := s.sockets.close s.socket, turn := .idle }
  | some fhandle =>
    let sockets := { s.sockets with created := s.sockets.created ++ [fhandle] }.close s.socket
    { s with
      sockets := if a.added then { sockets with added := sockets.added ++ [fhandle] } else sockets
      turn := if a.added then forEach interval rest else .idle }

def Stream.onEvent (s : Stream) (interval : ℕ) (event : ℤ) (rest : List ℤ) (a : Answers) :
    Stream :=
  if a.Gone then
    if a.closed then
      { s with
        sockets := { s.sockets with closed := s.sockets.closed ++ [event] }
        ended := true
        turn := forEach interval rest }
    else { s with turn := .idle }
  else if event = s.socket then s.accept interval rest a
  else
    { s with
      fd := some event
      intervals := s.intervals.filter fun i => i ≠ interval
      turn := forEach interval rest }

/-! ## Events -/

inductive StreamEvent where
  | listen (o : ListenOutcome)
  | connect (connected : Bool)
  | read (bytes : ℤ)
  | timer (handle : ℕ) (bytes : ℤ)
  | recvmsg (r : Recvmsg) (more closed : Bool)
  | poll (interval : ℕ) (events : List ℤ)
  | pollEvent (a : Answers)
  | destroy (closed : Bool)
  deriving DecidableEq, Repr

/-- JavaScript runs to completion. `Readable` does not ask a destroyed stream to read. -/
def Stream.Enabled (s : Stream) : StreamEvent → Prop
  | .listen _ | .connect _ | .destroy _ => s.turn = .idle
  | .read _ => s.turn = .idle ∧ s.destroyed = false
  | .timer handle bytes => s.turn = .idle ∧ (handle, bytes) ∈ s.timers
  | .recvmsg _ _ _ =>
    match s.turn with
    | .reading _ => True
    | _ => False
  | .poll interval _ => s.turn = .idle ∧ interval ∈ s.intervals
  | .pollEvent _ =>
    match s.turn with
    | .polling _ (_ :: _) => True
    | _ => False

instance (s : Stream) : (e : StreamEvent) → Decidable (s.Enabled e)
  | .listen _ | .connect _ | .destroy _ => inferInstanceAs (Decidable (_ = _))
  | .read _ | .timer _ _ | .poll _ _ => inferInstanceAs (Decidable (_ ∧ _))
  | .recvmsg _ _ _ =>
    match h : s.turn with
    | .reading _ => isTrue (by simp [Stream.Enabled, h])
    | .idle | .polling _ _ => isFalse (by simp [Stream.Enabled, h])
  | .pollEvent _ =>
    match h : s.turn with
    | .polling _ (_ :: _) => isTrue (by simp [Stream.Enabled, h])
    | .idle | .reading _ | .polling _ [] => isFalse (by simp [Stream.Enabled, h])

def Stream.next (s : Stream) : StreamEvent → Stream
  | .listen o => s.listen o
  | .connect connected => s.connect connected
  | .read bytes => s.readSocketAndPush bytes
  | .timer handle bytes =>
    { s with timers := s.timers.filter fun t => t.1 ≠ handle }.readSocketAndPush bytes
  | .recvmsg r more closed =>
    match s.turn with
    | .reading remainingBytes => s.onRead remainingBytes (Read r) more closed
    | _ => s
  | .poll interval events => { s with turn := forEach interval events }
  | .pollEvent a =>
    match s.turn with
    | .polling interval (event :: rest) => s.onEvent interval event rest a
    | _ => s
  | .destroy closed => s.destroy closed

def machine : Machine Stream StreamEvent := ⟨Stream.Enabled, Stream.next⟩

/-- What libsrt documents. A socket is bound once, a listening socket does not connect, an
accepted one is new, a poll reports sockets that were added, each once, and a closed socket is
good for nothing. -/
def Documented (s : Stream) : StreamEvent → Prop
  | .listen o => o = .badAddress ∨ o = .bindFails ∨
      s.sockets.bound = false ∧ s.socket ∉ s.sockets.closed
  | .connect connected => connected = true →
      s.sockets.listening = false ∧ s.socket ∉ s.sockets.closed
  | .recvmsg _ _ closed | .destroy closed => closed = true → s.socket ∉ s.sockets.closed
  | .poll _ events => events.Nodup ∧ ∀ u ∈ events, u ∈ s.sockets.added
  | .pollEvent a =>
    match s.turn with
    | .polling _ (event :: _) =>
      (event ∈ s.sockets.closed → a.Gone ∧ a.closed = false) ∧
        ∀ fhandle, a.accepted = some fhandle →
          s.socket ∉ s.sockets.closed ∧ fhandle ∉ s.sockets.created
    | _ => True
  | .read _ | .timer _ _ => True

instance (s : Stream) : (e : StreamEvent) → Decidable (Documented s e)
  | .listen _ => inferInstanceAs (Decidable (_ ∨ _))
  | .connect _ | .recvmsg _ _ _ | .destroy _ => inferInstanceAs (Decidable (_ → _))
  | .poll _ _ => inferInstanceAs (Decidable (_ ∧ _))
  | .pollEvent a =>
    match h : s.turn with
    | .polling _ (event :: _) =>
      have : Decidable (∀ fhandle, a.accepted = some fhandle →
          s.socket ∉ s.sockets.closed ∧ fhandle ∉ s.sockets.created) :=
        match ha : a.accepted with
        | none => isTrue (by simp)
        | some fhandle => decidable_of_iff
            (s.socket ∉ s.sockets.closed ∧ fhandle ∉ s.sockets.created) (by simp)
      decidable_of_iff ((event ∈ s.sockets.closed → a.Gone ∧ a.closed = false) ∧
        ∀ fhandle, a.accepted = some fhandle →
          s.socket ∉ s.sockets.closed ∧ fhandle ∉ s.sockets.created) (by simp [Documented, h])
    | .idle | .reading _ | .polling _ [] => isTrue (by simp [Documented, h])
  | .read _ | .timer _ _ => isTrue trivial

def onLibsrt : Machine Stream StreamEvent := machine.restrict Documented

instance (s : Stream) (e : StreamEvent) : Decidable (onLibsrt.Enabled s e) :=
  inferInstanceAs (Decidable (s.Enabled e ∧ Documented s e))

/-! ## A destroyed stream -/

variable {s : Stream} {lasterror : ℤ} {more closed : Bool}

theorem destroy_of_destroyed (h : s.destroyed = true) (closed : Bool) : s.destroy closed = s :=
  if_pos h

theorem destroy_destroyed (s : Stream) (closed : Bool) : (s.destroy closed).destroyed = true := by
  unfold Stream.destroy
  split
  · assumption
  · unfold Stream.destroy_
    cases s.fd <;> cases closed <;> rfl

theorem destroy_turn (s : Stream) (closed : Bool) : (s.destroy closed).turn = s.turn := by
  unfold Stream.destroy
  split
  · rfl
  · unfold Stream.destroy_
    cases s.fd <;> cases closed <;> rfl

theorem destroy_pushed (s : Stream) (closed : Bool) : (s.destroy closed).pushed = s.pushed := by
  unfold Stream.destroy
  split
  · rfl
  · unfold Stream.destroy_
    cases s.fd <;> cases closed <;> rfl

/-- The events that can push a message or destroy the stream. -/
def StreamEvent.matters : StreamEvent → Bool
  | .recvmsg _ _ _ | .destroy _ => true
  | _ => false

theorem next_frame {e : StreamEvent} (h : e.matters = false) :
    (s.next e).pushed = s.pushed ∧ (s.next e).destroyed = s.destroyed := by
  cases e with
  | listen o =>
    simp only [Stream.next, Stream.listen]
    split_ifs
    · exact ⟨rfl, rfl⟩
    · cases o <;> exact ⟨rfl, rfl⟩
  | connect connected =>
    simp only [Stream.next, Stream.connect]
    split_ifs <;> exact ⟨rfl, rfl⟩
  | read bytes =>
    simp only [Stream.next, Stream.readSocketAndPush]
    cases s.fd <;> exact ⟨rfl, rfl⟩
  | timer handle bytes =>
    simp only [Stream.next, Stream.readSocketAndPush]
    cases s.fd <;> exact ⟨rfl, rfl⟩
  | poll interval events => exact ⟨rfl, rfl⟩
  | pollEvent a =>
    simp only [Stream.next]
    split
    · unfold Stream.onEvent
      split_ifs
      · exact ⟨rfl, rfl⟩
      · exact ⟨rfl, rfl⟩
      · unfold Stream.accept
        cases a.accepted <;> exact ⟨rfl, rfl⟩
      · exact ⟨rfl, rfl⟩
    · exact ⟨rfl, rfl⟩
  | recvmsg r more closed | destroy closed => cases h

/-- A read that throws destroys the stream. -/
theorem next_error (he : s.Enabled (.recvmsg (.error lasterror) more closed)) :
    s.next (.recvmsg (.error lasterror) more closed) =
      { s.destroy closed with turn := .idle } := by
  cases hturn : s.turn with
  | reading remainingBytes =>
    simp only [Stream.next, hturn]
    rfl
  | _ => simp [Stream.Enabled, hturn] at he

theorem next_destroyed (h : s.destroyed = true) (e : StreamEvent) :
    (s.next e).destroyed = true := by
  cases e with
  | recvmsg r more closed =>
    simp only [Stream.next]
    split
    · cases r with
      | message data => exact h
      | error lasterror => exact destroy_destroyed s closed
    · exact h
  | destroy closed => exact destroy_destroyed s closed
  | _ => exact (next_frame rfl).2.trans h

end ReadStream
