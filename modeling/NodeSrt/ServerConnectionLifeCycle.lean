import NodeSrt.ServerConnection

/-! # The life cycle of a connection

The methods of the class keep the life cycle of an object that holds its handle. The
constructor never makes such an object. -/
namespace ServerConnection

open AsyncValues
open TransitionSystem
open AsyncApi

variable {H : Type*}

/-- A run of a connection without a handle: all it does is count its close calls. -/
structure Lost (s : ConnectionRun H) : Prop where
  handle : s.conn.asyncSrt = none
  frames : ∀ f ∈ s.stack, f = .data
  awaiting : s.awaiting = 0
  trace : closeEffects s.trace = []
  returns : s.closeReturns = List.replicate s.closeCalls .null

theorem start_lost (asyncSrt : H) (fd : JSValue) :
    Lost (.start (.construct asyncSrt fd)) := by
  constructor <;> simp [ConnectionRun.start, SRTServerConnection.construct,
    closeEffects]

theorem Lost.step {s : ConnectionRun H} (h : Lost s) {e : ConnectionEvent} (he : Enabled s e) :
    Lost (next s e) := by
  cases e with
  | getReaderWriter => exact h
  | isClosed => exact h
  | read bytes =>
    simpa [next, SRTServerConnection.read, SRTServerConnection.whenOpen, h.handle,
      ConnectionRun.post] using h
  | write chunk =>
    simpa [next, SRTServerConnection.write, SRTServerConnection.whenOpen, h.handle,
      ConnectionRun.post] using h
  | onData =>
    refine { h with frames := ?_, trace := ?_ }
    · intro f hf
      rcases List.mem_cons.mp hf with rfl | hf
      · rfl
      · exact h.frames f hf
    · simpa [next, ConnectionRun.emit, Effect.ofClose] using h.trace
  | close =>
    simp only [next, ConnectionRun.close, h.handle, ConnectionRun.returnClose]
    exact { h with returns := by simp [h.returns, List.replicate_succ'] }
  | listenerReturn threw =>
    cases hs : s.stack with
    | nil => exact absurd hs he
    | cons f rest =>
      have hf : f = .data := h.frames f (hs ▸ List.mem_cons_self)
      have hrest : ∀ g ∈ rest, g = .data := fun g hg =>
        h.frames g (hs ▸ List.mem_cons_of_mem _ hg)
      subst hf
      simp only [next, hs]
      cases threw with
      | true =>
        exact { h with frames := by simpa [ConnectionRun.listenerReturn, hs] using hrest }
      | false =>
        refine { h with
            handle := ?_
            frames := by simpa [ConnectionRun.listenerReturn, hs] using hrest }
        simp only [ConnectionRun.listenerReturn, SRTServerConnection.afterData]
        split <;> exact h.handle
  | closeSettled st =>
    have := h.awaiting
    have := he.2.1
    omega

/-- A connection made by the constructor meets its life cycle in no state of no run. -/
theorem constructed_connection_has_no_life_cycle (asyncSrt : H) (fd : JSValue)
    {s : ConnectionRun H}
    (h : (machine H).Execution (.start (.construct asyncSrt fd)) s) :
    ¬ LifeCycle asyncSrt fd s := by
  have hlost : Lost s := h.invariant (start_lost asyncSrt fd) fun _ _ hu he => hu.step he
  intro hl
  by_cases hc : s.closeCalls = 0
  · have hopen := (hl.before hc).1
    simp [SRTServerConnection.isClosed, hlost.handle] at hopen
  · have hlater := hl.later
    rw [hlost.returns, List.count_replicate_self] at hlater
    omega

theorem constructed_connection_has_no_life_cycle_isClosed :
    ¬ LifeCycle () (.number 7)
      (next (.start (.construct () (.number 7)) : ConnectionRun Unit) .isClosed) :=
  constructed_connection_has_no_life_cycle () (.number 7)
    (Machine.Execution.step (M := machine Unit) (e := .isClosed) trivial)

theorem new_connection_is_closed :
    ¬ ∀ s : ConnectionRun Unit,
      (machine Unit).Execution (.start (.construct () (.number 7))) s →
        LifeCycle () (.number 7) s := by
  intro h
  have := ((h _ (.refl _)).before rfl).1
  exact absurd this (by decide)

/-! ## An object that holds its handle -/

def Frame.ofClose : Frame H → Bool
  | .data => false
  | .closing _ | .closed _ => true

def closeFrames (stack : List (Frame H)) : List (Frame H) := stack.filter Frame.ofClose

@[simp] theorem closeFrames_cons (f : Frame H) (stack : List (Frame H)) :
    closeFrames (f :: stack) = if f.ofClose then f :: closeFrames stack else closeFrames stack :=
  List.filter_cons

inductive Stage (asyncSrt : H) (fd : JSValue) (s : ConnectionRun H) : Prop where
  | opened (calls : s.closeCalls = 0) (handle : s.conn.asyncSrt = some asyncSrt)
      (trace : closeEffects s.trace = []) (frames : closeFrames s.stack = [])
      (awaiting : s.awaiting = 0) (returns : s.closeReturns = [])
  | closing (calls : 0 < s.closeCalls) (handle : s.conn.asyncSrt = none)
      (trace : closeEffects s.trace = [.emit .closing])
      (frames : closeFrames s.stack = [.closing asyncSrt]) (awaiting : s.awaiting = 0)
      (returns : s.closeReturns = List.replicate (s.closeCalls - 1) .null)
  | awaiting (calls : 0 < s.closeCalls) (handle : s.conn.asyncSrt = none)
      (trace : closeEffects s.trace = [.emit .closing, .post asyncSrt (.close fd)])
      (frames : closeFrames s.stack = []) (awaiting : s.awaiting = 1)
      (returns : s.closeReturns = List.replicate (s.closeCalls - 1) .null)
  | closed (result : ReturnValue) (calls : 0 < s.closeCalls) (handle : s.conn.asyncSrt = none)
      (trace : closeEffects s.trace = ServerConnection.closing asyncSrt fd result)
      (frames : closeFrames s.stack = [.closed result]) (awaiting : s.awaiting = 0)
      (returns : s.closeReturns = List.replicate (s.closeCalls - 1) .null)
  | done (result : ReturnValue) (calls : 0 < s.closeCalls) (handle : s.conn.asyncSrt = none)
      (trace : closeEffects s.trace = ServerConnection.closing asyncSrt fd result)
      (frames : closeFrames s.stack = []) (awaiting : s.awaiting = 0)
      (nulls : s.closeReturns.count .null = s.closeCalls - 1)
      (returns : ∀ r, .fulfilled r ∈ s.closeReturns → r = result)
  | failed (calls : 0 < s.closeCalls) (handle : s.conn.asyncSrt = none)
      (trace : closeEffects s.trace = [.emit .closing, .post asyncSrt (.close fd)])
      (frames : closeFrames s.stack = []) (awaiting : s.awaiting = 0)
      (nulls : s.closeReturns.count .null = s.closeCalls - 1)
      (returns : ∀ r, .fulfilled r ∉ s.closeReturns)

namespace Stage

variable {asyncSrt : H} {fd : JSValue} {s : ConnectionRun H}

theorem frame {t : ConnectionRun H} (h : Stage asyncSrt fd s)
    (he : (t.closeCalls, t.conn.asyncSrt, closeEffects t.trace, closeFrames t.stack, t.awaiting,
        t.closeReturns) =
      (s.closeCalls, s.conn.asyncSrt, closeEffects s.trace, closeFrames s.stack, s.awaiting,
        s.closeReturns)) :
    Stage asyncSrt fd t := by
  simp only [Prod.mk.injEq] at he
  obtain ⟨e₁, e₂, e₃, e₄, e₅, e₆⟩ := he
  cases h with
  | opened h₁ h₂ h₃ h₄ h₅ h₆ =>
    exact .opened (e₁ ▸ h₁) (e₂ ▸ h₂) (e₃ ▸ h₃) (e₄ ▸ h₄) (e₅ ▸ h₅) (e₆ ▸ h₆)
  | closing h₁ h₂ h₃ h₄ h₅ h₆ =>
    exact .closing (e₁ ▸ h₁) (e₂ ▸ h₂) (e₃ ▸ h₃) (e₄ ▸ h₄) (e₅ ▸ h₅) (by rw [e₁, e₆, h₆])
  | awaiting h₁ h₂ h₃ h₄ h₅ h₆ =>
    exact .awaiting (e₁ ▸ h₁) (e₂ ▸ h₂) (e₃ ▸ h₃) (e₄ ▸ h₄) (e₅ ▸ h₅) (by rw [e₁, e₆, h₆])
  | closed result h₁ h₂ h₃ h₄ h₅ h₆ =>
    exact .closed result (e₁ ▸ h₁) (e₂ ▸ h₂) (e₃ ▸ h₃) (e₄ ▸ h₄) (e₅ ▸ h₅) (by rw [e₁, e₆, h₆])
  | done result h₁ h₂ h₃ h₄ h₅ h₆ h₇ =>
    exact .done result (e₁ ▸ h₁) (e₂ ▸ h₂) (e₃ ▸ h₃) (e₄ ▸ h₄) (e₅ ▸ h₅) (by rw [e₁, e₆, h₆])
      (e₆ ▸ h₇)
  | failed h₁ h₂ h₃ h₄ h₅ h₆ h₇ =>
    exact .failed (e₁ ▸ h₁) (e₂ ▸ h₂) (e₃ ▸ h₃) (e₄ ▸ h₄) (e₅ ▸ h₅) (by rw [e₁, e₆, h₆])
      (e₆ ▸ h₇)

theorem step_post (h : Stage asyncSrt fd s) {r : Except ConnectionError (H × ApiCall)}
    (hr : ∀ x, r = .ok x → (Effect.post x.1 x.2).ofClose = false) :
    Stage asyncSrt fd (s.post r) := by
  cases r with
  | error e => exact h
  | ok x =>
    apply h.frame
    simp [ConnectionRun.post, hr x rfl]

/-- A later call finds no handle and resolves to null. -/
theorem step_close_again (h : Stage asyncSrt fd s) (hn : s.conn.asyncSrt = none) :
    Stage asyncSrt fd s.close := by
  have hc : s.close = { s with
      closeCalls := s.closeCalls + 1
      closeReturns := s.closeReturns ++ [.null] } := by
    simp [ConnectionRun.close, hn, ConnectionRun.returnClose]
  have hrep : ∀ n, 0 < n → List.replicate (n - 1) CloseReturn.null ++ [.null] =
      List.replicate (n + 1 - 1) .null := by
    intro n hpos
    obtain ⟨m, rfl⟩ := Nat.exists_eq_succ_of_ne_zero hpos.ne'
    simp [List.replicate_succ']
  rw [hc]
  cases h with
  | opened _ hs => rw [hn] at hs; cases hs
  | closing h₁ h₂ h₃ h₄ h₅ h₆ =>
    exact .closing (Nat.succ_pos _) h₂ h₃ h₄ h₅ (by simp only [h₆, hrep _ h₁])
  | awaiting h₁ h₂ h₃ h₄ h₅ h₆ =>
    exact .awaiting (Nat.succ_pos _) h₂ h₃ h₄ h₅ (by simp only [h₆, hrep _ h₁])
  | closed result h₁ h₂ h₃ h₄ h₅ h₆ =>
    exact .closed result (Nat.succ_pos _) h₂ h₃ h₄ h₅ (by simp only [h₆, hrep _ h₁])
  | done result h₁ h₂ h₃ h₄ h₅ h₆ h₇ =>
    exact .done result (Nat.succ_pos _) h₂ h₃ h₄ h₅
      (by simp only [List.count_append, h₆, List.count_singleton_self]; omega)
      (by simpa using h₇)
  | failed h₁ h₂ h₃ h₄ h₅ h₆ h₇ =>
    exact .failed (Nat.succ_pos _) h₂ h₃ h₄ h₅
      (by simp only [List.count_append, h₆, List.count_singleton_self]; omega)
      (by simpa using h₇)

theorem step_close (h : Stage asyncSrt fd s) : Stage asyncSrt fd s.close := by
  cases hn : s.conn.asyncSrt with
  | none => exact h.step_close_again hn
  | some a =>
    cases h with
    | opened h₁ h₂ h₃ h₄ h₅ h₆ =>
      obtain rfl : a = asyncSrt := by simpa [hn] using h₂
      simp only [ConnectionRun.close, hn, ConnectionRun.emit]
      refine .closing (by simp) rfl ?_ ?_ h₅ (by simp [h₆, h₁])
      · simp [h₃, Effect.ofClose]
      · simp [h₄, Frame.ofClose]
    | closing _ hs | awaiting _ hs | closed _ _ hs | done _ _ hs | failed _ hs =>
      rw [hn] at hs
      cases hs

theorem step_listenerReturn (h : Stage asyncSrt fd s) (hfd : s.conn.fd = fd) {f : Frame H}
    {rest : List (Frame H)} (hs : s.stack = f :: rest) :
    Stage asyncSrt fd (s.listenerReturn f false) := by
  have hf := congrArg closeFrames hs
  rw [closeFrames_cons] at hf
  cases f with
  | data =>
    apply h.frame
    have hdata : s.conn.afterData.asyncSrt = s.conn.asyncSrt := by
      simp only [SRTServerConnection.afterData]
      split <;> rfl
    simp [ConnectionRun.listenerReturn, hs, hdata, Frame.ofClose]
  | closing a =>
    simp only [Frame.ofClose, if_true] at hf
    cases h with
    | closing h₁ h₂ h₃ h₄ h₅ h₆ =>
      rw [hf] at h₄
      obtain ⟨ha, hrest⟩ := List.cons.inj h₄
      obtain rfl : a = asyncSrt := by simpa using ha
      refine .awaiting h₁ h₂ ?_ ?_ ?_ h₆
      · simp [ConnectionRun.listenerReturn, ConnectionRun.post, hfd, h₃, Effect.ofClose]
      · simpa [ConnectionRun.listenerReturn, ConnectionRun.post, hs] using hrest
      · simp [ConnectionRun.listenerReturn, ConnectionRun.post, h₅]
    | closed result h₁ h₂ h₃ h₄ => rw [hf] at h₄; simp at h₄
    | opened _ _ _ hc | awaiting _ _ _ hc | done _ _ _ _ hc | failed _ _ _ hc =>
      rw [hf] at hc
      cases hc
  | closed r =>
    simp only [Frame.ofClose, if_true] at hf
    cases h with
    | closed result h₁ h₂ h₃ h₄ h₅ h₆ =>
      rw [hf] at h₄
      obtain ⟨hr, hrest⟩ := List.cons.inj h₄
      obtain rfl : r = result := by simpa using hr
      refine .done r h₁ h₂ h₃ ?_ h₅ ?_ ?_
      · simpa [ConnectionRun.listenerReturn, ConnectionRun.returnClose, hs] using hrest
      · simp [ConnectionRun.listenerReturn, ConnectionRun.returnClose, h₆, List.count_append]
      · intro q hq
        simpa [ConnectionRun.listenerReturn, ConnectionRun.returnClose, h₆, List.mem_replicate]
          using hq
    | closing h₁ h₂ h₃ h₄ => rw [hf] at h₄; simp at h₄
    | opened _ _ _ hc | awaiting _ _ _ hc | done _ _ _ _ hc | failed _ _ _ hc =>
      rw [hf] at hc
      cases hc

theorem step_closeSettled (h : Stage asyncSrt fd s) (ha : 0 < s.awaiting) {st : Settlement}
    (hst : st ≠ .pending) : Stage asyncSrt fd (next s (.closeSettled st)) := by
  cases h with
  | awaiting h₁ h₂ h₃ h₄ h₅ h₆ =>
    cases st with
    | pending => exact absurd rfl hst
    | fulfilled result =>
      refine .closed result h₁ h₂ ?_ ?_ (by simp [next, ConnectionRun.emit, h₅]) h₆
      · simp [next, ConnectionRun.emit, h₃, Effect.ofClose, ServerConnection.closing]
      · simp [next, ConnectionRun.emit, h₄, Frame.ofClose]
    | rejected e =>
      refine .failed h₁ h₂ h₃ h₄ (by simp [next, ConnectionRun.returnClose, h₅]) ?_ ?_
      · simp [next, ConnectionRun.returnClose, h₆, List.count_append]
      · simp [next, ConnectionRun.returnClose, h₆, List.mem_replicate]
  | opened _ _ _ _ hz | closing _ _ _ _ hz | closed _ _ _ _ _ hz | done _ _ _ _ _ hz
  | failed _ _ _ _ hz => omega

end Stage

def Quiet (_ : ConnectionRun H) : ConnectionEvent → Prop
  | .listenerReturn threw => threw = false
  | _ => True

structure Held (asyncSrt : H) (fd : JSValue) (s : ConnectionRun H) : Prop where
  number : s.conn.fd = fd
  stage : Stage asyncSrt fd s

theorem Held.step {asyncSrt : H} {fd : JSValue} {s : ConnectionRun H} (h : Held asyncSrt fd s)
    {e : ConnectionEvent} (he : Enabled s e) (hq : Quiet s e) : Held asyncSrt fd (next s e) := by
  have hpost : ∀ r : Except ConnectionError (H × ApiCall), (s.post r).conn = s.conn := by
    intro r
    cases r <;> rfl
  cases e with
  | getReaderWriter => exact h
  | isClosed => exact h
  | read bytes =>
    refine ⟨(congrArg _ (hpost _)).trans h.number, h.stage.step_post ?_⟩
    intro x hx
    simp only [SRTServerConnection.read, SRTServerConnection.whenOpen] at hx
    split at hx <;> cases hx
    rfl
  | write chunk =>
    refine ⟨(congrArg _ (hpost _)).trans h.number, h.stage.step_post ?_⟩
    intro x hx
    simp only [SRTServerConnection.write, SRTServerConnection.whenOpen] at hx
    split at hx <;> cases hx
    rfl
  | onData =>
    exact ⟨h.number,
      h.stage.frame (by simp [next, ConnectionRun.emit, Effect.ofClose, Frame.ofClose])⟩
  | close =>
    refine ⟨?_, h.stage.step_close⟩
    cases hn : s.conn.asyncSrt <;>
      simpa [next, ConnectionRun.close, hn, ConnectionRun.returnClose, ConnectionRun.emit]
        using h.number
  | listenerReturn threw =>
    obtain rfl : threw = false := hq
    cases hs : s.stack with
    | nil => exact absurd hs he
    | cons f rest =>
      simp only [next, hs]
      refine ⟨?_, h.stage.step_listenerReturn h.number hs⟩
      cases f with
      | data =>
        simp only [ConnectionRun.listenerReturn, SRTServerConnection.afterData]
        split <;> exact h.number
      | closing a => exact h.number
      | closed r => exact h.number
  | closeSettled st =>
    refine ⟨?_, h.stage.step_closeSettled he.2.1 he.2.2⟩
    cases st <;> exact h.number

theorem lifeCycle_of_closed {asyncSrt : H} {fd : JSValue} {s : ConnectionRun H}
    (calls : 0 < s.closeCalls) (handle : s.conn.asyncSrt = none)
    (first : ∃ result, closeEffects s.trace <+: closing asyncSrt fd result)
    (done : ∀ result, .fulfilled result ∈ s.closeReturns →
      closeEffects s.trace = closing asyncSrt fd result)
    (later : s.closeReturns.count .null = s.closeCalls - 1) : LifeCycle asyncSrt fd s where
  before h := absurd h calls.ne'
  after _ := by
    simp [SRTServerConnection.isClosed, SRTServerConnection.getReaderWriter,
      SRTServerConnection.read, SRTServerConnection.write, SRTServerConnection.whenOpen, handle]
  first := first
  done := done
  later := later

theorem Held.lifeCycle {asyncSrt : H} {fd : JSValue} {s : ConnectionRun H}
    (h : Held asyncSrt fd s) : LifeCycle asyncSrt fd s := by
  obtain ⟨rfl, hstage⟩ := h
  have hnull : ∀ {n : ℕ} {r : ReturnValue}, .fulfilled r ∉ List.replicate n CloseReturn.null := by
    simp [List.mem_replicate]
  cases hstage with
  | opened h₁ h₂ h₃ h₄ h₅ h₆ =>
    refine ⟨?_, by simp [h₁], ⟨.undefined, by simp [h₃]⟩, by simp [h₆], by simp [h₁, h₆]⟩
    simp [h₂, h₃, SRTServerConnection.isClosed, SRTServerConnection.getReaderWriter,
      SRTServerConnection.read, SRTServerConnection.write, SRTServerConnection.whenOpen]
  | closing h₁ h₂ h₃ h₄ h₅ h₆ =>
    refine lifeCycle_of_closed h₁ h₂ ⟨.undefined, ?_⟩ ?_ (by simp [h₆])
    · rw [h₃]
      exact List.prefix_append _ _
    · intro r hr
      exact absurd (h₆ ▸ hr) hnull
  | awaiting h₁ h₂ h₃ h₄ h₅ h₆ =>
    refine lifeCycle_of_closed h₁ h₂ ⟨.undefined, ?_⟩ ?_ (by simp [h₆])
    · rw [h₃]
      exact List.prefix_append _ _
    · intro r hr
      exact absurd (h₆ ▸ hr) hnull
  | closed result h₁ h₂ h₃ h₄ h₅ h₆ =>
    refine lifeCycle_of_closed h₁ h₂ ⟨result, h₃ ▸ List.prefix_refl _⟩ ?_ (by simp [h₆])
    intro r hr
    exact absurd (h₆ ▸ hr) hnull
  | done result h₁ h₂ h₃ h₄ h₅ h₆ h₇ =>
    refine lifeCycle_of_closed h₁ h₂ ⟨result, h₃ ▸ List.prefix_refl _⟩ ?_ h₆
    intro r hr
    rw [h₃, h₇ r hr]
  | failed h₁ h₂ h₃ h₄ h₅ h₆ h₇ =>
    refine lifeCycle_of_closed h₁ h₂ ⟨.undefined, ?_⟩ ?_ h₆
    · rw [h₃]
      exact List.prefix_append _ _
    · intro r hr
      exact absurd hr (h₇ r)

/-- The methods are right about an object that was given its handle. -/
theorem stored_handle_has_life_cycle (asyncSrt : H) (fd : JSValue) (gotFirstData : Bool)
    {s : ConnectionRun H}
    (h : ((machine H).restrict Quiet).Execution (.start ⟨some asyncSrt, fd, gotFirstData⟩) s) :
    LifeCycle asyncSrt fd s := by
  have hheld : Held asyncSrt fd s :=
    h.invariant ⟨rfl, .opened rfl rfl rfl rfl rfl rfl⟩ fun _ _ hu he => hu.step he.1 he.2
  exact hheld.lifeCycle

end ServerConnection
