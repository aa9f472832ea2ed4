import NodeSrt.NativeSrt

/-! # A library in a table

Sockets and their subscriptions by id, with the clients that wait to be accepted. It meets
the laws, and is small enough to run. -/
namespace NativeSrt

open AsyncValues
open AsyncApi

structure Table where
  nextId : ℤ
  states : ℤ → ℤ
  backlog : ℤ → ℕ
  subscriptions : List (ℤ × ℤ)

inductive TableEvent where
  | clientArrives (u : ℤ)
  | connectionBreaks (u : ℤ)

namespace Table

def empty : Table := ⟨1, fun _ => SRTS_NONEXIST, fun _ => 0, []⟩

def state (t : Table) (u : ℤ) : ℤ := if u < t.nextId then t.states u else SRTS_NONEXIST

def setState (t : Table) (u state : ℤ) : Table :=
  { t with states := Function.update t.states u state }

def add (t : Table) (state : ℤ) : Table :=
  { t.setState t.nextId state with nextId := t.nextId + 1 }

def clear (t : Table) (u : ℤ) : Table :=
  { t.setState u SRTS_CLOSED with subscriptions := t.subscriptions.filter (·.2 ≠ u) }

/-- What a level-triggered poll reports of a socket. -/
def ready (t : Table) (u : ℤ) : List SRTEpollResult :=
  if t.state u = SRTS_LISTENING ∧ 0 < t.backlog u then [⟨u, SRT_EPOLL_IN⟩]
  else if t.state u = SRTS_BROKEN then [⟨u, SRT_EPOLL_IN + SRT_EPOLL_ERR⟩]
  else []

def move (t : Table) (u : ℤ) (source target : ℤ) : Table × SrtReturn :=
  if t.state u = source then (t.setState u target, ⟨0, []⟩) else (t, ⟨SRT_ERROR, []⟩)

def run (t : Table) : SrtCall → Table × SrtReturn
  | .createSocket => (t.add SRTS_INIT, ⟨t.nextId, []⟩)
  | .setsockflagSender _ => (t, ⟨0, []⟩)
  | .bind u _ _ => t.move u SRTS_INIT SRTS_OPENED
  | .listen u _ => t.move u SRTS_OPENED SRTS_LISTENING
  | .connect u _ _ => t.move u SRTS_INIT SRTS_CONNECTED
  | .accept u =>
    if t.state u = SRTS_LISTENING ∧ 0 < t.backlog u then
      ({ t.add SRTS_CONNECTED with backlog := Function.update t.backlog u (t.backlog u - 1) },
        ⟨t.nextId, []⟩)
    else (t, ⟨SRT_ERROR, []⟩)
  | .close u => if t.state u = SRTS_NONEXIST then (t, ⟨SRT_ERROR, []⟩) else (t.clear u, ⟨0, []⟩)
  | .epollCreate => (t, ⟨1, []⟩)
  | .epollAddUsock eid u _ =>
    if t.state u < SRTS_BROKEN then
      ({ t with subscriptions := (eid, u) :: t.subscriptions }, ⟨0, []⟩)
    else (t, ⟨SRT_ERROR, []⟩)
  | .epollUwait eid _ _ =>
    let fdsSet := (t.subscriptions.filter (·.1 = eid)).flatMap fun x => t.ready x.2
    (t, ⟨fdsSet.length, fdsSet⟩)

def env (t : Table) : TableEvent → Table
  | .clientArrives u => { t with backlog := Function.update t.backlog u (t.backlog u + 1) }
  | .connectionBreaks u => (t.move u SRTS_CONNECTED SRTS_BROKEN).1

end Table

def tableLibsrt : Libsrt Table TableEvent where
  run := Table.run
  getsockstate := Table.state
  getlasterrorStr _ := ascii "Operation not supported"
  inetPton address := if address = ascii "0.0.0.0" then some 0 else none
  other t _ := (t, .error ⟨ascii "A number was expected"⟩)
  env := Table.env
  handedOut t u := u < t.nextId
  subscribed t eid u := (eid, u) ∈ t.subscriptions

/-- What an action may do to the table. -/
inductive Table.Change (t : Table) : Table → Prop
  | same {t' : Table} (hn : t'.nextId = t.nextId) (hs : t'.states = t.states)
      (hc : ∀ x ∈ t.subscriptions, x ∈ t'.subscriptions) : Change t t'
  | added {t' : Table} {state : ℤ} (hn : t'.nextId = t.nextId + 1)
      (hs : t'.states = Function.update t.states t.nextId state)
      (hc : t'.subscriptions = t.subscriptions) : Change t t'
  | moved {u source target : ℤ} (hu : t.state u = source) (hn : source < SRTS_BROKEN)
      (hl : source ≠ SRTS_LISTENING) : Change t (t.setState u target)

theorem Table.change_move (t : Table) (u : ℤ) {source : ℤ} (target : ℤ)
    (hn : source < SRTS_BROKEN) (hl : source ≠ SRTS_LISTENING) :
    t.Change (t.move u source target).1 := by
  unfold Table.move
  split
  · exact .moved ‹_› hn hl
  · exact .same rfl rfl fun _ h => h

theorem Table.act_cases (t : Table) (a : Action TableEvent) :
    t.Change (tableLibsrt.act t a) ∨
      ∃ u, a = .run (.close u) ∧ tableLibsrt.act t a = t.clear u := by
  have same : t.Change t := .same rfl rfl fun _ h => h
  cases a with
  | run c =>
    cases c with
    | createSocket => exact Or.inl (.added rfl rfl rfl)
    | setsockflagSender u => exact Or.inl same
    | bind u address port => exact Or.inl (t.change_move u _ (by decide) (by decide))
    | listen u backlog => exact Or.inl (t.change_move u _ (by decide) (by decide))
    | connect u address port => exact Or.inl (t.change_move u _ (by decide) (by decide))
    | accept u =>
      simp only [Libsrt.act, tableLibsrt, Table.run]
      split
      · exact Or.inl (.added rfl rfl rfl)
      · exact Or.inl same
    | close u =>
      simp only [Libsrt.act, tableLibsrt, Table.run]
      split
      · exact Or.inl same
      · exact Or.inr ⟨u, rfl, rfl⟩
    | epollCreate => exact Or.inl same
    | epollAddUsock eid u events =>
      simp only [Libsrt.act, tableLibsrt, Table.run]
      split
      · exact Or.inl (.same rfl rfl fun _ h => List.mem_cons_of_mem _ h)
      · exact Or.inl same
    | epollUwait eid fdsSize msTimeOut => exact Or.inl same
  | other post => exact Or.inl same
  | env w =>
    cases w with
    | clientArrives u => exact Or.inl (.same rfl rfl fun _ h => h)
    | connectionBreaks u => exact Or.inl (t.change_move u _ (by decide) (by decide))

theorem Table.state_eq {t : Table} {u : ℤ} (h : u < t.nextId) : t.state u = t.states u := if_pos h

theorem Table.Change.nextId_le {t t' : Table} (h : t.Change t') : t.nextId ≤ t'.nextId := by
  cases h with
  | same hn => exact hn.ge
  | added hn => omega
  | moved => exact le_rfl

/-- Nothing but a close ends a listening socket or touches one that has ended. -/
theorem Table.Change.stays {t t' : Table} (h : t.Change t') {u : ℤ} (hu : u < t.nextId)
    (hs : SRTS_BROKEN ≤ t.state u ∨ t.state u = SRTS_LISTENING) : t'.state u = t.state u := by
  have hu' : u < t'.nextId := lt_of_lt_of_le hu h.nextId_le
  rw [state_eq hu']
  cases h with
  | same hn hst => rw [hst, state_eq hu]
  | added hn hst => rw [hst, Function.update_of_ne hu.ne, state_eq hu]
  | moved hm hn hl =>
    have hne : u ≠ _ := fun he => by
      rw [he, hm] at hs
      exact hs.elim (fun h => absurd hn (not_lt.mpr h)) hl
    exact (Function.update_of_ne hne _ _).trans (state_eq hu).symm

theorem Table.Change.subscribed {t t' : Table} (h : t.Change t') {x : ℤ × ℤ}
    (hx : x ∈ t.subscriptions) : x ∈ t'.subscriptions := by
  cases h with
  | same _ _ hc => exact hc x hx
  | added _ _ hc => rwa [hc]
  | moved => exact hx

theorem Table.lt_of_listening {t : Table} {u : ℤ} (h : t.state u = SRTS_LISTENING) :
    u < t.nextId := by
  by_contra hn
  rw [state, if_neg hn] at h
  cases h

@[simp] theorem Table.clear_nextId (t : Table) (u : ℤ) : (t.clear u).nextId = t.nextId := rfl

theorem Table.clear_state_self {t : Table} {u : ℤ} (hu : u < t.nextId) :
    (t.clear u).state u = SRTS_CLOSED := by
  simp [clear, setState, state, hu]

theorem Table.clear_state_of_ne {t : Table} {u v : ℤ} (h : v ≠ u) :
    (t.clear u).state v = t.state v := by
  simp [clear, setState, state, h]

theorem table_lawful : tableLibsrt.Lawful where
  listen_listens t u backlog h := by
    by_cases ho : t.state u = SRTS_OPENED
    · have hu : u < t.nextId := by
        by_contra hn
        rw [Table.state, if_neg hn] at ho
        cases ho
      simp only [Libsrt.Listening, tableLibsrt, Table.run, Table.move, if_pos ho]
      simp [Table.setState, Table.state, hu]
    · simp [tableLibsrt, Table.run, Table.move, ho] at h
  add_subscribes t eid u events h := by
    by_cases ho : t.state u < SRTS_BROKEN
    · simp [tableLibsrt, Table.run, ho]
    · simp [tableLibsrt, Table.run, ho] at h
  create_hands_out t _ := Int.lt_succ t.nextId
  handed_out_stays t a u hu := by
    rcases t.act_cases a with h | ⟨v, rfl, h⟩
    · exact lt_of_lt_of_le hu h.nextId_le
    · rw [h]
      exact hu
  close_ends t u hu := by
    by_cases hs : t.state u = SRTS_NONEXIST
    · simp [Libsrt.Open, tableLibsrt, Table.run, hs, SRTS_NONEXIST, SRTS_BROKEN]
    · simp [Libsrt.Open, tableLibsrt, Table.run, hs, Table.clear_state_self hu, SRTS_CLOSED,
        SRTS_BROKEN]
  not_reopened t a u hu hs := by
    rcases t.act_cases a with h | ⟨v, rfl, h⟩
    · have he := h.stays hu (Or.inl (not_lt.mp hs))
      simpa only [Libsrt.Open, tableLibsrt, ← he] using hs
    · rw [h]
      by_cases he : u = v
      · subst he
        simp [Libsrt.Open, tableLibsrt, Table.clear_state_self hu, SRTS_CLOSED, SRTS_BROKEN]
      · simpa only [Libsrt.Open, tableLibsrt, Table.clear_state_of_ne he] using hs
  only_close_ends_listening t a u ha hl := by
    rcases t.act_cases a with h | ⟨v, rfl, h⟩
    · exact (h.stays (Table.lt_of_listening hl) (Or.inr hl)).trans hl
    · rw [h]
      have hne : u ≠ v := fun he => ha (he ▸ rfl)
      exact (Table.clear_state_of_ne hne).trans hl
  only_close_unsubscribes t a eid u ha hx := by
    rcases t.act_cases a with h | ⟨v, rfl, h⟩
    · exact h.subscribed hx
    · rw [h]
      have hne : u ≠ v := fun he => ha (he ▸ rfl)
      exact List.mem_filter.mpr ⟨hx, by simpa using hne⟩

theorem table_fresh : tableLibsrt.Fresh where
  create_fresh t _ := lt_irrefl t.nextId
  accept_fresh t u h := by
    by_cases ha : t.state u = SRTS_LISTENING ∧ 0 < t.backlog u
    · simp only [tableLibsrt, Table.run, if_pos ha]
      exact ⟨lt_irrefl _, Int.lt_succ t.nextId⟩
    · simp [tableLibsrt, Table.run, ha] at h

theorem table_acceptsListening : tableLibsrt.AcceptsListening where
  accept_listens t u h := by
    by_cases ha : t.state u = SRTS_LISTENING ∧ 0 < t.backlog u
    · refine ⟨?_, ha.1⟩
      by_contra hn
      have hnone : t.state u = SRTS_NONEXIST := if_neg hn
      rw [hnone] at ha
      exact absurd ha.1 (by decide)
    · simp [tableLibsrt, Table.run, ha] at h

theorem table_backlogged : tableLibsrt.Backlogged Table.backlog where
  reported t eid size timeout event he hl := by
    have he := List.mem_of_mem_take he
    simp only [tableLibsrt, Table.run, List.mem_flatMap] at he
    obtain ⟨x, -, he⟩ := he
    have hl : t.state event.socket = SRTS_LISTENING := hl
    unfold Table.ready at he
    split at he
    · rename_i hready
      rw [List.mem_singleton.mp he]
      exact hready.2
    · split at he
      · rename_i hbroken
        rw [List.mem_singleton.mp he, hbroken] at hl
        cases hl
      · cases he
  only_accept_shrinks t a u ha _ _ := by
    have hmove : ∀ v source target, (t.move v source target).1.backlog = t.backlog := by
      intro v source target
      unfold Table.move
      split <;> rfl
    cases a with
    | run c =>
      cases c with
      | accept v =>
        have hne : u ≠ v := fun he => ha (he ▸ rfl)
        simp only [Libsrt.act, tableLibsrt, Table.run]
        split
        · simp [Function.update_of_ne hne]
        · exact le_rfl
      | bind | listen | connect => exact (congrFun (hmove _ _ _) u).ge
      | close v =>
        simp only [Libsrt.act, tableLibsrt, Table.run]
        split <;> exact le_rfl
      | epollAddUsock =>
        simp only [Libsrt.act, tableLibsrt, Table.run]
        split <;> exact le_rfl
      | createSocket | setsockflagSender | epollCreate | epollUwait => exact le_rfl
    | other post => exact le_rfl
    | env w =>
      cases w with
      | clientArrives v =>
        by_cases he : u = v
        · subst he
          simp [Libsrt.act, tableLibsrt, Table.env]
        · simp [Libsrt.act, tableLibsrt, Table.env, Function.update_of_ne he]
      | connectionBreaks v => exact (congrFun (hmove _ _ _) u).ge

end NativeSrt
