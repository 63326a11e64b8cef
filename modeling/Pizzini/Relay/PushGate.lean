import Pizzini.Relay.RoutingSafety

/-!
# Offline pushes: the gate in front of the wake-up tasks (main.rs:2389–2536)

A SEND that is queued for an offline recipient ends in `maybe_send_push`, which
spawns a wake-up task unless the recipient has one in flight, or
`MAX_INFLIGHT_PUSH` tasks are. The task sleeps out its jitter, issues a POST,
waits for the answer and drops its guard; only then is the recipient out of the
set.

The comment on `PushGate` says that the task in flight wakes the device after
the message was queued. It does if the message was queued before the POST
(`coalesced_wakes_later`). A message queued between the POST and the drop of the
guard is skipped too, and the POST is behind it (`posted_task_swallows`).

The SEND handlers here are those of `Routing` with the push at their end. All
else, the recipient's reconnects among it, is the relay of that module. `clock`
counts steps, and dates the queueing of a frame and the issue of a POST.
-/

namespace Pizzini.Relay

open Wire Runs

/-! ## The gate -/

/-- main.rs:2397 -/
def MAX_INFLIGHT_PUSH : Nat := 1024

/-- `PushGate`: the free permits of the semaphore, and the recipients that have
a wake-up task in flight. -/
structure PushGate where
  available : Nat
  inFlight : List PeerId

/-- `PushGate::new`. -/
def PushGate.new (maxInflight : Nat) : PushGate := ⟨maxInflight, []⟩

/-- The answers of `try_admit`; the code has `None` for the last two. -/
inductive Admission where
  | admitted
  | coalesced
  | atCeiling
  deriving DecidableEq, Repr

/-- `try_admit`: the permit first, then the recipient. A permit that was taken
for nothing is given back. -/
def PushGate.tryAdmit (gate : PushGate) (recipient : PeerId) : PushGate × Admission :=
  if gate.available = 0 then (gate, .atCeiling)
  else if recipient ∈ gate.inFlight then (gate, .coalesced)
  else (⟨gate.available - 1, recipient :: gate.inFlight⟩, .admitted)

/-- `PushAdmit::drop`, and that of the permit in it. -/
def PushGate.release (gate : PushGate) (recipient : PeerId) : PushGate where
  available := gate.available + 1
  inFlight := gate.inFlight.filter (· ≠ recipient)

/-! ## Wake-up tasks and SEND handlers -/

/-- How far a wake-up task is. -/
inductive WakePhase where
  /-- in its jitter -/
  | sleeping
  /-- `send_wakeup` is under way -/
  | posting
  /-- it has returned -/
  | finished
  /-- the guard is dropped -/
  | dropped
  deriving DecidableEq, Repr

structure WakeTask where
  recipient : PeerId
  phase : WakePhase
  /-- ghost: when the POST was issued -/
  postedAt : Option Nat
  deriving DecidableEq, Repr

/-- A frame that was queued. -/
structure QueuedSend where
  frame : Accepted
  /-- ghost -/
  queuedAt : Nat
  deriving DecidableEq

/-- A SEND handler whose recipient was not reachable. -/
inductive SendHandler where
  /-- `enqueue_pending` is next -/
  | queueing (a : Accepted)
  /-- `route_is_live` is next -/
  | rechecking (q : QueuedSend)
  /-- `maybe_send_push`: the token lookup is next -/
  | looking (q : QueuedSend)
  /-- `try_admit` is next -/
  | admitting (q : QueuedSend)
  deriving DecidableEq

/-- The relay with its push pipeline. -/
structure PushSys where
  relay : RelayState
  sends : List SendHandler
  /-- whether APNs is configured -/
  apns : Bool
  /-- the peers with a push token -/
  tokens : List PeerId
  gate : PushGate
  /-- all wake-up tasks there have been -/
  tasks : List WakeTask
  /-- ghost -/
  clock : Nat

namespace PushSys

/-- The task `i` is now `task`. -/
def setTask (s : PushSys) (i : Nat) (task : WakeTask) : PushSys :=
  { s with tasks := s.tasks.set i task }

/-- The first lock region of a SEND: look up the route and send, or go on to
queue the frame. -/
def send (s : PushSys) (a : Accepted) : PushSys :=
  let relay := { s.relay with nextTag := s.relay.nextTag + 1 }
  match s.relay.tables.liveRoute a.toId with
  | some ch => { s with relay := { relay with tables := relay.tables.hand ch [a] } }
  | none =>
    { s with
      relay
      sends := s.sends ++ [.queueing a] }

end PushSys

/-- The next step of a SEND handler, and what is left of it. -/
def SendHandler.exec (s : PushSys) (now : UInt64) : SendHandler → PushSys × Option SendHandler
  | .queueing a =>
    ({ s with relay := { s.relay with tables := s.relay.tables.enqueuePending now a } },
      some (.rechecking ⟨a, s.clock⟩))
  | .rechecking q =>
    -- a recipient that is back gets a drain, which is a handler of `Routing`
    if s.relay.tables.routeIsLive q.frame.toId then
      ({ s with relay := { s.relay with
          handlers := s.relay.handlers ++ [.draining q.frame.toId none] } }, none)
    else (s, some (.looking q))
  | .looking q => (s, if s.apns ∧ q.frame.toId ∈ s.tokens then some (.admitting q) else none)
  | .admitting q =>
    match s.gate.tryAdmit q.frame.toId with
    | (gate, .admitted) =>
      ({ s with
        gate
        tasks := s.tasks ++ [⟨q.frame.toId, .sleeping, none⟩] }, none)
    | (gate, _) => ({ s with gate }, none)

/-! ## Steps -/

/-- What happens next. -/
inductive PushEvent where
  /-- anything but a SEND -/
  | relay (ev : RelayEvent)
  | send (a : Accepted)
  | exec (h : SendHandler) (now : UInt64)
  /-- REGISTER_PUSH, DEREGISTER_PUSH, or a collection of the tokens -/
  | tokens (tokens : List PeerId)
  /-- the steps of a wake-up task -/
  | post (i : Nat)
  | finish (i : Nat)
  | drop (i : Nat)

/-- The state, one step later. -/
def PushSys.tick (s : PushSys) : PushSys := { s with clock := s.clock + 1 }

inductive PushStep : PushSys → PushEvent → PushSys → Prop where
  | relay {s : PushSys} {ev : RelayEvent} {relay : RelayState}
      (hseed : ∀ a, ev = .send a → a.pclass = .seed) (hstep : RelayStep s.relay ev relay) :
      PushStep s (.relay ev) { s with relay }.tick
  | send {s : PushSys} {a : Accepted} (hclass : a.pclass = .authorized)
      (htag : a.tag = s.relay.nextTag) : PushStep s (.send a) (s.send a).tick
  | exec {s : PushSys} {pre post : List SendHandler} {h : SendHandler} {now : UInt64}
      (hsends : s.sends = pre ++ h :: post) :
      PushStep s (.exec h now)
        { (h.exec s now).1 with sends := pre ++ (h.exec s now).2.toList ++ post }.tick
  | tokens {s : PushSys} {tokens : List PeerId} :
      PushStep s (.tokens tokens) { s with tokens }.tick
  | post {s : PushSys} {i : Nat} {task : WakeTask} (htask : s.tasks[i]? = some task)
      (hphase : task.phase = .sleeping) :
      PushStep s (.post i)
        (s.setTask i ⟨task.recipient, .posting, some s.clock⟩).tick
  | finish {s : PushSys} {i : Nat} {task : WakeTask} (htask : s.tasks[i]? = some task)
      (hphase : task.phase = .posting) :
      PushStep s (.finish i) (s.setTask i { task with phase := .finished }).tick
  | drop {s : PushSys} {i : Nat} {task : WakeTask} (htask : s.tasks[i]? = some task)
      (hphase : task.phase = .finished) :
      PushStep s (.drop i)
        { s.setTask i { task with phase := .dropped } with
          gate := s.gate.release task.recipient }.tick

/-- A relay that has just started. -/
structure PushStarted (s : PushSys) : Prop where
  relay : Started s.relay
  sends : s.sends = []
  gate : s.gate = PushGate.new MAX_INFLIGHT_PUSH
  tasks : s.tasks = []

/-! ## Skipped wake-ups -/

/-- The task `i` of `p` is in flight. -/
def PushSys.InFlight (s : PushSys) (i : Nat) (p : PeerId) : Prop :=
  ∃ task, s.tasks[i]? = some task ∧ task.recipient = p ∧ task.phase ≠ .dropped

/-- `try_admit` is next for `q`, and finds its recipient in flight. -/
def PushSys.Coalesces (s : PushSys) (q : QueuedSend) : Prop :=
  .admitting q ∈ s.sends ∧ (s.gate.tryAdmit q.frame.toId).2 = .coalesced

/-- The task is before its POST, or issued it after `time`. -/
def WakeTask.PostAfter (time : Nat) (task : WakeTask) : Prop :=
  task.phase = .sleeping ∨ ∃ t, task.postedAt = some t ∧ time < t

/-- From here on, whatever happens, the task has its POST before it, or behind it
but after `time`. -/
def PushSys.PostsAfter (s : PushSys) (i time : Nat) : Prop :=
  ∀ s', Reach PushStep (fun _ _ => True) s s' →
    ∃ task, s'.tasks[i]? = some task ∧ task.PostAfter time

/-- A frame is queued while no task of its recipient is between its POST and the
drop of its guard. -/
def QueuesBeforePost (s : PushSys) (e : PushEvent) : Prop :=
  ∀ a now, e = .exec (.queueing a) now → ∀ (i : Nat) (task : WakeTask), s.tasks[i]? = some task →
    task.recipient = a.toId → task.phase = .sleeping ∨ task.phase = .dropped

/-! ## What a step does to the tasks -/

/-- One step of a task that is there. -/
inductive WakeTask.Next (clock : Nat) (task : WakeTask) : WakeTask → Prop where
  | same : WakeTask.Next clock task task
  | post (hphase : task.phase = .sleeping) :
      WakeTask.Next clock task ⟨task.recipient, .posting, some clock⟩
  | finish (hphase : task.phase = .posting) :
      WakeTask.Next clock task { task with phase := .finished }
  | drop (hphase : task.phase = .finished) :
      WakeTask.Next clock task { task with phase := .dropped }

theorem WakeTask.Next.recipient_eq {clock : Nat} {task task' : WakeTask}
    (h : task.Next clock task') : task'.recipient = task.recipient := by
  cases h with
  | same => rfl
  | post _ => rfl
  | finish _ => rfl
  | drop _ => rfl

/-- A guard that is dropped stays dropped. -/
theorem WakeTask.Next.alive {clock : Nat} {task task' : WakeTask} (h : task.Next clock task')
    (halive : task'.phase ≠ .dropped) : task.phase ≠ .dropped := by
  intro hdropped
  cases h with
  | same => exact halive hdropped
  | post hphase =>
    rw [hphase] at hdropped
    cases hdropped
  | finish hphase =>
    rw [hphase] at hdropped
    cases hdropped
  | drop _ => exact halive rfl

theorem WakeTask.Next.postAfter {clock time : Nat} {task task' : WakeTask}
    (h : task.Next clock task') (htime : time < clock) (hpost : task.PostAfter time) :
    task'.PostAfter time := by
  cases h with
  | same => exact hpost
  | post _ => exact .inr ⟨clock, rfl, htime⟩
  | finish hphase =>
    refine .inr (hpost.resolve_left fun hsleeping => ?_)
    rw [hphase] at hsleeping
    cases hsleeping
  | drop hphase =>
    refine .inr (hpost.resolve_left fun hsleeping => ?_)
    rw [hphase] at hsleeping
    cases hsleeping

section Steps

variable {s s' : PushSys} {e : PushEvent}

theorem getElem?_setTask {i j : Nat} {task task' : WakeTask} (htask : s.tasks[i]? = some task) :
    (s.setTask i task').tasks[j]? = if i = j then some task' else s.tasks[j]? := by
  obtain ⟨hlt, _⟩ := List.getElem?_eq_some_iff.mp htask
  show (s.tasks.set i task')[j]? = _
  rw [List.getElem?_set, if_pos hlt]

/-- The handler steps that leave the tasks alone: all but an admission. -/
theorem SendHandler.exec_tasks (s : PushSys) (now : UInt64) (h : SendHandler) :
    (h.exec s now).1.tasks = s.tasks ∧ (h.exec s now).1.gate = s.gate ∨
      ∃ q, h = .admitting q ∧ q.frame.toId ∉ s.gate.inFlight ∧
        (h.exec s now).1.tasks = s.tasks ++ [⟨q.frame.toId, .sleeping, none⟩] ∧
        (h.exec s now).1.gate = ⟨s.gate.available - 1, q.frame.toId :: s.gate.inFlight⟩ := by
  cases h with
  | queueing a => exact .inl ⟨rfl, rfl⟩
  | rechecking q =>
    refine .inl ?_
    rw [SendHandler.exec]
    split
    · exact ⟨rfl, rfl⟩
    · exact ⟨rfl, rfl⟩
  | looking q => exact .inl ⟨rfl, rfl⟩
  | admitting q =>
    by_cases hfull : s.gate.available = 0
    · simp only [SendHandler.exec, PushGate.tryAdmit, if_pos hfull]
      exact .inl ⟨trivial, trivial⟩
    · by_cases hin : q.frame.toId ∈ s.gate.inFlight
      · simp only [SendHandler.exec, PushGate.tryAdmit, if_neg hfull, if_pos hin]
        exact .inl ⟨trivial, trivial⟩
      · simp only [SendHandler.exec, PushGate.tryAdmit, if_neg hfull, if_neg hin]
        exact .inr ⟨q, rfl, hin, rfl, rfl⟩

/-- A task behind a step is one from before it, or new and asleep. -/
theorem PushStep.task (hstep : PushStep s e s') {i : Nat} {task' : WakeTask}
    (htask : s'.tasks[i]? = some task') :
    (∃ task, s.tasks[i]? = some task ∧ task.Next s.clock task') ∨
      task'.phase = .sleeping ∧ task'.postedAt = none := by
  cases hstep with
  | relay _ _ => exact .inl ⟨task', htask, .same⟩
  | @send a _ _ =>
    refine .inl ⟨task', ?_, .same⟩
    simp only [PushSys.tick, PushSys.send] at htask
    split at htask
    · exact htask
    · exact htask
  | @exec pre post h now _ =>
    have htask' : (h.exec s now).1.tasks[i]? = some task' := htask
    obtain ⟨hsame, _⟩ | ⟨q, _, _, happend, _⟩ := SendHandler.exec_tasks s now h
    · rw [hsame] at htask'
      exact .inl ⟨task', htask', .same⟩
    · rw [happend] at htask'
      by_cases hlt : i < s.tasks.length
      · rw [List.getElem?_append_left hlt] at htask'
        exact .inl ⟨task', htask', .same⟩
      · rw [List.getElem?_append_right (Nat.le_of_not_lt hlt)] at htask'
        have hin := List.mem_of_getElem? htask'
        rw [List.mem_singleton] at hin
        exact .inr (hin ▸ ⟨rfl, rfl⟩)
  | tokens => exact .inl ⟨task', htask, .same⟩
  | @post j task hold hphase =>
    have htask' : (s.setTask j _).tasks[i]? = some task' := htask
    rw [getElem?_setTask hold] at htask'
    split at htask'
    next heq =>
      cases htask'
      exact .inl ⟨task, heq ▸ hold, .post hphase⟩
    next => exact .inl ⟨task', htask', .same⟩
  | @finish j task hold hphase =>
    have htask' : (s.setTask j _).tasks[i]? = some task' := htask
    rw [getElem?_setTask hold] at htask'
    split at htask'
    next heq =>
      cases htask'
      exact .inl ⟨task, heq ▸ hold, .finish hphase⟩
    next => exact .inl ⟨task', htask', .same⟩
  | @drop j task hold hphase =>
    have htask' : (s.setTask j _).tasks[i]? = some task' := htask
    rw [getElem?_setTask hold] at htask'
    split at htask'
    next heq =>
      cases htask'
      exact .inl ⟨task, heq ▸ hold, .drop hphase⟩
    next => exact .inl ⟨task', htask', .same⟩

/-- No task goes away. -/
theorem PushStep.length_le (hstep : PushStep s e s') : s.tasks.length ≤ s'.tasks.length := by
  cases hstep with
  | relay _ _ => exact Nat.le_refl _
  | @send a _ _ =>
    simp only [PushSys.tick, PushSys.send]
    split
    · exact Nat.le_refl _
    · exact Nat.le_refl _
  | @exec pre post h now _ =>
    show _ ≤ (h.exec s now).1.tasks.length
    obtain ⟨hsame, _⟩ | ⟨q, _, _, happend, _⟩ := SendHandler.exec_tasks s now h
    · rw [hsame]
    · rw [happend, List.length_append]
      exact Nat.le_add_right _ _
  | tokens => exact Nat.le_refl _
  | post _ _ => exact Nat.le_of_eq (List.length_set ..).symm
  | finish _ _ => exact Nat.le_of_eq (List.length_set ..).symm
  | drop _ _ => exact Nat.le_of_eq (List.length_set ..).symm

theorem PushStep.clock_eq (hstep : PushStep s e s') : s'.clock = s.clock + 1 := by
  cases hstep with
  | relay _ _ => rfl
  | @send a _ _ =>
    simp only [PushSys.tick, PushSys.send]
    split
    · rfl
    · rfl
  | @exec pre post h now _ =>
    show (h.exec s now).1.clock + 1 = s.clock + 1
    cases h with
    | queueing a => rfl
    | rechecking q =>
      rw [SendHandler.exec]
      split
      · rfl
      · rfl
    | looking q => rfl
    | admitting q =>
      rw [SendHandler.exec]
      split
      · rfl
      · rfl
  | tokens => rfl
  | post _ _ => rfl
  | finish _ _ => rfl
  | drop _ _ => rfl

end Steps

/-- A task that is before its POST now, or issued it after `time`, never will
have issued it before. -/
theorem PushSys.postsAfter {s : PushSys} {i time : Nat} {task : WakeTask}
    (htime : time < s.clock) (htask : s.tasks[i]? = some task) (hpost : task.PostAfter time) :
    s.PostsAfter i time := by
  intro s' hrun
  have hinv : time < s'.clock ∧ i < s'.tasks.length ∧
      ∀ task, s'.tasks[i]? = some task → task.PostAfter time := by
    refine hrun.invariant (fun s => time < s.clock ∧ i < s.tasks.length ∧
      ∀ task, s.tasks[i]? = some task → task.PostAfter time) (fun h _ hstep => ?_) ?_
    · obtain ⟨hclock, hlt, htasks⟩ := h
      refine ⟨?_, Nat.lt_of_lt_of_le hlt hstep.length_le, fun task' htask' => ?_⟩
      · rw [hstep.clock_eq]
        exact Nat.lt_succ_of_lt hclock
      · obtain ⟨task, hold, hnext⟩ | ⟨hsleeping, _⟩ := hstep.task htask'
        · exact hnext.postAfter hclock (htasks task hold)
        · exact .inl hsleeping
    · refine ⟨htime, (List.getElem?_eq_some_iff.mp htask).1, fun task' htask' => ?_⟩
      rw [htask] at htask'
      cases htask'
      exact hpost
  obtain ⟨_, hlt, htasks⟩ := hinv
  exact ⟨s'.tasks[i], List.getElem?_eq_getElem hlt, htasks _ (List.getElem?_eq_getElem hlt)⟩

/-! ## The set of recipients in flight -/

/-- The recipients in the set are those of the tasks in flight, of which each has
one. -/
structure GateInv (s : PushSys) : Prop where
  flying : ∀ p, p ∈ s.gate.inFlight ↔ ∃ i, s.InFlight i p
  single : ∀ i j p, s.InFlight i p → s.InFlight j p → i = j

section Gate

variable {s s' : PushSys} {e : PushEvent}

theorem PushSys.InFlight.lt {i : Nat} {p : PeerId} (h : s.InFlight i p) : i < s.tasks.length := by
  obtain ⟨task, htask, _⟩ := h
  exact (List.getElem?_eq_some_iff.mp htask).1

theorem PushSys.InFlight.recipient {i : Nat} {p p' : PeerId} (h : s.InFlight i p)
    (h' : s.InFlight i p') : p = p' := by
  obtain ⟨task, htask, rfl, _⟩ := h
  obtain ⟨task', htask', rfl, _⟩ := h'
  rw [htask] at htask'
  rw [Option.some.inj htask']

/-- A step of the task `i` concerns no other task. -/
theorem inFlight_setTask {i j : Nat} {p : PeerId} {task task' : WakeTask}
    (htask : s.tasks[i]? = some task) :
    (s.setTask i task').InFlight j p ↔
      if i = j then task'.recipient = p ∧ task'.phase ≠ .dropped else s.InFlight j p := by
  unfold PushSys.InFlight
  rw [getElem?_setTask htask]
  split
  · simp only [Option.some.injEq, exists_eq_left']
  · exact Iff.rfl

/-- A step of a task that does not drop its guard. -/
theorem inFlight_of_alive {i j : Nat} {p : PeerId} {task task' : WakeTask}
    (htask : s.tasks[i]? = some task) (hrecipient : task'.recipient = task.recipient)
    (halive : task.phase ≠ .dropped) (halive' : task'.phase ≠ .dropped) :
    (s.setTask i task').InFlight j p ↔ s.InFlight j p := by
  rw [inFlight_setTask htask]
  split
  next heq =>
    subst heq
    unfold PushSys.InFlight
    simp only [htask, Option.some.injEq, exists_eq_left', hrecipient, ne_eq, halive, halive',
      not_false_eq_true, and_true]
  next => exact Iff.rfl

/-- A step leaves the gate and who is in flight, admits a recipient that is not,
or releases one that is. -/
theorem PushStep.gate_cases (hstep : PushStep s e s') :
    (s'.gate = s.gate ∧ ∀ i p, s'.InFlight i p ↔ s.InFlight i p) ∨
      (∃ r, r ∉ s.gate.inFlight ∧
        s'.gate = ⟨s.gate.available - 1, r :: s.gate.inFlight⟩ ∧
        ∀ i p, s'.InFlight i p ↔ s.InFlight i p ∨ i = s.tasks.length ∧ p = r) ∨
      ∃ j r, s.InFlight j r ∧ s'.gate = s.gate.release r ∧
        ∀ i p, s'.InFlight i p ↔ s.InFlight i p ∧ i ≠ j := by
  cases hstep with
  | relay _ _ => exact .inl ⟨rfl, fun _ _ => Iff.rfl⟩
  | @send a _ _ =>
    refine .inl ?_
    unfold PushSys.InFlight
    simp only [PushSys.tick, PushSys.send]
    split
    · exact ⟨rfl, fun _ _ => Iff.rfl⟩
    · exact ⟨rfl, fun _ _ => Iff.rfl⟩
  | @exec pre post h now _ =>
    obtain ⟨htasks, hgate⟩ | ⟨q, _, hnew, htasks, hgate⟩ := SendHandler.exec_tasks s now h
    · refine .inl ⟨hgate, fun i p => ?_⟩
      unfold PushSys.InFlight
      show (∃ task, (h.exec s now).1.tasks[i]? = some task ∧ _) ↔ _
      rw [htasks]
    · refine .inr (.inl ⟨q.frame.toId, hnew, hgate, fun i p => ?_⟩)
      unfold PushSys.InFlight
      show (∃ task, (h.exec s now).1.tasks[i]? = some task ∧ _) ↔ _
      rw [htasks]
      -- the new task is the last one
      obtain hlt | rfl | hgt := Nat.lt_trichotomy i s.tasks.length
      · rw [List.getElem?_append_left hlt]
        exact ⟨.inl, fun h => h.resolve_right fun hlast => absurd hlast.1 (Nat.ne_of_lt hlt)⟩
      · rw [List.getElem?_concat_length, List.getElem?_eq_none (Nat.le_refl _)]
        constructor
        · rintro ⟨task, htask, hrest, _⟩
          cases htask
          exact .inr ⟨rfl, hrest.symm⟩
        · rintro (⟨task, htask, _⟩ | ⟨_, rfl⟩)
          · cases htask
          · exact ⟨_, rfl, rfl, nofun⟩
      · have hend : (s.tasks ++ [(⟨q.frame.toId, .sleeping, none⟩ : WakeTask)]).length ≤ i := by
          rw [List.length_append]
          exact hgt
        rw [List.getElem?_eq_none hend, List.getElem?_eq_none (Nat.le_of_lt hgt)]
        refine ⟨fun ⟨task, htask, _⟩ => absurd htask nofun, ?_⟩
        rintro (⟨task, htask, _⟩ | ⟨hlast, _⟩)
        · cases htask
        · exact absurd hlast (Nat.ne_of_gt hgt)
  | tokens => exact .inl ⟨rfl, fun _ _ => Iff.rfl⟩
  | post htask hphase =>
    refine .inl ⟨rfl, fun i p => inFlight_of_alive htask rfl ?_ nofun⟩
    rw [hphase]
    exact nofun
  | finish htask hphase =>
    refine .inl ⟨rfl, fun i p => inFlight_of_alive htask rfl ?_ nofun⟩
    rw [hphase]
    exact nofun
  | @drop j task htask hphase =>
    refine .inr (.inr ⟨j, task.recipient, ⟨task, htask, rfl, ?_⟩, rfl, fun i p => ?_⟩)
    · rw [hphase]
      exact nofun
    · show (s.setTask j { task with phase := .dropped }).InFlight i p ↔ _
      rw [inFlight_setTask htask]
      split
      next heq => exact ⟨fun h => absurd rfl h.2, fun h => absurd heq.symm h.2⟩
      next hne => exact ⟨fun h => ⟨h, Ne.symm hne⟩, And.left⟩

theorem GateInv.step (h : GateInv s) (hstep : PushStep s e s') : GateInv s' := by
  obtain ⟨hgate, hsame⟩ | ⟨r, hnew, hgate, hentry⟩ | ⟨k, r, hfly, hgate, hdrop⟩ := hstep.gate_cases
  · refine ⟨fun p => ?_, fun i j p hi hj => ?_⟩
    · rw [hgate, h.flying p]
      exact exists_congr fun i => (hsame i p).symm
    · exact h.single i j p ((hsame i p).mp hi) ((hsame j p).mp hj)
  · refine ⟨fun p => ?_, fun i j p hi hj => ?_⟩
    · rw [hgate, List.mem_cons, h.flying p]
      constructor
      · rintro (rfl | ⟨i, hi⟩)
        · exact ⟨s.tasks.length, (hentry _ _).mpr (.inr ⟨rfl, rfl⟩)⟩
        · exact ⟨i, (hentry i p).mpr (.inl hi)⟩
      · rintro ⟨i, hi⟩
        exact ((hentry i p).mp hi).elim (fun hi => .inr ⟨i, hi⟩) fun hlast => .inl hlast.2
    · -- the admitted recipient had no task in flight
      obtain hi | ⟨rfl, rfl⟩ := (hentry i p).mp hi
      · obtain hj | ⟨rfl, rfl⟩ := (hentry j p).mp hj
        · exact h.single i j p hi hj
        · exact absurd ((h.flying p).mpr ⟨i, hi⟩) hnew
      · obtain hj | ⟨rfl, _⟩ := (hentry j p).mp hj
        · exact absurd ((h.flying p).mpr ⟨j, hj⟩) hnew
        · rfl
  · refine ⟨fun p => ?_, fun i j p hi hj => ?_⟩
    · rw [hgate, PushGate.release, List.mem_filter, decide_eq_true_iff, h.flying p]
      constructor
      · rintro ⟨⟨i, hi⟩, hne⟩
        refine ⟨i, (hdrop i p).mpr ⟨hi, ?_⟩⟩
        rintro rfl
        exact hne (hi.recipient hfly)
      · rintro ⟨i, hi⟩
        obtain ⟨hi, hne⟩ := (hdrop i p).mp hi
        refine ⟨⟨i, hi⟩, ?_⟩
        rintro rfl
        exact hne (h.single i k p hi hfly)
    · exact h.single i j p ((hdrop i p).mp hi).1 ((hdrop j p).mp hj).1

/-- The set is right in every state a run can reach. -/
theorem gateInv {s₀ : PushSys} {ok : PushSys → PushEvent → Prop} (hstart : PushStarted s₀)
    (hrun : Reach PushStep ok s₀ s) : GateInv s := by
  refine hrun.invariant GateInv (fun h _ hstep => h.step hstep) ?_
  have hnone : ∀ i p, ¬ s₀.InFlight i p := by
    rintro i p ⟨task, htask, _⟩
    rw [hstart.tasks] at htask
    cases htask
  refine ⟨fun p => ?_, fun i j p hi => absurd hi (hnone i p)⟩
  rw [hstart.gate]
  exact ⟨fun h => absurd h List.not_mem_nil, fun ⟨i, hi⟩ => absurd hi (hnone i p)⟩

end Gate

/-! ## Frames that are queued in time -/

/-- The frame of a handler that has queued it. -/
def SendHandler.queued : SendHandler → Option QueuedSend
  | .queueing _ => none
  | .rechecking q => some q
  | .looking q => some q
  | .admitting q => some q

/-- The tasks in flight for the recipients of queued frames have their POST before
them, or issued it when the frame was in the queue. -/
def QueuedInTime (s : PushSys) : Prop :=
  ∀ h ∈ s.sends, ∀ q, h.queued = some q → q.queuedAt < s.clock ∧
    ∀ (i : Nat) (task : WakeTask), s.tasks[i]? = some task → task.recipient = q.frame.toId →
      task.phase ≠ .dropped → task.PostAfter q.queuedAt

section InTime

variable {s s' : PushSys} {e : PushEvent}

/-- A frame a handler has behind its step was in its hands, or has just been
queued. -/
theorem SendHandler.exec_queued {now : UInt64} {h h' : SendHandler}
    (hnext : (h.exec s now).2 = some h') {q : QueuedSend} (hq : h'.queued = some q) :
    h.queued = some q ∨ h = .queueing q.frame ∧ q.queuedAt = s.clock := by
  cases h with
  | queueing a =>
    cases hnext
    cases hq
    exact .inr ⟨rfl, rfl⟩
  | rechecking q' =>
    rw [SendHandler.exec] at hnext
    split at hnext
    · cases hnext
    · cases hnext
      exact .inl hq
  | looking q' =>
    simp only [SendHandler.exec] at hnext
    split at hnext
    · cases hnext
      exact .inl hq
    · cases hnext
  | admitting q' =>
    rw [SendHandler.exec] at hnext
    split at hnext
    · cases hnext
    · cases hnext

/-- Where a queued frame of the state behind a step comes from. -/
theorem PushStep.queued (hstep : PushStep s e s') {h' : SendHandler} (hin : h' ∈ s'.sends)
    {q : QueuedSend} (hq : h'.queued = some q) :
    (∃ h ∈ s.sends, h.queued = some q) ∨
      (∃ now, e = .exec (.queueing q.frame) now) ∧ q.queuedAt = s.clock ∧ s'.tasks = s.tasks := by
  cases hstep with
  | relay _ _ => exact .inl ⟨h', hin, hq⟩
  | @send a _ _ =>
    simp only [PushSys.tick, PushSys.send] at hin
    split at hin
    · exact .inl ⟨h', hin, hq⟩
    · obtain hin | hin := List.mem_append.mp hin
      · exact .inl ⟨h', hin, hq⟩
      · rw [List.mem_singleton.mp hin] at hq
        cases hq
  | @exec pre post h now hsends =>
    have hmem : ∀ h₁ : SendHandler, h₁ ∈ pre ∨ h₁ ∈ post → h₁ ∈ s.sends := fun h₁ hor => by
      rw [hsends]
      exact List.mem_append.mpr (hor.imp id (List.mem_cons_of_mem h))
    rcases List.mem_append.mp hin with hin | hin
    · rcases List.mem_append.mp hin with hin | hin
      · exact .inl ⟨h', hmem h' (.inl hin), hq⟩
      · rw [Option.mem_toList] at hin
        obtain hold | ⟨rfl, hclock⟩ := SendHandler.exec_queued hin hq
        · refine .inl ⟨h, ?_, hold⟩
          rw [hsends]
          exact List.mem_append_right _ List.mem_cons_self
        · exact .inr ⟨⟨now, rfl⟩, hclock, rfl⟩
    · exact .inl ⟨h', hmem h' (.inr hin), hq⟩
  | tokens => exact .inl ⟨h', hin, hq⟩
  | post _ _ => exact .inl ⟨h', hin, hq⟩
  | finish _ _ => exact .inl ⟨h', hin, hq⟩
  | drop _ _ => exact .inl ⟨h', hin, hq⟩

theorem QueuedInTime.step (h : QueuedInTime s) (hok : QueuesBeforePost s e)
    (hstep : PushStep s e s') : QueuedInTime s' := by
  intro h' hin q hq
  rw [hstep.clock_eq]
  obtain ⟨h₀, hin₀, hq₀⟩ | ⟨⟨now, he⟩, hclock, hsame⟩ := hstep.queued hin hq
  · obtain ⟨htime, htasks⟩ := h h₀ hin₀ q hq₀
    refine ⟨Nat.lt_succ_of_lt htime, fun i task' htask' hrecipient halive => ?_⟩
    obtain ⟨task, htask, hnext⟩ | ⟨hsleeping, _⟩ := hstep.task htask'
    · refine hnext.postAfter htime (htasks i task htask ?_ (hnext.alive halive))
      rw [← hnext.recipient_eq]
      exact hrecipient
    · exact .inl hsleeping
  · refine ⟨hclock ▸ Nat.lt_succ_self _, fun i task htask hrecipient halive => ?_⟩
    rw [hsame] at htask
    exact .inl ((hok q.frame now he i task htask hrecipient).resolve_right halive)

end InTime

/-- In every run in which no frame is queued while a task of its recipient is
between its POST and the drop of its guard: a frame whose wake-up is skipped has
a task in flight for its recipient, and that task issues its POST after the frame
was queued. -/
theorem coalesced_wakes_later {s₀ s : PushSys} {q : QueuedSend} (hstart : PushStarted s₀)
    (hrun : Reach PushStep QueuesBeforePost s₀ s) (hskip : s.Coalesces q) :
    (∃ i, s.InFlight i q.frame.toId) ∧
      ∀ i, s.InFlight i q.frame.toId → s.PostsAfter i q.queuedAt := by
  have hgate := gateInv hstart hrun
  have htimely : QueuedInTime s := by
    refine hrun.invariant QueuedInTime (fun h hok hstep => h.step hok hstep) fun h hin => ?_
    rw [hstart.sends] at hin
    cases hin
  obtain ⟨hin, hcoalesced⟩ := hskip
  obtain ⟨htime, htasks⟩ := htimely _ hin q rfl
  constructor
  · refine (hgate.flying q.frame.toId).mp ?_
    unfold PushGate.tryAdmit at hcoalesced
    split at hcoalesced
    · cases hcoalesced
    · split at hcoalesced
      next hmem => exact hmem
      next => cases hcoalesced
  · rintro i ⟨task, htask, hrecipient, halive⟩
    exact PushSys.postsAfter htime htask (htasks i task htask hrecipient halive)

/-! ## A frame that is queued behind the POST -/

/-- No POST is dated in the future. -/
theorem posted_before {s₀ s : PushSys} {ok : PushSys → PushEvent → Prop}
    (hstart : PushStarted s₀) (hrun : Reach PushStep ok s₀ s) :
    ∀ (i : Nat) (task : WakeTask) (t : Nat), s.tasks[i]? = some task → task.postedAt = some t →
      t < s.clock := by
  refine hrun.invariant (fun s => ∀ (i : Nat) (task : WakeTask) (t : Nat),
    s.tasks[i]? = some task → task.postedAt = some t → t < s.clock) (fun h _ hstep => ?_) ?_
  · intro i task' t htask' ht
    rw [hstep.clock_eq]
    obtain ⟨task, htask, hnext⟩ | ⟨_, hnone⟩ := hstep.task htask'
    · have hold := h i task t htask
      cases hnext with
      | same => exact Nat.lt_succ_of_lt (hold ht)
      | post _ =>
        cases ht
        exact Nat.lt_succ_self _
      | finish _ => exact Nat.lt_succ_of_lt (hold ht)
      | drop _ => exact Nat.lt_succ_of_lt (hold ht)
    · rw [hnone] at ht
      cases ht
  · intro i task t htask
    rw [hstart.tasks] at htask
    cases htask

/-- A handler's step that leaves something of it. -/
theorem PushStep.execTo {s s₁ : PushSys} {pre post : List SendHandler} {h h' : SendHandler}
    {now : UInt64} (hsends : s.sends = pre ++ h :: post) (hexec : h.exec s now = (s₁, some h')) :
    PushStep s (.exec h now) { s₁ with sends := pre ++ h' :: post }.tick := by
  have hstep : PushStep s (.exec h now) _ := .exec hsends
  rw [hexec, Option.toList_some, List.append_assoc] at hstep
  exact hstep

/-- The condition is needed. If a frame for an offline recipient with a token is
about to be queued, the recipient's task is past its POST, and its guard is not
dropped, then the handler, left to itself, skips the wake-up, and the POST of the
task in flight was before the frame was queued. -/
theorem posted_task_swallows {s₀ s : PushSys} {ok : PushSys → PushEvent → Prop}
    (hstart : PushStarted s₀) (hrun : Reach PushStep ok s₀ s) {pre post : List SendHandler}
    {a : Accepted} (hsends : s.sends = pre ++ .queueing a :: post) {i : Nat} {task : WakeTask}
    (htask : s.tasks[i]? = some task) (hrecipient : task.recipient = a.toId)
    (hposted : task.phase ≠ .sleeping) (halive : task.phase ≠ .dropped)
    (hoffline : s.relay.tables.liveRoute a.toId = none)
    (htoken : s.apns = true ∧ a.toId ∈ s.tokens) (hpermit : s.gate.available ≠ 0) :
    ∃ s', Reach PushStep (fun _ _ => True) s s' ∧
      s'.relay.tables = s.relay.tables.enqueuePending 0 a ∧ s'.Coalesces ⟨a, s.clock⟩ ∧
      s'.InFlight i a.toId ∧ ¬ s'.PostsAfter i s.clock := by
  have hfly : s.InFlight i a.toId := ⟨task, htask, hrecipient, halive⟩
  have hmem : a.toId ∈ s.gate.inFlight := ((gateInv hstart hrun).flying a.toId).mpr ⟨i, hfly⟩
  -- enqueue, test the route, look up the token
  let q : QueuedSend := ⟨a, s.clock⟩
  let s₁ : PushSys := { s with
    relay := { s.relay with tables := s.relay.tables.enqueuePending 0 a }
    sends := pre ++ .rechecking q :: post
    clock := s.clock + 1 }
  let s₂ : PushSys := { s₁ with
    sends := pre ++ .looking q :: post
    clock := s.clock + 2 }
  let s₃ : PushSys := { s₂ with
    sends := pre ++ .admitting q :: post
    clock := s.clock + 3 }
  have hqueue : PushStep s (.exec (.queueing a) 0) s₁ := .execTo hsends rfl
  have hroute : s₁.relay.tables.routeIsLive q.frame.toId = false := by
    obtain ⟨hroutes, hclosed⟩ := s.relay.tables.enqueuePending_routes 0 a
    show ((s.relay.tables.enqueuePending 0 a).liveRoute a.toId).isSome = false
    rw [Tables.liveRoute, hroutes, hclosed]
    exact congrArg Option.isSome hoffline
  have hrecheck : PushStep s₁ (.exec (.rechecking q) 0) s₂ := by
    have hexec : (SendHandler.rechecking q).exec s₁ 0 = (s₁, some (.looking q)) := by
      rw [SendHandler.exec, hroute]
      rfl
    exact .execTo rfl hexec
  have hlook : PushStep s₂ (.exec (.looking q) 0) s₃ := by
    have hexec : (SendHandler.looking q).exec s₂ 0 = (s₂, some (.admitting q)) := by
      rw [SendHandler.exec, if_pos htoken]
    exact .execTo rfl hexec
  have hthree : Reach PushStep (fun _ _ => True) s s₃ :=
    ((Reach.refl.snoc hqueue trivial).snoc hrecheck trivial).snoc hlook trivial
  refine ⟨s₃, hthree, rfl, ⟨List.mem_append_right _ List.mem_cons_self, ?_⟩, hfly,
    fun hafter => ?_⟩
  · show (s.gate.tryAdmit a.toId).2 = .coalesced
    rw [PushGate.tryAdmit, if_neg hpermit, if_pos hmem]
  · obtain ⟨task', htask', hpost⟩ := hafter s₃ .refl
    have hsame : s.tasks[i]? = some task' := htask'
    rw [htask] at hsame
    cases hsame
    obtain hsleeping | ⟨t, ht, hlt⟩ := hpost
    · exact hposted hsleeping
    · exact Nat.lt_asymm hlt (posted_before hstart hrun i task t htask ht)

/-! ## A sample run -/

/-- The next step of the first handler. -/
def PushSys.execHead (s : PushSys) (now : UInt64) : PushSys :=
  match s.sends with
  | [] => s
  | h :: rest => { (h.exec s now).1 with sends := (h.exec s now).2.toList ++ rest }.tick

theorem step_execHead {s : PushSys} {h : SendHandler} {rest : List SendHandler}
    (hsends : s.sends = h :: rest) (now : UInt64) :
    PushStep s (.exec h now) (s.execHead now) := by
  have hstep : PushStep s (.exec h now) _ := .exec (show s.sends = [] ++ h :: rest from hsends)
  rw [PushSys.execHead, hsends]
  exact hstep

/-- The peer `[1]` is offline and has a push token. -/
def startedPush : PushSys where
  relay := emptyRelay
  sends := []
  apns := true
  tokens := [[1]]
  gate := PushGate.new MAX_INFLIGHT_PUSH
  tasks := []
  clock := 0

theorem started_startedPush : PushStarted startedPush := ⟨started_emptyRelay, rfl, rfl, rfl⟩

/-- One frame for it was queued; its wake-up task sleeps. -/
def sleepingPush : PushSys :=
  ((((startedPush.send sampleFrame).tick.execHead 0).execHead 0).execHead 0).execHead 0

/-- The task issued its POST, and the peer connected, drained its queue and
disconnected. -/
def drainedPush : PushSys :=
  let posted := (sleepingPush.setTask 0 ⟨[1], .posting, some sleepingPush.clock⟩).tick
  let relay := ((sleepingPush.relay.hello [1]).execAt 0 0 0).execAt 0 0 1
  { posted with
    relay := { relay with tables := relay.tables.disconnect [1] 0 }
    clock := posted.clock + 4 }

/-- Another frame for the peer. -/
def secondFrame : Accepted := { sampleFrame with tag := 1 }

theorem reach_sleepingPush :
    Reach PushStep QueuesBeforePost startedPush sleepingPush := by
  have hsend : PushStep startedPush (.send sampleFrame) (startedPush.send sampleFrame).tick :=
    .send rfl rfl
  refine ((((Reach.refl.snoc hsend ?_).snoc (step_execHead rfl 0) ?_).snoc (step_execHead rfl 0)
    ?_).snoc (step_execHead rfl 0) ?_).snoc (step_execHead rfl 0) ?_
  · exact nofun
  · exact fun _ _ _ _ _ htask => absurd htask nofun
  · exact nofun
  · exact nofun
  · exact nofun

theorem reach_drainedPush :
    Reach PushStep (fun _ _ => True) startedPush drainedPush := by
  have hpost : PushStep sleepingPush (.post 0)
      (sleepingPush.setTask 0 ⟨[1], .posting, some sleepingPush.clock⟩).tick := by
    have htask : sleepingPush.tasks[0]? = some ⟨[1], .sleeping, none⟩ := rfl
    exact .post htask rfl
  -- the recipient's connection, as in `Routing`
  have hother : ∀ {s : PushSys} (ev : RelayEvent) {relay : RelayState},
      (∀ a, ev ≠ .send a) → RelayStep s.relay ev relay →
        PushStep s (.relay ev) { s with relay }.tick :=
    fun ev _ hne hstep => .relay (fun a heq => absurd heq (hne a)) hstep
  have hdrain := step_execAt (s := sleepingPush.relay.hello [1]) 0 0 0 (by decide)
  have hforward := step_execAt (s := (sleepingPush.relay.hello [1]).execAt 0 0 0) 0 0 1 (by decide)
  have hleave : RelayStep (((sleepingPush.relay.hello [1]).execAt 0 0 0).execAt 0 0 1)
      (.disconnect [1] 0) _ := .disconnect (by decide)
  have hposted := (reach_sleepingPush.imp fun _ _ _ => trivial).snoc hpost trivial
  exact (((hposted.snoc (hother (.hello [1]) nofun .hello) trivial).snoc
    (hother (.exec 0 0) nofun hdrain) trivial).snoc (hother (.exec 0 1) nofun hforward)
    trivial).snoc (hother (.disconnect [1] 0) nofun hleave) trivial

/-- A second frame comes while the task sleeps. It is skipped, and the POST is
still to come. -/
def burstPush : PushSys :=
  (((sleepingPush.send secondFrame).tick.execHead 0).execHead 0).execHead 0

theorem coalesced_wakes_later_burst :
    (∃ i, burstPush.InFlight i [1]) ∧ ∀ i, burstPush.InFlight i [1] → burstPush.PostsAfter i 6 := by
  have hsend : PushStep sleepingPush (.send secondFrame) (sleepingPush.send secondFrame).tick :=
    .send rfl rfl
  have hrun : Reach PushStep QueuesBeforePost startedPush burstPush := by
    refine (((reach_sleepingPush.snoc hsend ?_).snoc (step_execHead rfl 0) ?_).snoc
      (step_execHead rfl 0) ?_).snoc (step_execHead rfl 0) ?_
    · exact nofun
    · intro a now _ i task htask _
      have hin : task ∈ [(⟨[1], .sleeping, none⟩ : WakeTask)] := List.mem_of_getElem? htask
      rw [List.mem_singleton.mp hin]
      exact .inl rfl
    · exact nofun
    · exact nofun
  have hskip : burstPush.Coalesces ⟨secondFrame, 6⟩ := ⟨List.mem_singleton_self _, by decide⟩
  exact coalesced_wakes_later started_startedPush hrun hskip

/-- It comes after the POST, when the peer has been and gone. It is skipped, and
the POST was before it. -/
theorem second_frame_swallowed :
    ∃ s q i, Reach PushStep (fun _ _ => True) startedPush s ∧
      q.frame ∈ s.relay.tables.history.stored ∧ s.Coalesces q ∧
      s.InFlight i q.frame.toId ∧ ¬ s.PostsAfter i q.queuedAt := by
  have hsend : PushStep drainedPush (.send secondFrame) (drainedPush.send secondFrame).tick :=
    .send rfl rfl
  have hrun := reach_drainedPush.snoc hsend trivial
  obtain ⟨s, hrest, htables, hskip, hfly, hbefore⟩ := posted_task_swallows (i := 0) started_startedPush
    hrun (show _ = [] ++ SendHandler.queueing secondFrame :: [] from rfl) rfl rfl nofun nofun
    (by decide) ⟨rfl, List.mem_singleton_self _⟩ nofun
  refine ⟨s, _, 0, hrun.trans hrest, ?_, hskip, hfly, hbefore⟩
  rw [htables]
  decide

end Pizzini.Relay
