import MidiToIp.Orchestrator.Server

set_option autoImplicit false

namespace MidiToIp.Orchestrator

open Machines Octets

def wsPingIntervalMs : Nat := 10000
def slowPlayerTimeoutMs : Nat := 5000

namespace Label

def resumes : Label → Option Nat
  | .read id _ => some id
  | .drained id _ => some id
  | _ => none

def hears : Label → Option Nat
  | .read id (some _) => some id
  | _ => none

def beats : Label → Option Nat
  | .heartbeat id => some id
  | .heartbeatDrained id _ => some id
  | _ => none

def elapses : Label → Nat
  | .tick ms => ms
  | _ => 0

end Label

namespace Server

inductive TaskStep (s : Server) (label : Label) (after : Server) (id : Nat) (task : Task) : Prop where
  | same (before : s.tasks id = some task) (resumes : label.resumes ≠ some id)
      (beats : label.beats ≠ some id)
  | joined (id_ : id = s.nextId) (elapses : label.elapses = 0) (lastRx : task.lastRx = s.now)
      (awaiting : task.awaiting = .recv)
      (heartbeat : task.heartbeat = if task.carrier.isWs then .sleeping else .off)
      (fresh : task.carrier = .tcp ∨ task.carrier = .ws {})
  | read (raw : Bytes) (is : label = .read id (some raw)) (before : Task)
      (found : s.tasks id = some before) (player : task.player = before.player)
      (carrier : task.carrier.isWs = before.carrier.isWs) (lastRx : task.lastRx = s.now)
      (heartbeat : task.heartbeat = before.heartbeat)
      (received : before.carrier.recv raw = .more task.carrier ∨
        ∃ data, before.carrier.recv raw = .data task.carrier data)
  | drained (outcome : Drain) (is : label = .drained id outcome) (before : Task)
      (found : s.tasks id = some before) (waited : before.awaiting ≠ .recv)
      (task_ : task = { before with awaiting := .recv })
  | pings (is : label = .heartbeat id) (before : Task) (found : s.tasks id = some before)
      (slept : before.heartbeat = .sleeping) (live : s.now - before.lastRx ≤ wsIdleTimeoutMs)
      (task_ : task = { before with heartbeat := .draining })
  | pinged (is : label = .heartbeatDrained id true) (before : Task) (found : s.tasks id = some before)
      (waited : before.heartbeat = .draining) (task_ : task = { before with heartbeat := .sleeping })
  | dropped (beats : label.beats = some id) (before : Task) (found : s.tasks id = some before)
      (task_ : task = { before with heartbeat := .off }) (closed : task.player.conn ∈ after.closed)

theorem tasks_setTask (s : Server) (id other : Nat) (task : Option Task) :
    (s.setTask id task).tasks other = if other = id then task else s.tasks other := rfl

theorem tasks_dropPlayer (s : Server) (player : Player) : (s.dropPlayer player).tasks = s.tasks := rfl

theorem recv_isWs (carrier : Carrier) (raw : Bytes) :
    (∀ after, carrier.recv raw = .more after → after.isWs = carrier.isWs) ∧
      ∀ after data, carrier.recv raw = .data after data → after.isWs = carrier.isWs := by
  cases carrier with
  | tcp =>
    unfold Carrier.recv
    split_ifs
    · simp
    · refine ⟨by simp, fun after data received => ?_⟩
      obtain ⟨rfl, -⟩ := Received.data.inj received
      rfl
  | ws dec =>
    unfold Carrier.recv
    split_ifs
    · simp
    simp only
    split
    · simp
    · split <;> simp +contextual [Carrier.isWs]

theorem TaskStep.set {s after : Server} {label : Label} {id player : Nat} {task new : Task}
    (tasks : after.tasks = (s.setTask player (some new)).tasks) (held : after.tasks id = some task)
    (resumes : ∀ other ∈ label.resumes, other = player) (beats : ∀ other ∈ label.beats, other = player)
    (own : TaskStep s label after player new) : TaskStep s label after id task := by
  rw [tasks, tasks_setTask] at held
  split at held
  next self =>
    obtain rfl := Option.some.inj held
    exact self ▸ own
  next other => exact .same held (fun mine => other (resumes id mine)) fun mine => other (beats id mine)

theorem TaskStep.quiet {s after : Server} {label : Label} {id : Nat} {task : Task}
    (tasks : after.tasks = s.tasks) (held : after.tasks id = some task) (resumes : label.resumes = none)
    (beats : label.beats = none) : TaskStep s label after id task :=
  .same (tasks ▸ held) (by simp [resumes]) (by simp [beats])

theorem TaskStep.joins {s middle : Server} {label : Label} {conn id : Nat} {carrier : Carrier} {roomKey : String}
    {task : Task} (held : (middle.handleConn conn carrier roomKey).tasks id = some task)
    (resumes : label.resumes = none) (beats : label.beats = none) (elapses : label.elapses = 0)
    (tasks : middle.tasks = s.tasks) (now : middle.now = s.now) (nextId : middle.nextId = s.nextId)
    (fresh : carrier = .tcp ∨ carrier = .ws {}) :
    TaskStep s label (middle.handleConn conn carrier roomKey) id task := by
  unfold handleConn at held
  simp only at held
  split at held
  · exact .same (tasks ▸ held) (by simp [resumes]) (by simp [beats])
  · rw [tasks_setTask] at held
    split at held
    next self =>
      obtain rfl := Option.some.inj held
      exact .joined (self.trans nextId) elapses now rfl rfl fresh
    next => exact .same (tasks ▸ held) (by simp [resumes]) (by simp [beats])

theorem TaskStep.ends {s : Server} {label : Label} {id : Nat} {task ended : Task}
    (held : (s.finish ended).tasks id = some task) (resumes : label.resumes = some ended.player.id)
    (beats : label.beats = none) : TaskStep s label (s.finish ended) id task := by
  rw [finish, tasks_setTask] at held
  split at held
  · simp at held
  next other => exact .same held (by simpa [resumes] using Ne.symm other) (by simp [beats])

theorem next_taskStep (s after : Server) (label : Label) (keyed : s.Keyed)
    (step : s.next label = some after) (id : Nat) (task : Task) (held : after.tasks id = some task) :
    TaskStep s label after id task := by
  cases label with
  | tick ms =>
    obtain rfl := Option.some.inj step
    exact .quiet rfl held rfl rfl
  | tcpConnect conn =>
    obtain rfl := Option.some.inj step
    exact .joins held rfl rfl rfl rfl rfl rfl (.inl rfl)
  | wsRequest conn roomKey =>
    obtain rfl := Option.some.inj step
    refine .quiet ?_ held rfl rfl
    unfold Server.wsRequest
    split_ifs <;> rfl
  | wsDrained conn ok =>
    obtain ⟨roomKey, -, rfl⟩ := Option.map_eq_some_iff.mp step
    cases ok with
    | false => exact .quiet rfl held rfl rfl
    | true => exact .joins held rfl rfl rfl rfl rfl rfl (.inr rfl)
  | read player raw =>
    obtain ⟨before, found, goesOn⟩ := Option.bind_eq_some_iff.mp step
    obtain rfl := keyed.task player before found
    split_ifs at goesOn
    have reads (other : Nat) (mine : other ∈ (Label.read before.player.id raw).resumes) :
        other = before.player.id := (Option.some.inj mine).symm
    cases raw with
    | none =>
      obtain rfl := Option.some.inj goesOn
      exact .ends held rfl rfl
    | some raw =>
      obtain rfl := Option.some.inj goesOn
      unfold Server.read at held ⊢
      split at held
      next received => exact .ends held rfl rfl
      next received => exact .ends held rfl rfl
      next carrier received =>
        exact .set rfl held reads nofun (.read raw rfl before found rfl
          ((recv_isWs before.carrier raw).1 carrier received) rfl rfl (.inl received))
      next carrier data received =>
        have kept := (recv_isWs before.carrier raw).2 carrier data received
        unfold Server.relay at held ⊢
        split at held <;> exact .set rfl held reads nofun (.read raw rfl before found rfl kept rfl rfl
          (.inr ⟨data, received⟩))
  | drained player outcome =>
    obtain ⟨before, found, goesOn⟩ := Option.bind_eq_some_iff.mp step
    obtain rfl := keyed.task player before found
    split at goesOn
    next => simp at goesOn
    next target awaiting =>
      obtain rfl := Option.some.inj goesOn
      have resumed (tasks : (s.drained before target outcome).tasks =
          (s.setTask before.player.id (some { before with awaiting := .recv })).tasks) :
          TaskStep s (.drained before.player.id outcome) (s.drained before target outcome) id task :=
        .set tasks held (fun other mine => (Option.some.inj mine).symm) nofun
          (.drained outcome rfl before found (by rw [awaiting]; simp) rfl)
      cases outcome with
      | done => exact resumed rfl
      | timeout => exact resumed rfl
      | connectionError => exact resumed rfl
      | crash => exact .ends held rfl rfl
  | heartbeat player =>
    obtain ⟨before, found, step⟩ := Option.bind_eq_some_iff.mp step
    have beats (other : Nat) (mine : other ∈ (Label.heartbeat player).beats) : other = player :=
      (Option.some.inj mine).symm
    split_ifs at step with sleeping idle
    · obtain rfl := Option.some.inj step
      exact .set rfl held nofun beats (.dropped rfl before found rfl
        (List.mem_append_right _ (List.mem_singleton_self _)))
    · obtain rfl := Option.some.inj step
      exact .set rfl held nofun beats (.pings rfl before found sleeping (Nat.not_lt.mp idle) rfl)
  | heartbeatDrained player ok =>
    obtain ⟨before, found, step⟩ := Option.bind_eq_some_iff.mp step
    have beats (other : Nat) (mine : other ∈ (Label.heartbeatDrained player ok).beats) : other = player :=
      (Option.some.inj mine).symm
    split_ifs at step with draining fine
    · obtain rfl := Option.some.inj step
      subst fine
      exact .set rfl held nofun beats (.pinged rfl before found draining rfl)
    · obtain rfl := Option.some.inj step
      exact .set rfl held nofun beats (.dropped rfl before found rfl
        (List.mem_append_right _ (List.mem_singleton_self _)))
  | create key =>
    obtain rfl := Option.some.inj step
    exact .quiet rfl held rfl rfl
  | delete key =>
    obtain rfl := Option.some.inj step
    exact .quiet rfl held rfl rfl
  | reap ttl =>
    obtain rfl := Option.some.inj step
    exact .quiet rfl held rfl rfl

structure Onward (s after : Server) (ms : Nat) : Prop where
  closed : s.closed ⊆ after.closed
  now : after.now = s.now + ms
  nextId : s.nextId ≤ after.nextId

theorem handleConn_onward (s : Server) (conn : Nat) (carrier : Carrier) (roomKey : String) :
    Onward s (s.handleConn conn carrier roomKey) 0 := by
  unfold handleConn
  simp only
  split
  · exact ⟨List.subset_append_left _ _, rfl, Nat.le_refl _⟩
  · exact ⟨List.Subset.refl _, rfl, Nat.le_succ _⟩

theorem finish_onward (s : Server) (task : Task) : Onward s (s.finish task) 0 :=
  ⟨List.subset_append_left _ _, rfl, Nat.le_refl _⟩

theorem relay_onward (s : Server) (task : Task) (data : Bytes) (reads : List (Player × Bytes)) :
    Onward s (relay task data { s with reads := reads }) 0 := by
  unfold Server.relay
  split <;> exact ⟨List.Subset.refl _, rfl, Nat.le_refl _⟩

theorem next_onward (s after : Server) (label : Label) (step : s.next label = some after) :
    Onward s after label.elapses := by
  have still : Onward s s 0 := ⟨List.Subset.refl _, rfl, Nat.le_refl _⟩
  cases label with
  | tick ms =>
    obtain rfl := Option.some.inj step
    exact ⟨List.Subset.refl _, rfl, Nat.le_refl _⟩
  | tcpConnect conn =>
    obtain rfl := Option.some.inj step
    exact handleConn_onward s conn .tcp defaultRoom
  | wsRequest conn roomKey =>
    obtain rfl := Option.some.inj step
    unfold Server.wsRequest
    split_ifs
    · exact ⟨List.subset_append_left _ _, rfl, Nat.le_refl _⟩
    · exact ⟨List.subset_append_left _ _, rfl, Nat.le_refl _⟩
    · exact ⟨List.Subset.refl _, rfl, Nat.le_refl _⟩
  | wsDrained conn ok =>
    obtain ⟨roomKey, -, rfl⟩ := Option.map_eq_some_iff.mp step
    cases ok with
    | false => exact ⟨List.subset_append_left _ _, rfl, Nat.le_refl _⟩
    | true =>
      have joined := handleConn_onward
        { s with handshakes := s.handshakes.filter fun entry => entry.1 ≠ conn } conn (.ws {}) roomKey
      exact ⟨joined.closed, joined.now, joined.nextId⟩
  | read player raw =>
    obtain ⟨task, -, step⟩ := Option.bind_eq_some_iff.mp step
    split_ifs at step
    cases raw with
    | none =>
      obtain rfl := Option.some.inj step
      exact finish_onward s task
    | some raw =>
      obtain rfl := Option.some.inj step
      unfold Server.read
      split
      · exact finish_onward s task
      · exact finish_onward s task
      · exact ⟨List.Subset.refl _, rfl, Nat.le_refl _⟩
      · exact relay_onward s _ _ _
  | drained player outcome =>
    obtain ⟨task, -, step⟩ := Option.bind_eq_some_iff.mp step
    split at step
    next => simp at step
    next target _ =>
      obtain rfl := Option.some.inj step
      cases outcome with
      | done => exact ⟨List.Subset.refl _, rfl, Nat.le_refl _⟩
      | timeout => exact ⟨List.subset_append_left _ _, rfl, Nat.le_refl _⟩
      | connectionError => exact ⟨List.Subset.refl _, rfl, Nat.le_refl _⟩
      | crash => exact finish_onward s task
  | heartbeat player =>
    obtain ⟨task, -, step⟩ := Option.bind_eq_some_iff.mp step
    split_ifs at step <;> obtain rfl := Option.some.inj step
    · exact ⟨List.subset_append_left _ _, rfl, Nat.le_refl _⟩
    · exact ⟨List.Subset.refl _, rfl, Nat.le_refl _⟩
  | heartbeatDrained player ok =>
    obtain ⟨task, -, step⟩ := Option.bind_eq_some_iff.mp step
    split_ifs at step <;> obtain rfl := Option.some.inj step
    · exact ⟨List.Subset.refl _, rfl, Nat.le_refl _⟩
    · exact ⟨List.subset_append_left _ _, rfl, Nat.le_refl _⟩
  | create key =>
    obtain rfl := Option.some.inj step
    exact ⟨List.Subset.refl _, rfl, Nat.le_refl _⟩
  | delete key =>
    obtain rfl := Option.some.inj step
    exact ⟨List.subset_append_left _ _, rfl, Nat.le_refl _⟩
  | reap ttl =>
    obtain rfl := Option.some.inj step
    exact ⟨List.Subset.refl _, rfl, Nat.le_refl _⟩

end Server

/-- The orchestrator, with the times at which each peer was heard last, and since when its handler
and its heartbeat wait. -/
structure Watch where
  server : Server
  heard : Nat → Nat := fun _ => 0
  awaits : Nat → Nat := fun _ => 0
  beats : Nat → Nat := fun _ => 0

namespace Watch

def stamp (watch : Watch) (of : Option Nat) (times : Nat → Nat) (id : Nat) : Nat :=
  if of = some id ∨ watch.server.nextId ≤ id then watch.server.now else times id

def next (watch : Watch) (label : Label) : Option Watch :=
  (watch.server.next label).map fun server =>
    { server := server
      heard := watch.stamp label.hears watch.heard
      awaits := watch.stamp label.resumes watch.awaits
      beats := watch.stamp label.beats watch.beats }

theorem stamp_now (watch : Watch) (of : Option Nat) (times : Nat → Nat) (id : Nat)
    (about : of = some id ∨ watch.server.nextId ≤ id) : watch.stamp of times id = watch.server.now :=
  if_pos about

theorem stamp_kept (watch : Watch) (of : Option Nat) (times : Nat → Nat) (id : Nat)
    (other : of ≠ some id) (known : id < watch.server.nextId) : watch.stamp of times id = times id :=
  if_neg (not_or.mpr ⟨other, Nat.not_le.mpr known⟩)

theorem next_owned (watch after : Watch) (label : Label) (owned : watch.server.Owned)
    (step : watch.next label = some after) : after.server.Owned := by
  obtain ⟨server, stepped, rfl⟩ := Option.map_eq_some_iff.mp step
  exact (Server.next_effect watch.server server label owned.keyed stepped).owned owned

end Watch

def watchMachine : Machine Watch Label := ⟨Watch.next⟩

theorem hears_resumes (label : Label) (id : Nat) (other : label.resumes ≠ some id) :
    label.hears ≠ some id := by
  cases label with
  | read player raw => cases raw <;> simp_all [Label.hears, Label.resumes]
  | _ => simp [Label.hears]

theorem beats_hears (label : Label) (id : Nat) (beats : label.beats = some id) :
    label.hears ≠ some id := by
  cases label <;> simp_all [Label.hears, Label.beats]

theorem Server.Owned.known {s : Server} (owned : s.Owned) (id : Nat) (task : Task)
    (found : s.tasks id = some task) : id < s.nextId := by
  by_contra beyond
  have none_ := owned.below id (Nat.not_lt.mp beyond)
  simp [Server.owner, found] at none_

-- How late a sleep ends at most, and how long it takes at most to write a ping out.
structure Pace where
  late : Nat
  ping : Nat

def Pace.due (pace : Pace) (since : Nat) : Heartbeat → Option Nat
  | .off => none
  | .sleeping => some (since + wsPingIntervalMs + pace.late)
  | .draining => some (since + pace.ping)

def Pace.punctual (pace : Pace) (watch : Watch) : Label → Prop
  | .tick ms => ∀ id < watch.server.nextId, ∀ task ∈ watch.server.tasks id,
      ∀ due ∈ pace.due (watch.beats id) task.heartbeat, watch.server.now + ms ≤ due
  | _ => True

instance (pace : Pace) (watch : Watch) : (label : Label) → Decidable (pace.punctual watch label)
  | .tick ms =>
    inferInstanceAs (Decidable (∀ id < watch.server.nextId, ∀ task ∈ watch.server.tasks id,
      ∀ due ∈ pace.due (watch.beats id) task.heartbeat, watch.server.now + ms ≤ due))
  | .tcpConnect _ | .wsRequest _ _ | .wsDrained _ _ | .read _ _ | .drained _ _ | .heartbeat _
  | .heartbeatDrained _ _ | .create _ | .delete _ | .reap _ => .isTrue trivial

def Pace.silence (pace : Pace) : Heartbeat → Nat
  | .draining => wsIdleTimeoutMs
  | _ => wsIdleTimeoutMs + pace.ping

/-- A task whose peer was heard at the time `heard`, and whose heartbeat waits since `since`. -/
structure Pace.Heard (pace : Pace) (s : Server) (heard since : Nat) (task : Task) : Prop where
  last : task.lastRx = heard
  past : heard ≤ s.now
  off : task.heartbeat = .off → task.carrier.isWs = true → task.player.conn ∈ s.closed
  silence : ∀ due ∈ pace.due since task.heartbeat,
    since ≤ heard + pace.silence task.heartbeat ∧ s.now ≤ due

def Pace.Watched (pace : Pace) (watch : Watch) : Prop :=
  ∀ id task, watch.server.tasks id = some task →
    pace.Heard watch.server (watch.heard id) (watch.beats id) task

theorem Pace.Watched.next {pace : Pace} {watch after : Watch} {label : Label}
    (watched : pace.Watched watch) (owned : watch.server.Owned) (punctual : pace.punctual watch label)
    (step : watch.next label = some after) : pace.Watched after := by
  obtain ⟨server, stepped, rfl⟩ := Option.map_eq_some_iff.mp step
  intro id task held
  change pace.Heard server (watch.stamp label.hears watch.heard id)
    (watch.stamp label.beats watch.beats id) task
  have onward := Server.next_onward watch.server server label stepped
  cases Server.next_taskStep watch.server server label owned.keyed stepped id task held with
  | same before resumes beats =>
    have known := owned.known id task before
    have was := watched id task before
    rw [watch.stamp_kept _ _ id (hears_resumes label id resumes) known,
      watch.stamp_kept _ _ id beats known]
    refine ⟨was.last, by rw [onward.now]; exact Nat.le_add_right_of_le was.past,
      fun off ws => onward.closed (was.off off ws), fun due due_ => ⟨(was.silence due due_).1, ?_⟩⟩
    rw [onward.now]
    cases label with
    | tick ms => exact punctual id known task before due due_
    | _ => exact (was.silence due due_).2
  | joined new elapses lastRx awaiting heartbeat =>
    have beyond := Nat.le_of_eq new.symm
    have still : server.now = watch.server.now := by rw [onward.now, elapses, Nat.add_zero]
    rw [watch.stamp_now _ _ id (.inr beyond), watch.stamp_now _ _ id (.inr beyond)]
    refine ⟨lastRx, Nat.le_of_eq still.symm, ?_, ?_⟩
    · intro off ws
      simp [heartbeat, ws] at off
    · intro due due_
      rw [still]
      rw [heartbeat] at due_ ⊢
      split at due_
      next ws =>
        obtain rfl := Option.some.inj due_
        exact ⟨Nat.le_add_right _ _, by omega⟩
      next => simp [Pace.due] at due_
  | read raw is before found player carrier lastRx heartbeat =>
    subst is
    have known := owned.known id before found
    have was := watched id before found
    rw [watch.stamp_now (Label.hears _) _ id (.inl rfl),
      watch.stamp_kept (Label.beats _) _ id (by simp [Label.beats]) known]
    refine ⟨lastRx, Nat.le_of_eq onward.now.symm, ?_, ?_⟩
    · intro off ws
      rw [player]
      exact onward.closed (was.off (heartbeat ▸ off) (carrier ▸ ws))
    · intro due due_
      rw [heartbeat] at due_ ⊢
      obtain ⟨since, before_⟩ := was.silence due due_
      rw [onward.now]
      exact ⟨by have := was.past; omega, before_⟩
  | drained outcome is before found waited task_ =>
    subst is task_
    have known := owned.known id before found
    have was := watched id before found
    rw [watch.stamp_kept (Label.hears _) _ id (by simp [Label.hears]) known,
      watch.stamp_kept (Label.beats _) _ id (by simp [Label.beats]) known]
    refine ⟨was.last, by rw [onward.now]; exact was.past, fun off ws => onward.closed (was.off off ws),
      fun due due_ => ?_⟩
    rw [onward.now]
    exact was.silence due due_
  | pings is before found slept live task_ =>
    subst is task_
    have known := owned.known id before found
    have was := watched id before found
    rw [watch.stamp_kept (Label.hears _) _ id (by simp [Label.hears]) known,
      watch.stamp_now (Label.beats _) _ id (.inl rfl)]
    refine ⟨was.last, by rw [onward.now]; exact was.past, by simp, fun due due_ => ?_⟩
    obtain rfl := Option.some.inj due_
    rw [onward.now]
    have := was.last
    exact ⟨by simp only [Pace.silence]; omega, Nat.le_add_right _ _⟩
  | pinged is before found waited task_ =>
    subst is task_
    have known := owned.known id before found
    have was := watched id before found
    rw [watch.stamp_kept (Label.hears _) _ id (by simp [Label.hears]) known,
      watch.stamp_now (Label.beats _) _ id (.inl rfl)]
    refine ⟨was.last, by rw [onward.now]; exact was.past, by simp, fun due due_ => ?_⟩
    obtain rfl := Option.some.inj due_
    obtain ⟨since, before_⟩ := was.silence _ (by rw [waited]; rfl)
    rw [waited] at since
    rw [onward.now]
    simp only [Pace.silence, Label.elapses] at since ⊢
    exact ⟨by omega, by omega⟩
  | dropped beats before found task_ closed =>
    subst task_
    have known := owned.known id before found
    have was := watched id before found
    rw [watch.stamp_kept _ _ id (beats_hears label id beats) known]
    exact ⟨was.last, by rw [onward.now]; exact Nat.le_add_right_of_le was.past, fun _ _ => closed,
      by simp [Pace.due]⟩

theorem silent_dropped (pace : Pace) (saved : List String) (labels : List Label) (watch : Watch)
    (run : watchMachine.Run pace.punctual { server := Server.start saved } labels watch) (id : Nat)
    (task : Task) (held : watch.server.tasks id = some task) (ws : task.carrier.isWs = true)
    (open_ : task.player.conn ∉ watch.server.closed) :
    watch.server.now ≤
      watch.heard id + wsIdleTimeoutMs + wsPingIntervalMs + pace.late + pace.ping := by
  have keeps : watch.server.Owned ∧ pace.Watched watch := by
    refine run.invariant (fun watch => watch.server.Owned ∧ pace.Watched watch)
      ⟨Server.start_owned saved, by simp [Pace.Watched, Server.start]⟩ ?_
    rintro watch label after ⟨owned, watched⟩ punctual step
    exact ⟨watch.next_owned after label owned step, watched.next owned punctual step⟩
  have was := keeps.2 id task held
  cases beating : task.heartbeat with
  | off => exact absurd (was.off beating ws) open_
  | sleeping =>
    obtain ⟨since, due⟩ := was.silence _ (by rw [beating]; rfl)
    rw [beating] at since
    simp only [Pace.silence] at since
    omega
  | draining =>
    obtain ⟨since, due⟩ := was.silence _ (by rw [beating]; rfl)
    rw [beating] at since
    simp only [Pace.silence] at since
    omega

theorem silent_dropped_browser :
    ∃ watch task, watchMachine.exec (Pace.mk 100 500).punctual { server := Server.start ["A"] }
        [.wsRequest 7 "A", .wsDrained 7 true, .tick 2000, .read 1 (some [0x82, 0x01, 0x90]),
          .drained 1 .done, .tick 8000, .heartbeat 1, .tick 400, .heartbeatDrained 1 true,
          .tick 10000, .heartbeat 1, .heartbeatDrained 1 true, .tick 10100, .heartbeat 1,
          .heartbeatDrained 1 true, .tick 10050] = some watch ∧
      watch.server.tasks 1 = some task ∧ task.player.conn ∉ watch.server.closed ∧
      watch.heard 1 = 2000 ∧ watch.server.now = 40550 ∧
      watch.server.now ≤ 2000 + wsIdleTimeoutMs + wsPingIntervalMs + 100 + 500 := by
  have checked : (watchMachine.exec (Pace.mk 100 500).punctual { server := Server.start ["A"] }
      [.wsRequest 7 "A", .wsDrained 7 true, .tick 2000, .read 1 (some [0x82, 0x01, 0x90]),
        .drained 1 .done, .tick 8000, .heartbeat 1, .tick 400, .heartbeatDrained 1 true,
        .tick 10000, .heartbeat 1, .heartbeatDrained 1 true, .tick 10100, .heartbeat 1,
        .heartbeatDrained 1 true, .tick 10050]).any
      (fun watch => (watch.server.tasks 1).any fun task => decide (task.carrier.isWs = true ∧
        task.player.conn ∉ watch.server.closed ∧ watch.heard 1 = 2000 ∧
          watch.server.now = 40550)) = true := by decide +kernel
  obtain ⟨watch, executed, inside⟩ := (Option.any_eq_true _ _).mp checked
  obtain ⟨task, held, results⟩ := (Option.any_eq_true _ _).mp inside
  obtain ⟨ws, open_, heard, now_⟩ := of_decide_eq_true results
  have bound := silent_dropped ⟨100, 500⟩ ["A"] _ watch (Machine.run_of_exec executed) 1 task held ws open_
  rw [heard] at bound
  exact ⟨watch, task, executed, held, open_, heard, now_, bound⟩

structure Peers where
  late : Nat
  gap : Nat

def Peers.within (peers : Peers) : Awaiting → Nat
  | .recv => peers.gap
  | .drain _ => slowPlayerTimeoutMs + peers.late

def Peers.lively (peers : Peers) (id : Nat) (watch : Watch) : Label → Prop
  | .tick ms => ∀ task ∈ watch.server.tasks id, task.heartbeat ≠ .off →
      watch.server.now + ms ≤ watch.awaits id + peers.within task.awaiting
  | _ => True

instance (peers : Peers) (id : Nat) (watch : Watch) : (label : Label) → Decidable (peers.lively id watch label)
  | .tick ms =>
    inferInstanceAs (Decidable (∀ task ∈ watch.server.tasks id, task.heartbeat ≠ .off →
      watch.server.now + ms ≤ watch.awaits id + peers.within task.awaiting))
  | .tcpConnect _ | .wsRequest _ _ | .wsDrained _ _ | .read _ _ | .drained _ _ | .heartbeat _
  | .heartbeatDrained _ _ | .create _ | .delete _ | .reap _ => .isTrue trivial

def Peers.unheard (peers : Peers) : Awaiting → Nat
  | .recv => slowPlayerTimeoutMs + peers.late
  | .drain _ => 0

/-- A task that has a heartbeat, and waits since `since`. -/
structure Peers.Lively (peers : Peers) (s : Server) (since : Nat) (task : Task) : Prop where
  spoke : since ≤ task.lastRx + peers.unheard task.awaiting
  waits : s.now ≤ since + peers.within task.awaiting

def Peers.StaysLively (peers : Peers) (id : Nat) (watch : Watch) : Prop :=
  ∀ task, watch.server.tasks id = some task → task.heartbeat ≠ .off →
    peers.Lively watch.server (watch.awaits id) task

theorem Peers.StaysLively.next {peers : Peers} {id : Nat} {watch after : Watch} {label : Label}
    (stays : peers.StaysLively id watch) (owned : watch.server.Owned) (lively : peers.lively id watch label)
    (step : watch.next label = some after) : peers.StaysLively id after := by
  obtain ⟨server, stepped, rfl⟩ := Option.map_eq_some_iff.mp step
  intro task held beats
  change peers.Lively server (watch.stamp label.resumes watch.awaits id) task
  have onward := Server.next_onward watch.server server label stepped
  cases Server.next_taskStep watch.server server label owned.keyed stepped id task held with
  | same before resumes =>
    have known := owned.known id task before
    have was := stays task before beats
    rw [watch.stamp_kept _ _ id resumes known]
    refine ⟨was.spoke, ?_⟩
    rw [onward.now]
    cases label with
    | tick ms => exact lively task before beats
    | _ => exact was.waits
  | joined new elapses lastRx awaiting =>
    rw [watch.stamp_now _ _ id (.inr (Nat.le_of_eq new.symm))]
    refine ⟨by omega, ?_⟩
    rw [onward.now, elapses]
    exact Nat.le_add_right _ _
  | read raw is before found player carrier lastRx =>
    subst is
    rw [watch.stamp_now (Label.resumes _) _ id (.inl rfl)]
    refine ⟨by omega, ?_⟩
    rw [onward.now]
    exact Nat.le_add_right _ _
  | drained outcome is before found waited task_ =>
    subst is task_
    have was := stays before found beats
    rw [watch.stamp_now (Label.resumes _) _ id (.inl rfl)]
    cases awaiting : before.awaiting with
    | recv => exact absurd awaiting waited
    | drain target =>
      obtain ⟨spoke, waits⟩ := was
      rw [awaiting] at spoke waits
      simp only [Peers.unheard, Peers.within] at spoke waits
      refine ⟨by simp only [Peers.unheard]; omega, ?_⟩
      rw [onward.now]
      exact Nat.le_add_right _ _
  | pings is before found slept live task_ =>
    subst is task_
    have was := stays before found (by rw [slept]; simp)
    rw [watch.stamp_kept (Label.resumes _) _ id (by simp [Label.resumes]) (owned.known id before found)]
    exact ⟨was.spoke, by rw [onward.now]; exact was.waits⟩
  | pinged is before found waited task_ =>
    subst is task_
    have was := stays before found (by rw [waited]; simp)
    rw [watch.stamp_kept (Label.resumes _) _ id (by simp [Label.resumes]) (owned.known id before found)]
    exact ⟨was.spoke, by rw [onward.now]; exact was.waits⟩
  | dropped _ before found task_ =>
    rw [task_] at beats
    exact absurd rfl beats

theorem live_kept (peers : Peers) (saved : List String) (labels : List Label) (watch : Watch)
    (often : peers.gap + slowPlayerTimeoutMs + peers.late ≤ wsIdleTimeoutMs) (id : Nat)
    (run : watchMachine.Run (peers.lively id) { server := Server.start saved } labels watch)
    (after : Watch) (step : watch.next (.heartbeat id) = some after) :
    after.server.closed = watch.server.closed ∧ after.server.rooms = watch.server.rooms ∧
      (after.server.tasks id).map Task.heartbeat = some .draining := by
  have keeps : watch.server.Owned ∧ peers.StaysLively id watch := by
    refine run.invariant (fun watch => watch.server.Owned ∧ peers.StaysLively id watch)
      ⟨Server.start_owned saved, by simp [Peers.StaysLively, Server.start]⟩ ?_
    rintro watch label after ⟨owned, stays⟩ lively step
    exact ⟨watch.next_owned after label owned step, stays.next owned lively step⟩
  obtain ⟨server, stepped, rfl⟩ := Option.map_eq_some_iff.mp step
  obtain ⟨task, found, stepped⟩ := Option.bind_eq_some_iff.mp stepped
  split_ifs at stepped with sleeping idle
  · -- it was heard before its handler began to wait, and that is not so long ago
    obtain ⟨spoke, waits⟩ := keeps.2 task found (by rw [sleeping]; simp)
    exfalso
    cases awaiting : task.awaiting <;> rw [awaiting] at spoke waits <;>
      simp only [Peers.unheard, Peers.within] at spoke waits <;> omega
  · obtain rfl := Option.some.inj stepped
    refine ⟨rfl, rfl, ?_⟩
    rw [Server.tasks_setTask, if_pos rfl]
    rfl

theorem live_kept_browser :
    ∃ watch after, watchMachine.exec ((Peers.mk 100 24000).lively 1) { server := Server.start ["A"] }
        [.wsRequest 7 "A", .wsDrained 7 true, .wsRequest 8 "A", .wsDrained 8 true, .tick 10000, .heartbeat 1,
          .heartbeatDrained 1 true, .tick 10000, .heartbeat 1, .heartbeatDrained 1 true, .tick 4000,
          .read 1 (some [0x82, 0x01, 0x90]), .tick 5100, .drained 1 .done, .tick 24000, .heartbeat 2] =
        some watch ∧
      watch.next (.heartbeat 1) = some after ∧ watch.server.now = 53100 ∧ watch.server.closed = [8] ∧
      after.server.closed = watch.server.closed ∧ after.server.rooms = watch.server.rooms ∧
      (after.server.tasks 1).map Task.heartbeat = some .draining := by
  have checked : (watchMachine.exec ((Peers.mk 100 24000).lively 1) { server := Server.start ["A"] }
      [.wsRequest 7 "A", .wsDrained 7 true, .wsRequest 8 "A", .wsDrained 8 true, .tick 10000, .heartbeat 1,
        .heartbeatDrained 1 true, .tick 10000, .heartbeat 1, .heartbeatDrained 1 true, .tick 4000,
        .read 1 (some [0x82, 0x01, 0x90]), .tick 5100, .drained 1 .done, .tick 24000, .heartbeat 2]).any
      (fun watch => (watch.next (.heartbeat 1)).any fun _ =>
        decide (watch.server.now = 53100 ∧ watch.server.closed = [8])) = true := by
    decide +kernel
  obtain ⟨watch, executed, inside⟩ := (Option.any_eq_true _ _).mp checked
  obtain ⟨after, step, results⟩ := (Option.any_eq_true _ _).mp inside
  obtain ⟨time, dropped⟩ := of_decide_eq_true results
  exact ⟨watch, after, executed, step, time, dropped,
    live_kept ⟨100, 24000⟩ ["A"] _ watch (by decide) 1 (Machine.run_of_exec executed) after step⟩

end MidiToIp.Orchestrator
