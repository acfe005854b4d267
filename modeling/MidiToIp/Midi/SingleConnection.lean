import Mathlib.Data.List.Basic
import MidiToIp.Midi.LinkEffects

set_option autoImplicit false

namespace MidiToIp.Midi

open Octets MidiWs Machines

structure Single (host : Bytes) (link : Link) : Prop where
  pcbs : link.pcbs = [] ∨ ∃ id, link.netPcb = some id ∧ link.pcbs = [⟨id, host⟩]
  down : link.netState = .down → link.netPcb = none
  sessions : ∀ q ∈ link.queries, q.session ≤ link.session
  pending : ∀ q ∈ link.queries, q.session = link.session →
    link.netState = .connecting ∧ link.pcbs = [] ∧ q.name = host
  alone : ∀ q ∈ link.queries, ∀ q' ∈ link.queries,
    q.session = link.session → q'.session = link.session → q = q'

namespace Single

variable {host : Bytes} {link : Link}

theorem pcbs_of_none (single : Single host link) (none_ : link.netPcb = none) : link.pcbs = [] := by
  rcases single.pcbs with empty | ⟨id, held, -⟩
  · exact empty
  · simp [none_] at held

theorem past_of_open (single : Single host link) (pcb : Nat) (open_ : link.isOpen pcb = true) :
    ∀ q ∈ link.queries, q.session < link.session := by
  intro q member
  have bound := single.sessions q member
  by_contra current
  have empty := (single.pending q member (by omega)).2.1
  simp [Link.isOpen, empty] at open_

theorem past_of_down (single : Single host link) (down : link.netState = .down) :
    ∀ q ∈ link.queries, q.session < link.session := by
  intro q member
  have bound := single.sessions q member
  by_contra current
  have connecting := (single.pending q member (by omega)).1
  simp [down] at connecting

theorem of_past (pcbs : link.pcbs = [] ∨ ∃ id, link.netPcb = some id ∧ link.pcbs = [⟨id, host⟩])
    (up : link.netState ≠ .down) (past : ∀ q ∈ link.queries, q.session < link.session) :
    Single host link where
  pcbs := pcbs
  down := fun down => absurd down up
  sessions := fun q member => Nat.le_of_lt (past q member)
  pending := fun q member current => by have earlier := past q member; omega
  alone := fun q member _ _ current => by have earlier := past q member; omega

theorem dropped (single : Single host link) (newHost : Bytes) :
    Single newHost { link.dropped with netState := .down, session := link.dropped.session + 1 } := by
  have closed : link.dropped.pcbs = [] := by
    rcases single.pcbs with empty | ⟨id, held, only⟩
    · simp [Link.dropped, empty]
    · simp [Link.dropped, held, only]
  have ended (q : Query) (member : q ∈ link.queries) (current : q.session = link.session + 1) :
      False := by
    have bound := single.sessions q member
    omega
  exact
    { pcbs := .inl closed
      down := fun _ => rfl
      sessions := fun q member => Nat.le_succ_of_le (single.sessions q member)
      pending := fun q member current => (ended q member current).elim
      alone := fun q member _ _ current => (ended q member current).elim }

theorem fewer (single : Single host link) (queries : List Query)
    (within : ∀ q ∈ queries, q ∈ link.queries) : Single host { link with queries := queries } where
  pcbs := single.pcbs
  down := single.down
  sessions := fun q member => single.sessions q (within q member)
  pending := fun q member => single.pending q (within q member)
  alone := fun q member q' member' => single.alone q (within q member) q' (within q' member')

end Single

namespace Firmware

variable (lwip : Lwip)

def IsSingle (s : Firmware) : Prop := Single s.cfg.host s.link

theorem IsSingle.same {s : Firmware} (single : s.IsSingle) (after : Firmware)
    (cfg : after.cfg = s.cfg) (link : after.link = s.link) : after.IsSingle := by
  unfold IsSingle
  rw [cfg, link]
  exact single

theorem midiNetReset_single (s : Firmware) (host : Bytes) (single : Single host s.link) :
    (midiNetReset lwip s).IsSingle ∧ (midiNetReset lwip s).link.netState = .down := by
  obtain ⟨calls, effect⟩ := midiNetReset_effect lwip s
  rw [effect]
  exact ⟨single.dropped s.cfg.host, rfl⟩

theorem midiNetErrCb_single (s : Firmware) (single : s.IsSingle) (pcb : Nat)
    (open_ : s.link.isOpen pcb = true) :
    (midiNetErrCb { s with
      link := { s.link with pcbs := s.link.pcbs.filter fun p => p.id != pcb } }).IsSingle := by
  rw [midiNetErrCb_effect]
  have gone : s.link.pcbs.filter (fun p => p.id != pcb) = [] := by
    rcases single.pcbs with empty | ⟨id, -, only⟩
    · simp [empty]
    · have same : id = pcb := by simpa [Link.isOpen, only] using open_
      simp [only, same]
  have ended (q : Query) (member : q ∈ s.link.queries) (current : q.session = s.link.session + 1) :
      False := by
    have bound := single.sessions q member
    omega
  exact
    { pcbs := .inl gone
      down := fun _ => rfl
      sessions := fun q member => Nat.le_succ_of_le (single.sessions q member)
      pending := fun q member current => (ended q member current).elim
      alone := fun q member _ _ current => (ended q member current).elim }

theorem midiNetConnectTo_single (ip : IpAddr) (s : Firmware) (empty : s.link.pcbs = [])
    (past : ∀ q ∈ s.link.queries, q.session < s.link.session) :
    (midiNetConnectTo lwip ip s.cfg.host s).IsSingle := by
  have opened : Single s.cfg.host (s.link.opened s.cfg.host) :=
    Single.of_past (.inr ⟨_, rfl, by simp [Link.opened, empty]⟩) (by simp [Link.opened]) past
  have unopened : Single s.cfg.host { s.link with netPcb := none } :=
    { opened with
      pcbs := .inl empty
      down := fun _ => rfl
      pending := fun q member current => by have earlier := past q member; simp_all }
  obtain ⟨calls, ⟨-, effect⟩ | ⟨-, link, rfl | rfl, effect⟩⟩ :=
    midiNetConnectTo_effect lwip ip s.cfg.host s
  · rw [effect]
    exact opened
  · rw [effect]
    exact opened.dropped s.cfg.host
  · rw [effect]
    exact unopened.dropped s.cfg.host

theorem midiNetTryConnect_single (s : Firmware) (single : s.IsSingle)
    (down : s.link.netState = .down) : (midiNetTryConnect lwip s).IsSingle := by
  have past := single.past_of_down down
  have empty := single.pcbs_of_none (single.down down)
  have connecting : Single s.cfg.host { s.link with netState := .connecting } :=
    Single.of_past (.inl empty) (by simp) past
  unfold midiNetTryConnect
  split
  · exact midiNetConnectTo_single lwip _ s empty past
  · simp only [call]
    split
    · exact midiNetConnectTo_single lwip _ { s with
        link := { s.link with netState := .connecting }
        calls := s.calls ++ [.resolve s.cfg.host (lwip.dnsGethostbyname s.calls.length).1] } empty past
    split
    · exact (midiNetReset_single lwip _ s.cfg.host connecting).1
    · -- the new query is the only one of this session
      have isNew (q : Query) (member : q ∈ s.link.queries ++ [⟨s.link.fresh, s.cfg.host, s.link.session⟩])
          (current : q.session = s.link.session) : q = ⟨s.link.fresh, s.cfg.host, s.link.session⟩ := by
        rcases List.mem_append.mp member with old | new
        · have earlier := past q old
          omega
        · simpa using new
      exact
        { pcbs := .inl empty
          down := by simp
          sessions := by
            intro q member
            rcases List.mem_append.mp member with old | new
            · exact single.sessions q old
            · obtain rfl : q = _ := by simpa using new
              exact Nat.le_refl _
          pending := by
            intro q member current
            rw [isNew q member current]
            exact ⟨rfl, empty, rfl⟩
          alone := by
            intro q member q' member' current current'
            rw [isNew q member current, isNew q' member' current'] }

theorem call_single (s : Firmware) (c : LwipCall) (single : s.IsSingle) : (call c s).IsSingle :=
  single.same _ rfl rfl

theorem publish_single (s : Firmware) (single : s.IsSingle) : (publish s).IsSingle := by
  obtain ⟨shared, effect, -⟩ := publish_effect s
  rw [effect]
  exact single.same _ rfl rfl

theorem midiWsDecode_single (pcb : Nat) (s : Firmware) (data : Bytes) (single : s.IsSingle) :
    (midiWsDecode (host lwip pcb) s data).2.IsSingle := by
  apply midiWsDecode_keeps (host lwip pcb) IsSingle
  · intro s d single
    exact single.same _ rfl rfl
  · intro s p single
    simp only [host, midiWsOnData_effect]
    exact single.same _ rfl rfl
  · intro s opcode p single
    simp only [host, midiWsOnCtl]
    split
    · obtain ⟨rand, calls, effect⟩ := midiWsSendFrame_effect lwip midiWsOpPong p s
      rw [effect]
      exact single.same _ rfl rfl
    split
    · exact (midiNetReset_single lwip s _ single).1
    · exact single
  · exact single

theorem decodeChain_single (pcb : Nat) (chain : List Bytes) (s : Firmware) (single : s.IsSingle) :
    (decodeChain lwip pcb chain s).2.IsSingle := by
  induction chain generalizing s with
  | nil =>
    rw [decodeChain]
    exact single
  | cons q rest ih =>
    have decoded := midiWsDecode_single lwip pcb s q single
    rw [decodeChain]
    generalize midiWsDecode (host lwip pcb) s q = fed at *
    obtain ⟨ok, after⟩ := fed
    cases ok with
    | false => exact decoded
    | true =>
      simp only
      split
      · exact decoded
      · exact ih after decoded

theorem midiNetMarkUp_single (s : Firmware) (single : s.IsSingle) (pcb : Nat)
    (open_ : s.link.isOpen pcb = true) : (midiNetMarkUp s).IsSingle :=
  Single.of_past single.pcbs (by simp [midiNetMarkUp]) (single.past_of_open pcb open_)

theorem midiWsHandshakeRecv_single (pcb : Nat) (chain : List Bytes) (s : Firmware)
    (single : s.IsSingle) (open_ : s.link.isOpen pcb = true) :
    (midiWsHandshakeRecv lwip pcb chain s).2.IsSingle := by
  unfold midiWsHandshakeRecv
  simp only
  generalize s.wsHsBuf ++ chain.flatten = hs
  have stored : ({ s with wsHsBuf := hs.take hsBufSize } : Firmware).IsSingle :=
    single.same _ rfl rfl
  have up := midiNetMarkUp_single { s with wsHsBuf := hs.take hsBufSize } stored pcb open_
  split
  · exact stored
  split
  · exact stored
  next hdrEnd _ =>
    split
    · exact stored
    split
    · have decoded := midiWsDecode_single lwip pcb _ (hs.drop hdrEnd) up
      generalize midiWsDecode (host lwip pcb) (midiNetMarkUp { s with wsHsBuf := hs.take hsBufSize })
        (hs.drop hdrEnd) = fed at *
      obtain ⟨ok, after⟩ := fed
      cases ok with
      | false => exact decoded
      | true => exact publish_single after decoded
    · exact up

theorem recvByState_single (pcb : Nat) (chain : List Bytes) (s : Firmware) (single : s.IsSingle)
    (open_ : s.link.isOpen pcb = true) : (recvByState lwip pcb chain s).2.IsSingle := by
  unfold recvByState
  split
  · exact midiWsHandshakeRecv_single lwip pcb chain s single open_
  · have decoded := decodeChain_single lwip pcb chain s single
    unfold recvFrames
    generalize decodeChain lwip pcb chain s = fed at *
    obtain ⟨ok, after⟩ := fed
    cases ok with
    | false => exact decoded
    | true =>
      simp only
      split
      · exact publish_single after decoded
      · exact decoded
  · exact single

theorem recvWs_single (pcb : Nat) (chain : List Bytes) (s : Firmware) (single : s.IsSingle)
    (open_ : s.link.isOpen pcb = true) : (recvWs lwip pcb chain s).IsSingle := by
  have taken := recvByState_single lwip pcb chain s single open_
  unfold recvWs
  generalize recvByState lwip pcb chain s = result at *
  obtain ⟨ok, after⟩ := result
  cases ok with
  | false => exact (midiNetReset_single lwip after _ taken).1
  | true =>
    simp only
    split
    · exact IsSingle.same taken _ rfl rfl
    · exact taken

theorem midiNetRecvCb_single (pcb : Nat) (chain : Option (List Bytes)) (err : Err) (s : Firmware)
    (single : s.IsSingle) (open_ : s.link.isOpen pcb = true) :
    (midiNetRecvCb lwip pcb chain err s).2.IsSingle := by
  unfold midiNetRecvCb
  split
  · exact (midiNetReset_single lwip s _ single).1
  split
  · exact single
  split
  · exact recvWs_single lwip pcb _ s single open_
  next received _ _ =>
    have pushed : (midiWsOnData pcb received.flatten s).IsSingle := by
      rw [midiWsOnData_effect]
      exact single.same _ rfl rfl
    exact call_single _ _ (publish_single _ pushed)

theorem midiNetConnectedCb_single (err : Err) (s : Firmware) (single : s.IsSingle) (pcb : Nat)
    (open_ : s.link.isOpen pcb = true) : (midiNetConnectedCb lwip err s).2.IsSingle := by
  unfold midiNetConnectedCb
  split
  · exact (midiNetReset_single lwip s _ single).1
  split
  · obtain ⟨rand, key, calls, sent | refused⟩ := midiWsStartHandshake_effect lwip s
    · rw [sent]
      exact Single.of_past single.pcbs (by simp) (single.past_of_open pcb open_)
    · rw [refused]
      exact Single.dropped single s.cfg.host
  · exact midiNetMarkUp_single s single pcb open_

theorem midiNetPoll_single (hasIp : Bool) (s : Firmware) (single : s.IsSingle) :
    (midiNetPoll lwip hasIp s).IsSingle := by
  have housekeeping : ∃ rand calls written inQueue outQueue shared,
      midiQueueCleanup (midiNetFlushOut lwip s) = { s with
        wsRand := rand, calls := calls, written := written, inQueue := inQueue
        outQueue := outQueue, shared := shared } := by
    obtain ⟨rand, calls, queue, k, flushed, -⟩ := midiNetFlushOut_effect lwip s
    obtain ⟨inQueue, shared, cleanedIn, -⟩ := cleanupIn_effect (midiNetFlushOut lwip s)
    obtain ⟨outQueue, cleanedOut, -⟩ := cleanupOut_effect (cleanupIn (midiNetFlushOut lwip s))
    rw [midiQueueCleanup, cleanedOut, cleanedIn, flushed]
    exact ⟨_, _, _, _, _, _, rfl⟩
  obtain ⟨rand, calls, written, inQueue, outQueue, shared, effect⟩ := housekeeping
  unfold midiNetPoll
  simp only [effect]
  have kept := single.same { s with
    wsRand := rand, calls := calls, written := written, inQueue := inQueue
    outQueue := outQueue, shared := shared } rfl rfl
  split
  · exact kept
  split
  · exact kept
  split
  · exact kept
  split
  · exact kept
  next down _ _ =>
    apply midiNetTryConnect_single
    · exact single.same _ rfl rfl
    · simpa using down

end Firmware

def Firmware.answered (s : Firmware) (query : Nat) : Option Query :=
  s.link.queries.find? fun q => q.id == query

/-- A completion is for the session that asked, or it can do nothing: the link is down, and the
lookup failed or the connection it would open does. -/
def timely (lwip : Lwip) (s : Firmware) : Event → Prop
  | .dnsFound query ip =>
    ∀ q ∈ s.answered query,
      q.session = s.link.session ∨
        s.link.netState = .down ∧ (ip = none ∨ ¬ Firmware.connects lwip s)
  | _ => True

instance (lwip : Lwip) (s : Firmware) (event : Event) : Decidable (timely lwip s event) := by
  unfold timely
  split <;> infer_instance

namespace Firmware

variable (lwip : Lwip)

theorem midiNetDnsFound_late (name : Bytes) (ip : Option IpAddr) (s : Firmware) (single : s.IsSingle)
    (down : s.link.netState = .down) (fails : ip = none ∨ ¬ connects lwip s) :
    (midiNetDnsFound lwip name ip s).IsSingle ∧
      (midiNetDnsFound lwip name ip s).link.pcbs = s.link.pcbs ∧
      (midiNetDnsFound lwip name ip s).link.netPcb = s.link.netPcb ∧
      (midiNetDnsFound lwip name ip s).link.netState = s.link.netState := by
  have none_ := single.down down
  have empty := single.pcbs_of_none none_
  have past := single.past_of_down down
  -- whatever was opened on the way is closed again
  have reset (link : Link) (calls : List LwipCall) (queries : link.queries = s.link.queries)
      (session : link.session = s.link.session) (gone : link.dropped.pcbs = []) :
      (s.afterDrop link.dropped calls).IsSingle ∧
        (s.afterDrop link.dropped calls).link.pcbs = s.link.pcbs ∧
        (s.afterDrop link.dropped calls).link.netPcb = s.link.netPcb ∧
        (s.afterDrop link.dropped calls).link.netState = s.link.netState := by
    have ended (q : Query) (member : q ∈ link.dropped.queries) : q.session < link.dropped.session := by
      rw [Link.dropped] at member ⊢
      simp only [queries, session] at member ⊢
      exact past q member
    rw [none_, empty, down]
    refine ⟨?_, gone, rfl, rfl⟩
    exact
      { pcbs := .inl gone
        down := fun _ => rfl
        sessions := fun q member => Nat.le_succ_of_le (Nat.le_of_lt (ended q member))
        pending := by
          intro q member current
          have earlier := ended q member
          simp only [afterDrop] at current
          omega
        alone := by
          intro q member _ _ current
          have earlier := ended q member
          simp only [afterDrop] at current
          omega }
  unfold midiNetDnsFound
  cases ip with
  | none =>
    obtain ⟨calls, effect⟩ := midiNetReset_effect lwip s
    simp only [effect]
    exact reset s.link calls rfl rfl (by simp [Link.dropped, empty])
  | some ip =>
    have refused : ¬ connects lwip s := by simpa using fails
    obtain ⟨calls, ⟨taken, -⟩ | ⟨-, link, rfl | rfl, effect⟩⟩ := midiNetConnectTo_effect lwip ip name s
    · exact absurd taken refused
    · simp only [effect]
      exact reset _ calls rfl rfl (by simp [Link.dropped, Link.opened, empty])
    · simp only [effect]
      exact reset _ calls rfl rfl (by simp [Link.dropped, empty])

theorem next_single (s after : Firmware) (event : Event) (single : s.IsSingle)
    (meets : timely lwip s event) (step : s.next lwip event = some after) : after.IsSingle := by
  cases event with
  | tick micros =>
    obtain rfl := Option.some.inj step
    exact single.same _ rfl rfl
  | poll hasIp =>
    obtain rfl := Option.some.inj step
    exact midiNetPoll_single lwip hasIp s single
  | reload settings =>
    obtain rfl := Option.some.inj step
    exact (midiNetReset_single lwip { s with cfg := midiLoadConfig settings s.cfg } _ single).1
  | connected pcb err =>
    simp only [next] at step
    split at step <;> simp only [Option.some.injEq, reduceCtorEq] at step
    next open_ => exact step ▸ midiNetConnectedCb_single lwip err s single pcb open_
  | recv pcb chain err =>
    simp only [next] at step
    split at step <;> simp only [Option.some.injEq, reduceCtorEq] at step
    next open_ => exact step ▸ midiNetRecvCb_single lwip pcb chain err s single open_
  | error pcb =>
    simp only [next] at step
    split at step <;> simp only [Option.some.injEq, reduceCtorEq] at step
    next open_ => exact step ▸ midiNetErrCb_single s single pcb open_
  | dnsFound query ip =>
    obtain ⟨q, found, rfl⟩ := Option.map_eq_some_iff.mp step
    have member : q ∈ s.link.queries := List.mem_of_find?_eq_some found
    have isQuery : q.id = query := by simpa using List.find?_some found
    let rest := s.link.queries.filter fun q => q.id != query
    have left : Single s.cfg.host { s.link with queries := rest } :=
      Single.fewer single rest fun q member => List.mem_of_mem_filter member
    rcases meets q found with current | ⟨down, fails⟩
    · obtain ⟨-, empty, name⟩ := single.pending q member current
      -- the query was the only one of its session
      have past : ∀ q' ∈ rest, q'.session < s.link.session := by
        intro q' member'
        obtain ⟨old, other⟩ := List.mem_filter.mp member'
        have bound := single.sessions q' old
        by_contra also
        have same := single.alone q member q' old current (by omega)
        simp [← same, isQuery] at other
      unfold midiNetDnsFound
      cases ip with
      | none => exact (midiNetReset_single lwip _ _ left).1
      | some ip =>
        rw [name]
        exact midiNetConnectTo_single lwip ip { s with link := { s.link with queries := rest } }
          empty past
    · exact (midiNetDnsFound_late lwip q.name ip
        { s with link := { s.link with queries := rest } } left down fails).1
  | rom3 addrLsb =>
    obtain rfl := Option.some.inj step
    unfold midiRom3Consumer
    split
    · exact single
    split
    · exact single.same _ rfl rfl
    split
    · obtain ⟨shared, effect, -⟩ := advance_effect s
      rw [effect]
      exact single.same _ rfl rfl
    split
    · exact single.same _ rfl rfl
    · exact single
  | setActive active =>
    obtain rfl := Option.some.inj step
    exact single.same _ rfl rfl

theorem dnsFound_inert_iff (s after : Firmware) (query : Nat) (ip : Option IpAddr)
    (single : s.IsSingle) (step : s.next lwip (.dnsFound query ip) = some after) :
    (after.link.pcbs = s.link.pcbs ∧ after.link.netPcb = s.link.netPcb ∧
        after.link.netState = s.link.netState) ↔
      s.link.netState = .down ∧ (ip = none ∨ ¬ connects lwip s) := by
  obtain ⟨q', found', rfl⟩ := Option.map_eq_some_iff.mp step
  let rest := s.link.queries.filter fun q => q.id != query
  have left : Single s.cfg.host { s.link with queries := rest } :=
    Single.fewer single rest fun q member => List.mem_of_mem_filter member
  constructor
  · rintro ⟨pcbs, -, netState⟩
    unfold midiNetDnsFound at pcbs netState
    cases ip with
    | none =>
      obtain ⟨calls, effect⟩ :=
        midiNetReset_effect lwip { s with link := { s.link with queries := rest } }
      simp only [rest] at effect
      simp only [effect] at netState
      exact ⟨netState.symm, .inl rfl⟩
    | some ip =>
      obtain ⟨calls, ⟨-, effect⟩ | ⟨refused, link, -, effect⟩⟩ :=
        midiNetConnectTo_effect lwip ip q'.name { s with link := { s.link with queries := rest } }
      · simp only [rest] at effect
        simp [effect, Link.opened] at pcbs
      · simp only [rest] at effect
        simp only [effect] at netState
        exact ⟨netState.symm, .inr refused⟩
  · rintro ⟨down, fails⟩
    exact (midiNetDnsFound_late lwip q'.name ip
      { s with link := { s.link with queries := rest } } left down fails).2

end Firmware

def SingleConnection (s : Firmware) : Prop :=
  s.link.pcbs.length ≤ 1 ∧ ∀ p ∈ s.link.pcbs, s.link.netPcb = some p.id ∧ p.towards = s.cfg.host

theorem Firmware.IsSingle.singleConnection {s : Firmware} (single : s.IsSingle) :
    SingleConnection s := by
  rcases single.pcbs with empty | ⟨id, held, only⟩
  · simp [SingleConnection, empty]
  · simp [SingleConnection, held, only]

theorem midiInit_single (settings : Settings) (now : Nat) :
    (Firmware.midiInit settings now).IsSingle where
  pcbs := .inl rfl
  down := fun _ => rfl
  sessions := by simp [Firmware.midiInit]
  pending := by simp [Firmware.midiInit]
  alone := by simp [Firmware.midiInit]

theorem link_singleConnection (lwip : Lwip) (settings : Settings) (now : Nat) (events : List Event)
    (s : Firmware)
    (run : (linkMachine lwip).Run (timely lwip) (Firmware.midiInit settings now) events s) :
    SingleConnection s ∧
      ∀ query ip q after, s.answered query = some q → q.session ≠ s.link.session →
        s.next lwip (.dnsFound query ip) = some after →
        ((after.link.pcbs = s.link.pcbs ∧ after.link.netPcb = s.link.netPcb ∧
            after.link.netState = s.link.netState) ↔
          timely lwip s (.dnsFound query ip)) := by
  have single : s.IsSingle :=
    run.invariant Firmware.IsSingle (midiInit_single settings now) fun s event after single meets step =>
      Firmware.next_single lwip s after event single meets step
  refine ⟨single.singleConnection, fun query ip q after found late step => ?_⟩
  rw [Firmware.dnsFound_inert_iff lwip s after query ip single step]
  constructor
  · intro fails q' found'
    exact .inr fails
  · intro meets
    exact (meets q found).resolve_left late

def slowResolver : Lwip where
  ipaddrAton host := if host = ascii "10.0.0.1" then some 0x0A000001 else none
  tcpNew _ := true
  tcpConnect _ := errOk
  tcpWrite _ := errOk
  tcpClose _ := errOk
  tcpSndbuf _ := 0
  dnsGethostbyname _ := (errInprogress, 0)

-- The lookup of the first host completes after a reload has connected to the second one.
def lateCompletion : List Event :=
  [.poll true, .reload ⟨some [("MIDI_HOST", ascii "10.0.0.1")]⟩, .poll true,
    .dnsFound 0 (some 0x0A000002)]

-- The same lookup fails instead, while the link is still down, and the next one is in time.
def earlyFailure : List Event :=
  [.poll true, .reload ⟨some [("MIDI_HOST", ascii "peer")]⟩, .dnsFound 0 none, .poll true,
    .dnsFound 1 (some 0x0A000002)]

theorem link_singleConnection_earlyFailure :
    ∃ s, (linkMachine slowResolver).exec (timely slowResolver)
        (Firmware.midiInit ⟨some [("MIDI_HOST", ascii "orchestrator")]⟩ 0) earlyFailure = some s ∧
      s.link.pcbs = [⟨2, ascii "peer"⟩] ∧ SingleConnection s := by
  have opened : (((linkMachine slowResolver).exec (timely slowResolver)
      (Firmware.midiInit ⟨some [("MIDI_HOST", ascii "orchestrator")]⟩ 0) earlyFailure).map
        fun s => s.link.pcbs) = some [⟨2, ascii "peer"⟩] := by decide +kernel
  obtain ⟨s, executed, pcbs⟩ := Option.map_eq_some_iff.mp opened
  exact ⟨s, executed, pcbs,
    (link_singleConnection slowResolver _ 0 _ s (Machine.run_of_exec executed)).1⟩

theorem lateCompletion_twoConnections :
    ¬ ∀ (lwip : Lwip) (settings : Settings) (now : Nat) (events : List Event) (s : Firmware),
      (linkMachine lwip).Run Machine.anyStep (Firmware.midiInit settings now) events s →
        SingleConnection s := by
  intro always
  have two : (((linkMachine slowResolver).exec Machine.anyStep
      (Firmware.midiInit ⟨some [("MIDI_HOST", ascii "orchestrator")]⟩ 0) lateCompletion).map
        fun s => s.link.pcbs.length) = some 2 := by decide +kernel
  obtain ⟨s, executed, count⟩ := Option.map_eq_some_iff.mp two
  have one := (always _ _ _ _ s (Machine.run_of_exec executed)).1
  omega

end MidiToIp.Midi
