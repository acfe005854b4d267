import MidiToIp.Gateway.Wakeup
import MidiToIp.Midi.Changes
import MidiToIp.Midi.Upgrade
import MidiToIp.Orchestrator.Join

set_option autoImplicit false

namespace MidiToIp.System

open Octets Orchestrator Midi MidiWs Machines

def answerHead (lines : List Bytes) : Bytes := lines.flatMap (· ++ crlf) ++ crlf

theorem headerEnd_skip (line rest : Bytes) (inline_ : 13 ∉ line) :
    Firmware.headerEnd (line ++ rest) = (Firmware.headerEnd rest).map (· + line.length) := by
  induction line with
  | nil => simp
  | cons b line ih =>
    obtain ⟨first, later⟩ : b ≠ 13 ∧ 13 ∉ line := by
      rw [List.mem_cons, not_or] at inline_
      exact ⟨Ne.symm inline_.1, inline_.2⟩
    have step : Firmware.headerEnd (b :: (line ++ rest)) = (Firmware.headerEnd (line ++ rest)).map (· + 1) := by
      rw [Firmware.headerEnd]
      intro _ same
      exact absurd same first
    rw [List.cons_append, step, ih later, Option.map_map]
    rfl

theorem headerEnd_answerHead (lines : List Bytes) (some_ : lines ≠ [])
    (filled : ∀ line ∈ lines, line ≠ [] ∧ 13 ∉ line) :
    Firmware.headerEnd (answerHead lines) = some (answerHead lines).length := by
  induction lines with
  | nil => exact absurd rfl some_
  | cons line lines ih =>
    have inline_ := (filled line (List.mem_cons_self ..)).2
    cases lines with
    | nil =>
      have whole : answerHead [line] = line ++ [13, 10, 13, 10] := by simp [answerHead, crlf]
      rw [whole, headerEnd_skip line _ inline_]
      simp [Firmware.headerEnd, Nat.add_comm]
    | cons next lines =>
      have ih := ih (List.cons_ne_nil next lines) fun other member => filled other (List.mem_cons_of_mem _ member)
      have whole : answerHead (line :: next :: lines) = line ++ (13 :: 10 :: answerHead (next :: lines)) := by
        simp [answerHead, crlf]
      obtain ⟨c, tail, starts, other⟩ : ∃ c tail, answerHead (next :: lines) = c :: tail ∧ c ≠ 13 := by
        obtain ⟨filled_, plain⟩ := filled next (by simp)
        cases next with
        | nil => exact absurd rfl filled_
        | cons c rest =>
          refine ⟨c, rest ++ crlf ++ answerHead lines, by simp [answerHead], ?_⟩
          rintro rfl
          exact plain (List.mem_cons_self ..)
      have second : Firmware.headerEnd (10 :: answerHead (next :: lines)) =
          (Firmware.headerEnd (answerHead (next :: lines))).map (· + 1) := by
        rw [Firmware.headerEnd]
        intro _ same
        simp at same
      have first : Firmware.headerEnd (13 :: 10 :: answerHead (next :: lines)) =
          (Firmware.headerEnd (10 :: answerHead (next :: lines))).map (· + 1) := by
        rw [starts, Firmware.headerEnd]
        intro _ _ same
        simp only [List.cons.injEq] at same
        exact absurd same.2.1 other
      rw [whole, headerEnd_skip line _ inline_, first, second, ih]
      simp only [Option.map_some, List.length_append, List.length_cons]
      congr 1
      omega

theorem partition_headerEnd (bytes : Bytes) :
    Gateway.partition Gateway.headerEnd bytes =
      (Firmware.headerEnd bytes).map fun n => (bytes.take (n - 4), bytes.drop n) := by
  have separator : Gateway.headerEnd = [13, 10, 13, 10] := by decide
  rw [separator]
  fun_induction Firmware.headerEnd bytes with
  | case1 rest => simp [Gateway.partition]
  | case2 b rest other ih =>
    have elsewhere : ¬ ([13, 10, 13, 10] : Bytes).isPrefixOf (b :: rest) = true := by
      rw [List.isPrefixOf_iff_prefix]
      rintro ⟨tail, whole⟩
      simp only [List.cons_append, List.nil_append, List.cons.injEq] at whole
      exact other tail whole.1.symm whole.2.symm
    rw [Gateway.partition, if_neg elsewhere, ih, Option.map_map, Option.map_map]
    cases found : Firmware.headerEnd rest with
    | none => rfl
    | some n =>
      have bounds := Firmware.headerEnd_bounds rest n found
      have cut : n + 1 - 4 = (n - 4) + 1 := by omega
      simp only [Option.map_some, Function.comp_apply, cut, List.take_succ_cons, List.drop_succ_cons]
  | case3 => rfl

def Welcomes (accept header : Bytes) : Prop := ascii " 101 " <:+: header ∧ accept <:+: header

instance (accept header : Bytes) : Decidable (Welcomes accept header) := inferInstanceAs (Decidable (_ ∧ _))

def welcomed (accept header rest : Bytes) : Except Gateway.HandshakeError Gateway.WsSocket :=
  if Welcomes accept header then .ok { initial := rest } else .error .badResponse

theorem wsHandshake_waits (accept buf chunk : Bytes) (later : List Bytes) (solid : chunk ≠ [])
    (open_ : Gateway.partition Gateway.headerEnd buf = none) :
    Gateway.wsHandshake accept buf (chunk :: later) = Gateway.wsHandshake accept (buf ++ chunk) later := by
  conv_lhs => unfold Gateway.wsHandshake
  simp only [open_, if_neg solid]

theorem wsHandshake_answered (accept buf header rest : Bytes) (reads : List Bytes)
    (found : Gateway.partition Gateway.headerEnd buf = some (header, rest)) :
    Gateway.wsHandshake accept buf reads = some (welcomed accept header rest) := by
  unfold Gateway.wsHandshake welcomed Welcomes
  simp only [found]
  by_cases switches : ascii " 101 " <:+: header <;> by_cases accepted : accept <:+: header <;>
    simp [switches, accepted]

theorem wsHandshake_cut (accept buf head frames : Bytes) (reads : List Bytes)
    (ends : Firmware.headerEnd head = some head.length) (solid : ∀ read ∈ reads, read ≠ [])
    (short : buf.length < head.length) (cut : buf ++ reads.flatten = head ++ frames) :
    ∃ initial rest, rest <:+ reads ∧ initial ++ rest.flatten = frames ∧
      Gateway.wsHandshake accept buf reads = some (welcomed accept (head.take (head.length - 4)) initial) := by
  induction reads generalizing buf with
  | nil =>
    have length := congrArg List.length cut
    simp only [List.flatten_nil, List.append_nil, List.length_append] at length
    omega
  | cons chunk later ih =>
    obtain ⟨missing, whole⟩ : ∃ missing, head = buf ++ missing := by
      rcases List.append_eq_append_iff.mp cut with ⟨missing, whole, -⟩ | ⟨more, whole, -⟩
      · exact ⟨missing, whole⟩
      · rw [whole, List.length_append] at short
        omega
    have open_ : Gateway.partition Gateway.headerEnd buf = none := by
      rw [partition_headerEnd, Firmware.headerEnd_prefix head buf missing whole ends short]
      rfl
    rw [wsHandshake_waits accept buf chunk later (solid chunk (List.mem_cons_self ..)) open_]
    rw [List.flatten_cons, ← List.append_assoc] at cut
    by_cases done : head.length ≤ (buf ++ chunk).length
    · obtain ⟨initial, arrived, left⟩ : ∃ initial, buf ++ chunk = head ++ initial ∧
          frames = initial ++ later.flatten := by
        rcases List.append_eq_append_iff.mp cut with ⟨more, ends, later⟩ | ⟨initial, arrived, left⟩
        · have none_ : more = [] := by
            have length := congrArg List.length ends
            rw [List.length_append] at length
            exact List.length_eq_zero_iff.mp (by omega)
          subst none_
          exact ⟨[], by simpa using ends.symm, by simpa using later.symm⟩
        · exact ⟨initial, arrived, left⟩
      have found : Gateway.partition Gateway.headerEnd (buf ++ chunk) =
          some (head.take (head.length - 4), initial) := by
        rw [arrived, partition_headerEnd, Firmware.headerEnd_append head initial _ ends, Option.map_some,
          List.take_append_of_le_length (by omega), List.drop_left]
      exact ⟨initial, later, List.suffix_cons .., left.symm, wsHandshake_answered accept _ _ _ _ found⟩
    · obtain ⟨initial, rest, tail, kept, opened⟩ := ih (buf ++ chunk)
        (fun read member => solid read (List.mem_cons_of_mem _ member)) (Nat.not_le.mp done) cut
      exact ⟨initial, rest, tail.trans (List.suffix_cons ..), kept, opened⟩

theorem handshakeResponse_head (accept : Bytes) :
    Ws.handshakeResponse accept =
      answerHead [ascii "HTTP/1.1 101 Switching Protocols", ascii "Upgrade: websocket", ascii "Connection: Upgrade",
        ascii "Sec-WebSocket-Accept: " ++ accept] := by
  have ends : ascii "\r\n" = crlf := by decide
  have status : ascii "HTTP/1.1 101 Switching Protocols\r\n" =
      ascii "HTTP/1.1 101 Switching Protocols" ++ crlf := by decide
  have upgrade : ascii "Upgrade: websocket\r\n" = ascii "Upgrade: websocket" ++ crlf := by decide
  have connection : ascii "Connection: Upgrade\r\n" = ascii "Connection: Upgrade" ++ crlf := by decide
  unfold Ws.handshakeResponse answerHead
  rw [ends, status, upgrade, connection]
  simp

theorem handshakeResponse_ends (accept : Bytes) (inline_ : 13 ∉ accept) :
    Firmware.headerEnd (Ws.handshakeResponse accept) = some (Ws.handshakeResponse accept).length := by
  rw [handshakeResponse_head]
  apply headerEnd_answerHead _ (List.cons_ne_nil _ _)
  have word : 13 ∉ ascii "Sec-WebSocket-Accept: " := by decide
  intro line member
  simp only [List.mem_cons, List.not_mem_nil, or_false] at member
  rcases member with rfl | rfl | rfl | rfl
  · decide
  · decide
  · decide
  · refine ⟨by simp [ascii], ?_⟩
    rw [List.mem_append, not_or]
    exact ⟨word, inline_⟩

theorem forbidden_ends : Firmware.headerEnd forbidden = some forbidden.length := by decide +kernel

def responseFields : Bytes :=
  ascii "Switching Protocols\r\n" ++ ascii "Upgrade: websocket\r\n" ++ ascii "Connection: Upgrade\r\n" ++
    ascii "Sec-WebSocket-Accept: "

theorem welcomes_response (accept : Bytes) :
    Welcomes accept ((Ws.handshakeResponse accept).take ((Ws.handshakeResponse accept).length - 4)) := by
  have whole : Ws.handshakeResponse accept =
      ascii "HTTP/1.1" ++ ascii " 101 " ++ responseFields ++ accept ++ [13, 10, 13, 10] := by
    have ends : ascii "\r\n" = [13, 10] := by decide
    have start : ascii "HTTP/1.1 101 Switching Protocols\r\n" ++ ascii "Upgrade: websocket\r\n" ++
        ascii "Connection: Upgrade\r\n" ++ ascii "Sec-WebSocket-Accept: " =
          ascii "HTTP/1.1" ++ ascii " 101 " ++ responseFields := by decide
    unfold Ws.handshakeResponse
    rw [start, ends]
    simp
  have cut : (Ws.handshakeResponse accept).take ((Ws.handshakeResponse accept).length - 4) =
      ascii "HTTP/1.1" ++ ascii " 101 " ++ responseFields ++ accept := by
    rw [whole, List.length_append]
    exact List.take_left' rfl
  rw [cut]
  exact ⟨⟨_, _, (List.append_assoc ..).symm⟩, ⟨_, [], List.append_nil _⟩⟩

theorem not_welcomes_forbidden (accept : Bytes) :
    ¬ Welcomes accept (forbidden.take (forbidden.length - 4)) := by
  have other : ¬ ascii " 101 " <:+: forbidden.take (forbidden.length - 4) := by decide +kernel
  exact fun welcomes => other welcomes.1

theorem acceptKey_visible {key : Bytes} (visible : key.all (fun b => 33 ≤ b.toNat ∧ b.toNat < 127) = true)
    (short : key.length ≤ 60) : Ws.acceptKey (String.ofList (latin1 key)) = some (midiWsAcceptKey key) := by
  have small (b : UInt8) (member : b ∈ key) : b.toNat < 127 :=
    (of_decide_eq_true (List.all_eq_true.mp visible b member)).2
  have encoded : Ws.encodeAscii (String.ofList (latin1 key)) = some key := by
    have plain : (String.ofList (latin1 key)).toList.all (fun c => c.toNat < 128) = true := by
      rw [String.toList_ofList, List.all_eq_true]
      intro c member
      obtain ⟨b, inKey, rfl⟩ := List.mem_map.mp member
      have small := small b inKey
      rw [toNat_latin1, decide_eq_true_eq]
      omega
    have back : ascii (String.ofList (latin1 key)) = key := by
      rw [ascii, String.toList_ofList, latin1, List.map_map]
      refine (List.map_congr_left fun b _ => ?_).trans (List.map_id key)
      rw [Function.comp_apply, toNat_latin1, UInt8.ofNat_toNat, id_eq]
    rw [Ws.encodeAscii, if_pos plain, back]
  have joined := Ws.encodeAscii_append _ Ws.wsGuid key wsGuid encoded (by decide)
  have guid : wsGuid.length = 36 := rfl
  rw [Ws.acceptKey, joined, midiWsAcceptKey, if_neg (by omega), midiWsBase64_eq, sha1_eq]
  rfl

def admits (site : Site) (room : String) : Bool :=
  site.store.rooms.isOpen room && !site.store.rooms.isFull room

section Gateway

variable (python : Python) {host path key room accept : Bytes}

theorem gateway_joins (presentable : Presentable host path key room)
    (accepts : Ws.acceptKey (String.ofList (latin1 key)) = some accept) (site : Site) (ending : Ending)
    (frames : Bytes) (reads : List Bytes) (solid : ∀ read ∈ reads, read ≠ [])
    (arrive : reads.flatten =
      (left (handleWs python (connect site (Ws.clientHandshakeRequest host path key room) ending true))).written ++
        frames) :
    (admits site (roomMeant python path room) = true →
        (∃ wire, handleWs python (connect site (Ws.clientHandshakeRequest host path key room) ending true) =
          .ok (some (roomMeant python path room)) wire) ∧
        ∃ initial rest, Gateway.wsHandshake accept [] reads = some (.ok { initial := initial }) ∧
          rest <:+ reads ∧ initial ++ rest.flatten = frames) ∧
      (admits site (roomMeant python path room) = false →
        (∃ wire, handleWs python (connect site (Ws.clientHandshakeRequest host path key room) ending true) =
          .ok none wire ∧ wire.closed = true) ∧
        Gateway.wsHandshake accept [] reads = some (.error .badResponse)) := by
  have handled := handleWs_client python presentable site [] accept ending accepts
  rw [List.append_nil] at handled
  rw [handled] at arrive ⊢
  have response := handshakeResponse_ends accept (acceptKey_inline accepts)
  constructor
  · intro admitted
    have answer : admission site (roomMeant python path room) accept (connect site [] ending true) =
        .ok (some (roomMeant python path room)) ((connect site [] ending true).sends (Ws.handshakeResponse accept)) :=
      if_pos admitted
    rw [answer] at arrive ⊢
    have bounds := Firmware.headerEnd_bounds _ _ response
    obtain ⟨initial, rest, tail, kept, opened⟩ := wsHandshake_cut accept [] _ frames reads response solid
      (by simp only [List.length_nil]; omega) arrive
    rw [welcomed, if_pos (welcomes_response accept)] at opened
    exact ⟨⟨_, rfl⟩, initial, rest, opened, tail, kept⟩
  · intro refused
    have answer : admission site (roomMeant python path room) accept (connect site [] ending true) =
        .ok none { (connect site [] ending true).sends forbidden with closed := true } := by
      rw [admission, if_neg]
      rw [← admits, refused]
      exact Bool.noConfusion
    rw [answer] at arrive ⊢
    obtain ⟨initial, rest, -, -, opened⟩ := wsHandshake_cut accept [] _ frames reads forbidden_ends solid
      (by decide) arrive
    rw [welcomed, if_neg (not_welcomes_forbidden accept)] at opened
    exact ⟨⟨_, rfl, rfl⟩, opened⟩

end Gateway

def alphaSite : Site := { startSite with store := (startSite.store.create "ALPHA" 0 "").2 }

def alphaKey : Bytes := ascii "dGhlIHNhbXBsZSBub25jZQ=="

theorem alpha_presentable : Presentable (ascii "localhost:5006") (ascii "/") alphaKey (ascii "alpha ") :=
  ⟨by decide, by decide, by decide, by decide, by decide, by decide, by decide +kernel⟩

theorem alphaKey_accept : Ws.acceptKey (String.ofList (latin1 alphaKey)) = some Gateway.sampleAccept :=
  (acceptKey_visible (by decide) (by decide)).trans (congrArg some (by decide +kernel))

theorem alpha_answer : (left (handleWs asciiPython (connect alphaSite
    (Ws.clientHandshakeRequest (ascii "localhost:5006") (ascii "/") alphaKey (ascii "alpha ")) .silent true))).written =
      Ws.handshakeResponse Gateway.sampleAccept := by
  have handled := handleWs_client asciiPython alpha_presentable alphaSite [] _ .silent alphaKey_accept
  have admitted : (alphaSite.store.rooms.isOpen (roomMeant asciiPython (ascii "/") (ascii "alpha ")) &&
      !alphaSite.store.rooms.isFull (roomMeant asciiPython (ascii "/") (ascii "alpha "))) = true := by decide +kernel
  rw [List.append_nil, admission, if_pos admitted] at handled
  rw [handled]
  rfl

theorem gateway_joins_alpha :
    ∃ initial rest, Gateway.wsHandshake Gateway.sampleAccept []
        [(Ws.handshakeResponse Gateway.sampleAccept).take 50,
          (Ws.handshakeResponse Gateway.sampleAccept).drop 50 ++ [0x89], [0x00]] =
          some (.ok { initial := initial }) ∧
      rest <:+ [(Ws.handshakeResponse Gateway.sampleAccept).take 50,
        (Ws.handshakeResponse Gateway.sampleAccept).drop 50 ++ [0x89], [0x00]] ∧
      initial ++ rest.flatten = [0x89, 0x00] :=
  ((gateway_joins asciiPython alpha_presentable alphaKey_accept alphaSite .silent [0x89, 0x00] _
    (by decide +kernel) (by rw [alpha_answer]; decide +kernel)).1 (by decide +kernel)).2

theorem midiWsBufContains_iff (hay needle : Bytes) (filled : needle ≠ []) :
    Firmware.midiWsBufContains hay needle = true ↔ needle <:+: hay := by
  have some_ : needle.isEmpty = false := by simpa using filled
  rw [Firmware.midiWsBufContains, some_, List.infix_iff_prefix_suffix]
  simp [and_comm]

theorem midiWsAcceptKey_length (key : Bytes) (short : key.length ≤ 60) : (midiWsAcceptKey key).length = 28 := by
  have guid : wsGuid.length = 36 := rfl
  have digest : (Sha1.digest (key ++ wsGuid)).length = 20 := by simp [Sha1.digest, Sha1.Words.bytes]
  rw [midiWsAcceptKey, if_neg (by omega), midiWsBase64_eq, Base64.Alphabet.encode_length, sha1_eq, digest]

theorem handshakeResponse_length (accept : Bytes) :
    (Ws.handshakeResponse accept).length = 101 + accept.length := by
  have start : (ascii "HTTP/1.1 101 Switching Protocols\r\n" ++ ascii "Upgrade: websocket\r\n" ++
      ascii "Connection: Upgrade\r\n" ++ ascii "Sec-WebSocket-Accept: ").length = 97 := by decide
  have ends : (ascii "\r\n").length = 2 := by decide
  unfold Ws.handshakeResponse
  simp only [List.length_append] at start ⊢
  omega

theorem validResponse (key : Bytes) (short : key.length ≤ 60) (inline_ : 13 ∉ midiWsAcceptKey key) :
    Firmware.ValidResponse key (Ws.handshakeResponse (midiWsAcceptKey key)) := by
  have length := midiWsAcceptKey_length key short
  have filled : midiWsAcceptKey key ≠ [] := by
    intro none_
    rw [none_] at length
    exact absurd length (by decide)
  have welcomes := welcomes_response (midiWsAcceptKey key)
  refine ⟨handshakeResponse_ends _ inline_, ?_, ?_⟩
  · rw [Firmware.validUpgrade, Bool.and_eq_true, midiWsBufContains_iff _ _ (by simp [ascii]),
      midiWsBufContains_iff _ _ filled]
    exact ⟨welcomes.1.trans (List.take_prefix ..).isInfix, welcomes.2.trans (List.take_prefix ..).isInfix⟩
  · rw [handshakeResponse_length, length]
    decide

theorem not_validUpgrade_forbidden (key : Bytes) : Firmware.validUpgrade key forbidden = false := by
  have other : Firmware.midiWsBufContains forbidden (ascii " 101 ") = false := by decide +kernel
  rw [Firmware.validUpgrade, other, Bool.false_and]

theorem upgradeRequest_client (cfg : Config) (key : Bytes) :
    Firmware.upgradeRequest cfg key =
      Ws.clientHandshakeRequest (cfg.host ++ ascii ":" ++ ascii (toString cfg.port)) cfg.wsPath key cfg.room := by
  have version : ascii "Sec-WebSocket-Version: 13\r\n\r\n" = ascii "Sec-WebSocket-Version: 13\r\n" ++ ascii "\r\n" := by
    decide
  unfold Firmware.upgradeRequest Ws.clientHandshakeRequest
  rw [version]
  simp only [List.append_assoc]

theorem port_inline (port : Nat) : Inline (ascii (toString port)) := by
  have each (b : UInt8) (member : b ∈ ascii (toString port)) : 48 ≤ b.toNat := by
    obtain ⟨c, inText, rfl⟩ := List.mem_map.mp member
    rw [Nat.toString_eq_repr, Nat.repr, String.toList_ofList] at inText
    have digit := Char.isDigit_iff_toNat.mp (Nat.isDigit_of_mem_toDigits (by decide) (by decide) inText)
    have zero : '0'.toNat = 48 := rfl
    have nine : '9'.toNat = 57 := rfl
    rw [UInt8.toNat_ofNat']
    omega
  constructor <;> intro member <;> have range := each _ member <;> simp at range

structure Typed (cfg : Config) : Prop where
  host : Inline cfg.host
  path : Inline cfg.wsPath
  unspaced : 32 ∉ cfg.wsPath
  room : Inline cfg.room

section Firmware

variable (lwip : Lwip) (pcb : Nat)

theorem sendUpgrade_sent (req : Bytes) (s : Firmware)
    (sent : (Firmware.sendUpgrade lwip req s).link.netState ≠ .down) (mine : s.link.netPcb = some pcb) :
    req.length < 512 ∧
      Firmware.sendUpgrade lwip req s = { s with calls := s.calls ++ [.write pcb req errOk] ++ [.output pcb] } := by
  have dropped (s : Firmware) : (Firmware.midiNetReset lwip s).link.netState = .down := rfl
  unfold Firmware.sendUpgrade at sent ⊢
  simp only [mine, Firmware.tcpWrite] at sent ⊢
  by_cases long : req.length ≥ 512
  · rw [if_pos long] at sent
    exact absurd (dropped s) sent
  rw [if_neg long] at sent ⊢
  by_cases taken : lwip.tcpWrite s.calls.length = errOk
  · simp only [taken, ne_eq, not_true_eq_false, if_false]
    exact ⟨Nat.not_le.mp long, rfl⟩
  · simp only [taken, ne_eq, not_false_eq_true, if_true] at sent
    exact absurd (dropped _) sent

theorem midiNetConnectedCb_requests (s : Firmware) (ws : s.cfg.transport = .ws) (mine : s.link.netPcb = some pcb)
    (sent : (Firmware.midiNetConnectedCb lwip errOk s).2.link.netState ≠ .down) :
    ∃ nonce : Bytes, nonce.length = 16 ∧ (Firmware.midiNetConnectedCb lwip errOk s).2.wsKey = midiWsBase64 nonce ∧
      (Firmware.midiNetConnectedCb lwip errOk s).2.cfg = s.cfg ∧
      (Firmware.upgradeRequest s.cfg (midiWsBase64 nonce)).length < 512 ∧
      (Firmware.midiNetConnectedCb lwip errOk s).2.calls =
        s.calls ++ [.write pcb (Firmware.upgradeRequest s.cfg (midiWsBase64 nonce)) errOk] ++ [.output pcb] := by
  have started : (Firmware.midiNetConnectedCb lwip errOk s).2 = Firmware.midiWsStartHandshake lwip s := by
    simp [Firmware.midiNetConnectedCb, ws]
  rw [started] at sent ⊢
  obtain ⟨rand, drawn⟩ := Firmware.nonce_effect 16 s
  unfold Firmware.midiWsStartHandshake at sent ⊢
  simp only [drawn] at sent ⊢
  obtain ⟨short, request⟩ := sendUpgrade_sent lwip pcb _ _ sent mine
  rw [request]
  exact ⟨(Firmware.nonce 16 s).1, Firmware.nonce_length 16 s, rfl, rfl, short, rfl⟩

theorem handshake_refused (chain : List Bytes) (s : Firmware) (seen header rest : Bytes)
    (awaits : Firmware.Awaits s pcb seen) (ends : Firmware.headerEnd header = some header.length)
    (refused : Firmware.validUpgrade s.wsKey header = false) (whole : seen ++ chain.flatten = header ++ rest)
    (fits : (seen ++ chain.flatten).length ≤ hsBufSize) :
    (Firmware.midiNetRecvCb lwip pcb (some chain) errOk s).2 =
      Firmware.midiNetReset lwip { s with wsHsBuf := seen ++ chain.flatten } := by
  have found := Firmware.headerEnd_append header rest header.length ends
  obtain ⟨callback, byState⟩ := Firmware.midiNetRecvCb_handshake lwip pcb chain s seen awaits
  rw [callback]
  simp only [Firmware.recvWs, byState, Firmware.midiWsHandshakeRecv, awaits.buffered, if_neg (Nat.not_lt.mpr fits),
    List.take_of_length_le fits]
  rw [whole, found]
  simp only [List.take_left, refused, Bool.not_false, if_true]

theorem deliver_refused (chains : List (List Bytes)) (s : Firmware) (seen header rest : Bytes)
    (awaits : Firmware.Awaits s pcb seen) (ends : Firmware.headerEnd header = some header.length)
    (refused : Firmware.validUpgrade s.wsKey header = false) (short : seen.length < header.length)
    (cut : seen ++ (chains.map List.flatten).flatten = header ++ rest) :
    (Firmware.deliver lwip pcb chains s).link.netState = .down := by
  induction chains generalizing s seen with
  | nil =>
    have length := congrArg List.length cut
    simp at length
    omega
  | cons chain later ih =>
    rw [List.map_cons, List.flatten_cons, ← List.append_assoc] at cut
    rw [Firmware.deliver, if_pos awaits.isOpen]
    by_cases long : hsBufSize < (seen ++ chain.flatten).length
    · rw [Firmware.handshake_long lwip pcb chain s seen awaits long]
      exact Firmware.deliver_reset lwip pcb later _ awaits.mine
    have fits := Nat.not_lt.mp long
    by_cases done : header.length ≤ (seen ++ chain.flatten).length
    · obtain ⟨first, arrived⟩ := List.prefix_of_prefix_length_le (List.prefix_append header rest)
        (by rw [← cut]; exact List.prefix_append ..) done
      rw [handshake_refused lwip pcb chain s seen header first awaits ends refused arrived.symm fits]
      exact Firmware.deliver_reset lwip pcb later _ awaits.mine
    · obtain ⟨missing, whole⟩ := List.prefix_of_prefix_length_le
        (by rw [← cut]; exact List.prefix_append ..) (List.prefix_append header rest) (Nat.le_of_not_le done)
      have open_ := Firmware.headerEnd_prefix header _ missing whole.symm ends (Nat.not_le.mp done)
      obtain ⟨calls, effect⟩ := Firmware.handshake_more lwip pcb chain s seen awaits fits open_
      rw [effect]
      exact ih _ (seen ++ chain.flatten)
        ⟨awaits.transport, awaits.state, awaits.mine, awaits.isOpen, awaits.dec, rfl⟩ refused (Nat.not_le.mp done) cut

variable (python : Python)

theorem firmware_joins (s : Firmware) (ws : s.cfg.transport = .ws) (mine : s.link.netPcb = some pcb)
    (isOpen : s.link.isOpen pcb = true) (typed : Typed s.cfg)
    (sent : (Firmware.midiNetConnectedCb lwip errOk s).2.link.netState ≠ .down) (site : Site) (ending : Ending) :
    ∃ request wire,
      (Firmware.midiNetConnectedCb lwip errOk s).2.calls = s.calls ++ [.write pcb request errOk] ++ [.output pcb] ∧
      (admits site (roomMeant python s.cfg.wsPath s.cfg.room) = true →
        handleWs python (connect site request ending true) =
            .ok (some (roomMeant python s.cfg.wsPath s.cfg.room)) wire ∧
          ∀ (frames : List ServerFrame) (chains : List (List Bytes)), (∀ frame ∈ frames, frame.opcode ≠ 8) →
            (chains.map List.flatten).flatten = wire.written ++ (frames.map ServerFrame.wire).flatten →
            (Firmware.Upgraded (Firmware.midiNetConnectedCb lwip errOk s).2 pcb frames
                (Firmware.deliver lwip pcb chains (Firmware.midiNetConnectedCb lwip errOk s).2) ↔
              Firmware.bytesUntil wire.written.length chains ≤ hsBufSize)) ∧
      (admits site (roomMeant python s.cfg.wsPath s.cfg.room) = false →
        handleWs python (connect site request ending true) = .ok none wire ∧ wire.closed = true ∧
          ∀ (rest : Bytes) (chains : List (List Bytes)), (chains.map List.flatten).flatten = wire.written ++ rest →
            (Firmware.deliver lwip pcb chains (Firmware.midiNetConnectedCb lwip errOk s).2).link.netState = .down) := by
  have awaits := Firmware.midiNetConnectedCb_awaits lwip pcb s ws mine isOpen sent
  obtain ⟨nonce, drawn, key, cfg, short, calls⟩ := midiNetConnectedCb_requests lwip pcb s ws mine sent
  generalize (Firmware.midiNetConnectedCb lwip errOk s).2 = waiting at awaits key cfg calls ⊢
  have keyLength : (midiWsBase64 nonce).length = 24 := by
    rw [midiWsBase64_eq, Base64.Alphabet.encode_length, drawn]
  have keyVisible : (midiWsBase64 nonce).all (fun b => 33 ≤ b.toNat ∧ b.toNat < 127) = true := by
    rw [midiWsBase64_eq]
    exact Base64.standard_visible nonce
  have presentable : Presentable (s.cfg.host ++ ascii ":" ++ ascii (toString s.cfg.port)) s.cfg.wsPath
      (midiWsBase64 nonce) s.cfg.room := by
    have colon : Inline (ascii ":") := by decide
    have port := port_inline s.cfg.port
    refine ⟨?_, typed.path, typed.room, typed.unspaced, ?_, keyVisible, ?_⟩
    · simp only [Inline, List.mem_append, not_or] at colon port ⊢
      exact ⟨⟨⟨typed.host.1, colon.1⟩, port.1⟩, ⟨⟨typed.host.2, colon.2⟩, port.2⟩⟩
    · intro none_
      rw [none_] at keyLength
      exact absurd keyLength (by decide)
    · rw [← upgradeRequest_client]
      exact Nat.le_of_lt (Nat.lt_of_lt_of_le short (by decide))
  have accepts := acceptKey_visible keyVisible (by omega)
  have inline_ := acceptKey_inline accepts
  have valid := validResponse (midiWsBase64 nonce) (by omega) inline_
  rw [← key] at valid
  have handled := handleWs_client python presentable site [] _ ending accepts
  rw [List.append_nil, ← upgradeRequest_client] at handled
  refine ⟨_, left (handleWs python (connect site (Firmware.upgradeRequest s.cfg (midiWsBase64 nonce)) ending true)),
    calls, ?_, ?_⟩
  · intro admitted
    have answer : admission site (roomMeant python s.cfg.wsPath s.cfg.room) (midiWsAcceptKey (midiWsBase64 nonce))
        (connect site [] ending true) =
          .ok (some (roomMeant python s.cfg.wsPath s.cfg.room))
            ((connect site [] ending true).sends (Ws.handshakeResponse (midiWsAcceptKey (midiWsBase64 nonce)))) :=
      if_pos admitted
    rw [handled, answer]
    refine ⟨rfl, fun frames chains noClose cut => ?_⟩
    rw [key] at valid
    have bounds := Firmware.headerEnd_bounds _ _ valid.ends
    rw [← key] at valid
    have upgrade := Firmware.deliver_upgrade lwip pcb chains waiting [] _ frames awaits valid noClose
      (by simp only [List.length_nil]; rw [key]; omega) (by rw [key]; exact cut)
    rw [key, List.length_nil, Nat.zero_add, Nat.sub_zero] at upgrade
    exact upgrade
  · intro refused
    have answer : admission site (roomMeant python s.cfg.wsPath s.cfg.room) (midiWsAcceptKey (midiWsBase64 nonce))
        (connect site [] ending true) = .ok none { (connect site [] ending true).sends forbidden with closed := true } := by
      rw [admission, if_neg]
      rw [← admits, refused]
      exact Bool.noConfusion
    rw [handled, answer]
    refine ⟨rfl, rfl, fun rest chains cut => ?_⟩
    exact deliver_refused lwip pcb chains waiting [] forbidden rest awaits forbidden_ends
      (not_validUpgrade_forbidden _) (by decide) cut

end Firmware

def alphaSettings : Settings := ⟨some [("MIDI_TRANSPORT", ascii "ws"), ("MIDI_ROOM", ascii "alpha")]⟩

instance (cfg : Config) : Decidable (Typed cfg) :=
  decidable_of_iff (Inline cfg.host ∧ Inline cfg.wsPath ∧ 32 ∉ cfg.wsPath ∧ Inline cfg.room)
    ⟨fun ⟨host, path, unspaced, room⟩ => ⟨host, path, unspaced, room⟩,
      fun typed => ⟨typed.host, typed.path, typed.unspaced, typed.room⟩⟩

theorem firmware_joins_alpha :
    ∃ s request wire, (linkMachine willing).exec Machine.anyStep (Firmware.midiInit alphaSettings 0) [.poll true] =
        some s ∧
      (Firmware.midiNetConnectedCb willing errOk s).2.calls = s.calls ++ [.write 0 request errOk] ++ [.output 0] ∧
      handleWs asciiPython (connect alphaSite request .silent true) = .ok (some "ALPHA") wire ∧
      ∀ (frames : List ServerFrame) (chains : List (List Bytes)), (∀ frame ∈ frames, frame.opcode ≠ 8) →
        (chains.map List.flatten).flatten = wire.written ++ (frames.map ServerFrame.wire).flatten →
        (Firmware.Upgraded (Firmware.midiNetConnectedCb willing errOk s).2 0 frames
            (Firmware.deliver willing 0 chains (Firmware.midiNetConnectedCb willing errOk s).2) ↔
          Firmware.bytesUntil wire.written.length chains ≤ hsBufSize) := by
  have checked : ((linkMachine willing).exec Machine.anyStep (Firmware.midiInit alphaSettings 0) [.poll true]).any
      (fun s => decide (s.cfg.transport = .ws) && decide (s.link.netPcb = some 0) && s.link.isOpen 0 &&
        decide (Typed s.cfg) && decide ((Firmware.midiNetConnectedCb willing errOk s).2.link.netState ≠ .down) &&
        (admits alphaSite (roomMeant asciiPython s.cfg.wsPath s.cfg.room) &&
          decide (roomMeant asciiPython s.cfg.wsPath s.cfg.room = "ALPHA"))) = true := by
    decide +kernel
  obtain ⟨s, executed, checks⟩ := (Option.any_eq_true _ _).mp checked
  simp only [Bool.and_eq_true, decide_eq_true_eq] at checks
  obtain ⟨⟨⟨⟨⟨ws, mine⟩, isOpen⟩, typed⟩, sent⟩, admitted, alpha⟩ := checks
  obtain ⟨request, wire, calls, joins, -⟩ :=
    firmware_joins willing 0 asciiPython s ws mine isOpen typed sent alphaSite .silent
  obtain ⟨handled, upgrades⟩ := joins admitted
  rw [alpha] at handled
  exact ⟨s, request, wire, executed, calls, handled, upgrades⟩

end MidiToIp.System
