import MidiToIp.Orchestrator.Handshake
import MidiToIp.Orchestrator.RequestLine

set_option autoImplicit false

namespace MidiToIp

open Octets Dicts

namespace Ws

def clientHandshakeRequest (host path key room : Bytes) : Bytes :=
  ascii "GET " ++ path ++ ascii " HTTP/1.1\r\n" ++
    ascii "Host: " ++ host ++ ascii "\r\n" ++
    ascii "Upgrade: websocket\r\n" ++
    ascii "Connection: Upgrade\r\n" ++
    ascii "Sec-WebSocket-Key: " ++ key ++ ascii "\r\n" ++
    (if room ≠ [] then ascii "Authorization: Bearer " ++ room ++ ascii "\r\n" else []) ++
    ascii "Sec-WebSocket-Version: 13\r\n" ++
    ascii "\r\n"

end Ws

namespace Orchestrator

variable (python : Python)

def crlf : Bytes := [13, 10]

def Inline (text : Bytes) : Prop := 13 ∉ text ∧ 10 ∉ text

instance (text : Bytes) : Decidable (Inline text) := inferInstanceAs (Decidable (_ ∧ _))

structure Header where
  name : String
  value : Bytes

def Header.line (header : Header) : Bytes := ascii header.name ++ ascii ": " ++ header.value

def clientHeaders (host key room : Bytes) : List Header :=
  [⟨"Host", host⟩, ⟨"Upgrade", ascii "websocket"⟩, ⟨"Connection", ascii "Upgrade"⟩,
    ⟨"Sec-WebSocket-Key", key⟩] ++
    (if room ≠ [] then [⟨"Authorization", ascii "Bearer " ++ room⟩] else []) ++
    [⟨"Sec-WebSocket-Version", ascii "13"⟩]

def clientLine (path : Bytes) : Bytes := ascii "GET " ++ path ++ ascii " HTTP/1.1"

theorem request_lines (host path key room : Bytes) :
    Ws.clientHandshakeRequest host path key room =
      clientLine path ++ crlf ++ (((clientHeaders host key room).map Header.line).flatMap (· ++ crlf) ++ crlf) := by
  have ends : ascii "\r\n" = crlf := by decide
  have line : ascii " HTTP/1.1\r\n" = ascii " HTTP/1.1" ++ crlf := by decide
  have upgrade : ascii "Upgrade: websocket\r\n" = ascii "Upgrade" ++ ascii ": " ++ ascii "websocket" ++ crlf := by decide
  have connection : ascii "Connection: Upgrade\r\n" = ascii "Connection" ++ ascii ": " ++ ascii "Upgrade" ++ crlf := by
    decide
  have version : ascii "Sec-WebSocket-Version: 13\r\n" =
      ascii "Sec-WebSocket-Version" ++ ascii ": " ++ ascii "13" ++ crlf := by decide
  have host_ : ascii "Host: " = ascii "Host" ++ ascii ": " := by decide
  have key_ : ascii "Sec-WebSocket-Key: " = ascii "Sec-WebSocket-Key" ++ ascii ": " := by decide
  have auth : ascii "Authorization: Bearer " = ascii "Authorization" ++ ascii ": " ++ ascii "Bearer " := by decide
  unfold Ws.clientHandshakeRequest clientHeaders clientLine
  rw [ends, line, upgrade, connection, version, host_, key_, auth]
  split <;> simp [Header.line]

theorem visible_inline {text : Bytes} (visible : text.all (fun b => 33 ≤ b.toNat ∧ b.toNat < 127) = true) :
    Inline text := by
  have each := List.all_eq_true.mp visible
  constructor <;> intro member <;> have range := of_decide_eq_true (each _ member) <;> simp at range

theorem acceptKey_inline {key : String} {accept : Bytes} (accepts : Ws.acceptKey key = some accept) :
    13 ∉ accept := by
  obtain ⟨bytes, -, rfl⟩ := Option.map_eq_some_iff.mp accepts
  exact (visible_inline (Base64.standard_visible _)).1

theorem splitLines_line (line rest : Bytes) (inline_ : 10 ∉ line) :
    splitLines (line ++ 10 :: rest) = (line :: (splitLines rest).1, (splitLines rest).2) := by
  induction line with
  | nil => simp [splitLines]
  | cons b line ih =>
    obtain ⟨first, later⟩ : b ≠ 10 ∧ 10 ∉ line := by
      rw [List.mem_cons, not_or] at inline_
      exact ⟨Ne.symm inline_.1, inline_.2⟩
    simp [splitLines, ih later, first]

theorem splitLines_lines (lines : List Bytes) (rest : Bytes) (inline_ : ∀ line ∈ lines, 10 ∉ line) :
    splitLines (lines.flatMap (· ++ crlf) ++ rest) =
      (lines.map (· ++ [13]) ++ (splitLines rest).1, (splitLines rest).2) := by
  induction lines with
  | nil => rfl
  | cons line lines ih =>
    have first : 10 ∉ line ++ [13] := by
      have inline_ := inline_ line (List.mem_cons_self ..)
      simpa using inline_
    have cut : (line :: lines).flatMap (· ++ crlf) ++ rest =
        (line ++ [13]) ++ 10 :: (lines.flatMap (· ++ crlf) ++ rest) := by
      simp [crlf]
    rw [cut, splitLines_line _ _ first, ih fun other member => inline_ other (List.mem_cons_of_mem _ member)]
    rfl

theorem connect_lines (site : Site) (input : Bytes) (ending : Ending) (drains : Bool) :
    (connect site input ending drains).lines = (splitLines input).1 := rfl

theorem connect_remnant (site : Site) (input : Bytes) (ending : Ending) (drains : Bool) :
    (connect site input ending drains).remnant = (splitLines input).2 := rfl

theorem length_flatMap_crlf (lines : List Bytes) (line : Bytes) (member : line ∈ lines) :
    line.length + 2 ≤ (lines.flatMap (· ++ crlf)).length := by
  obtain ⟨before, later, rfl⟩ := List.append_of_mem member
  simp only [List.flatMap_append, List.flatMap_cons, List.length_append, crlf, List.length_cons, List.length_nil]
  omega

theorem splitCrLf_line (line rest : Bytes) (inline_ : 13 ∉ line) :
    splitCrLf (line ++ crlf ++ rest) = line :: splitCrLf rest := by
  induction line with
  | nil => simp [crlf, splitCrLf]
  | cons b line ih =>
    obtain ⟨first, later⟩ : b ≠ 13 ∧ 13 ∉ line := by
      rw [List.mem_cons, not_or] at inline_
      exact ⟨Ne.symm inline_.1, inline_.2⟩
    have more : ∃ c tail, line ++ crlf ++ rest = c :: tail := by
      cases line with
      | nil => exact ⟨13, 10 :: rest, rfl⟩
      | cons c line => exact ⟨c, line ++ crlf ++ rest, rfl⟩
    obtain ⟨c, tail, whole⟩ := more
    have ih := ih later
    rw [List.cons_append, List.cons_append, whole, splitCrLf, if_neg (fun end_ => first end_.1), ← whole, ih]
    rfl

theorem splitCrLf_lines (lines : List Bytes) (inline_ : ∀ line ∈ lines, 13 ∉ line) :
    splitCrLf (lines.flatMap (· ++ crlf)) = lines ++ [[]] := by
  induction lines with
  | nil => rfl
  | cons line lines ih =>
    rw [List.flatMap_cons, splitCrLf_line line _ (inline_ line (List.mem_cons_self ..)),
      ih fun other member => inline_ other (List.mem_cons_of_mem _ member)]
    rfl

theorem parseHeaders_lines (lines : List Bytes) (inline_ : ∀ line ∈ lines, 13 ∉ line) :
    parseHeaders python (lines.flatMap (· ++ crlf)) = lines.foldl (parseHeader python) [] := by
  rw [parseHeaders, splitCrLf_lines lines inline_, List.foldl_append]
  rfl

def tokenName (name : String) : Bool :=
  name.toList.all fun c => 33 ≤ c.toNat ∧ c.toNat < 127 ∧ c.toNat ≠ 58

theorem latin1_ascii (s : Str) (plain : ∀ c ∈ s, c.toNat < 256) :
    latin1 (s.map fun c => UInt8.ofNat c.toNat) = s := by
  rw [latin1, List.map_map]
  refine (List.map_congr_left fun c member => ?_).trans (List.map_id s)
  have small := plain c member
  simp only [Function.comp_apply, id_eq, UInt8.toNat_ofNat']
  rw [Nat.mod_eq_of_lt small]
  exact Char.ofNat_toNat c

theorem toNat_latin1 (b : UInt8) : (Char.ofNat b.toNat).toNat = b.toNat := by
  have small := b.toNat_lt
  have valid : b.toNat.isValidChar := .inl (by omega)
  rw [Char.ofNat, dif_pos valid]
  rfl

theorem stripped_space (s : Str) : python.stripped (' ' :: s) = python.stripped s := by
  rw [Text.stripped, List.dropWhile_cons_of_pos (isSpace_space python)]
  rfl

theorem stripped_solid (s : Str) (plain : solid python s) : python.stripped s = s := by
  have kept (t : Str) (plain : solid python t) : t.dropWhile python.isSpace = t := by
    cases t with
    | nil => rfl
    | cons c t =>
      have solid_ : ¬ python.isSpace c = true := by simp [plain c (List.mem_cons_self ..)]
      rw [List.dropWhile_cons_of_neg solid_]
  have reversed : solid python s.reverse := fun c member => plain c (List.mem_reverse.mp member)
  rw [Text.stripped, kept s plain, kept _ reversed, List.reverse_reverse]

theorem lowerCase_ascii (s : Str) (plain : s.all (fun c => c.toNat < 128) = true) :
    python.lowerCase s = s.map Char.toLower := by
  rw [Python.lowerCase, List.map_eq_flatMap]
  exact List.flatMap_congr fun c member =>
    python.lower_ascii c (of_decide_eq_true (List.all_eq_true.mp plain c member))

theorem parseHeader_line (headers : Headers) (header : Header) (token : tokenName header.name = true) :
    parseHeader python headers header.line =
      dictSet (header.name.toList.map Char.toLower) (python.stripped (latin1 header.value)) headers := by
  have visible (c : Char) (member : c ∈ header.name.toList) : 33 ≤ c.toNat ∧ c.toNat < 127 ∧ c.toNat ≠ 58 :=
    of_decide_eq_true (List.all_eq_true.mp token c member)
  have name : python.lowerCase (python.stripped (latin1 (ascii header.name))) =
      header.name.toList.map Char.toLower := by
    have plain : header.name.toList.all (fun c => 33 ≤ c.toNat ∧ c.toNat < 127) = true :=
      List.all_eq_true.mpr fun c member => decide_eq_true ⟨(visible c member).1, (visible c member).2.1⟩
    have small : header.name.toList.all (fun c => c.toNat < 128) = true :=
      List.all_eq_true.mpr fun c member => decide_eq_true (by have := visible c member; omega)
    rw [ascii, latin1_ascii _ fun c member => by have := visible c member; omega,
      stripped_solid python _ (solid_ascii python _ plain), lowerCase_ascii python _ small]
  have noColon : ∀ b ∈ ascii header.name, (decide (b ≠ colon)) = true := by
    intro b member
    obtain ⟨c, inName, rfl⟩ := List.mem_map.mp member
    have visible := visible c inName
    rw [decide_eq_true_eq]
    intro same
    have value := congrArg UInt8.toNat same
    rw [UInt8.toNat_ofNat', Nat.mod_eq_of_lt (by omega)] at value
    exact visible.2.2 value
  have whole : header.line = ascii header.name ++ colon :: 32 :: header.value := by
    rw [Header.line, List.append_assoc]
    rfl
  have before : header.line.takeWhile (· ≠ colon) = ascii header.name := by
    rw [whole, List.takeWhile_append_of_pos noColon]
    simp
  have behind_ : (header.line.dropWhile (· ≠ colon)).drop 1 = 32 :: header.value := by
    rw [whole, List.dropWhile_append_of_pos noColon]
    simp
  have taken : ¬ (header.line = [] ∨ colon ∉ header.line) := by
    rw [whole]
    simp
  rw [parseHeader, if_neg taken]
  simp only [before, behind_, name]
  rw [← stripped_space python (latin1 header.value)]
  rfl

def said (headers : List Header) (name : String) : Option Bytes :=
  (headers.reverse.find? fun header => header.name.toList.map Char.toLower = name.toList).map Header.value

theorem lookup_setHeader (name other value : Str) (headers : Headers) :
    (dictSet name value headers).lookup other = if other = name then some value else headers.lookup other := by
  have same : (List.instBEq : BEq Str) = instBEqOfDecidableEq := lawful_beq_subsingleton ..
  rw [same]
  exact lookup_set name other value headers

theorem parseHeaders_said (headers : List Header) (tokens : ∀ header ∈ headers, tokenName header.name = true)
    (inline_ : ∀ header ∈ headers, 13 ∉ header.line) (name : String) :
    (parseHeaders python ((headers.map Header.line).flatMap (· ++ crlf))).lookup name.toList =
      (said headers name).map fun value => python.stripped (latin1 value) := by
  have lines : ∀ line ∈ headers.map Header.line, 13 ∉ line := by
    intro line member
    obtain ⟨header, listed, rfl⟩ := List.mem_map.mp member
    exact inline_ header listed
  rw [parseHeaders_lines python _ lines, List.foldl_map]
  clear lines inline_
  induction headers using List.reverseRecOn with
  | nil => rfl
  | append_singleton headers header ih =>
    have ih := ih fun other member => tokens other (List.mem_append_left _ member)
    have token := tokens header (List.mem_append_right _ (List.mem_singleton_self _))
    rw [List.foldl_append, List.foldl_cons, List.foldl_nil, parseHeader_line python _ header token,
      lookup_setHeader, ih]
    unfold said
    rw [List.reverse_append, List.reverse_singleton, List.singleton_append, List.find?_cons]
    by_cases named : header.name.toList.map Char.toLower = name.toList
    · simp [named]
    · simp [named, Ne.symm named]

theorem stripped_blank (s blank : Str) (spaces : ∀ c ∈ blank, python.isSpace c = true) :
    python.stripped (s ++ blank) = python.stripped s := by
  have backwards : ∀ c ∈ blank.reverse, python.isSpace c = true := fun c member =>
    spaces c (List.mem_reverse.mp member)
  rw [Text.stripped, Text.stripped, List.dropWhile_append]
  split
  next nothing =>
    rw [List.dropWhile_eq_nil_iff.mpr spaces, List.isEmpty_iff.mp nothing]
  next =>
    rw [List.reverse_append, List.dropWhile_append_of_pos backwards]

def roomMeant (path room : Bytes) : String :=
  if (latin1 room).all python.isSpace then python.normalizeRoom (queryParam (latin1 path) "room")
  else python.normalizeRoom (String.ofList (latin1 room))

theorem stripped_bearer (s : Str) :
    python.stripped ("Bearer ".toList ++ s) =
      if s.all python.isSpace then "Bearer".toList
      else "Bearer ".toList ++ (s.reverse.dropWhile python.isSpace).reverse := by
  have word : solid python "Bearer".toList := solid_ascii python _ (by decide)
  have first : ("Bearer ".toList ++ s).dropWhile python.isSpace = "Bearer ".toList ++ s := by
    have solid_ : ¬ python.isSpace 'B' = true := by simp [word 'B' (by decide)]
    exact List.dropWhile_cons_of_neg solid_
  have backwards : ("Bearer ".toList ++ s).reverse = s.reverse ++ (' ' :: "Bearer".toList.reverse) := by
    rw [List.reverse_append]
    rfl
  rw [Text.stripped, first, backwards, List.dropWhile_append]
  by_cases blank : s.all python.isSpace = true
  · have nothing : s.reverse.dropWhile python.isSpace = [] := by
      rw [List.dropWhile_eq_nil_iff]
      exact fun c member => List.all_eq_true.mp blank c (List.mem_reverse.mp member)
    have end_ : ¬ python.isSpace 'r' = true := by simp [word 'r' (by decide)]
    rw [if_pos blank, nothing, if_pos List.isEmpty_nil, List.dropWhile_cons_of_pos (isSpace_space python)]
    exact congrArg List.reverse (List.dropWhile_cons_of_neg end_)
  · have something : ¬ (s.reverse.dropWhile python.isSpace).isEmpty = true := by
      rw [List.isEmpty_iff, List.dropWhile_eq_nil_iff]
      exact fun all => blank (List.all_eq_true.mpr fun c member => all c (List.mem_reverse.mpr member))
    rw [if_neg blank, if_neg something, List.reverse_append]
    rfl

theorem normalizeRoom_trimmed (s : Str) :
    python.normalizeRoom (String.ofList (s.reverse.dropWhile python.isSpace).reverse) =
      python.normalizeRoom (String.ofList s) := by
  have whole : s = (s.reverse.dropWhile python.isSpace).reverse ++ (s.reverse.takeWhile python.isSpace).reverse := by
    rw [← List.reverse_append, List.takeWhile_append_dropWhile, List.reverse_reverse]
  have spaces : ∀ c ∈ (s.reverse.takeWhile python.isSpace).reverse, python.isSpace c = true :=
    fun c member => List.mem_takeWhile_imp (List.mem_reverse.mp member)
  have strip (t : Str) : python.strip (String.ofList t) = String.ofList (python.stripped t) := by
    rw [Text.strip, String.toList_ofList]
    rfl
  rw [Text.normalizeRoom, Text.normalizeRoom, strip, strip]
  conv_rhs => rw [whole, stripped_blank python _ _ spaces]

theorem upgrade_run (line : Bytes) (headers : Headers) (wire : Wire) :
    upgrade python line headers wire =
      (if !wire.site.store.rooms.isOpen (roomAsked python line headers) then refuse
      else if wire.site.store.rooms.isFull (roomAsked python line headers) then refuse
      else switchProtocols (roomAsked python line headers)
        (Ws.acceptKey (String.ofList (headers.get "sec-websocket-key" ""))) : Handler (Option String)) wire := rfl

def admission (site : Site) (room : String) (accept : Bytes) (behind : Wire) :
    EStateM.Result Stop Wire (Option String) :=
  if site.store.rooms.isOpen room && !site.store.rooms.isFull room then
    .ok (some room) (behind.sends (Ws.handshakeResponse accept))
  else .ok none { behind.sends forbidden with closed := true }

theorem admission_run (site : Site) (room : String) (accept later : Bytes) (ending : Ending) :
    recovered (if !site.store.rooms.isOpen room then refuse
      else if site.store.rooms.isFull room then refuse
      else switchProtocols room (some accept)) (connect site later ending true) =
        admission site room accept (connect site later ending true) := by
  unfold admission
  cases site.store.rooms.isOpen room with
  | false => rfl
  | true =>
    cases site.store.rooms.isFull room with
    | false => rfl
    | true => rfl

/-- What a client puts in its request: text on one line, a path without spaces, and a key that shows. -/
structure Presentable (host path key room : Bytes) : Prop where
  hostInline : Inline host
  pathInline : Inline path
  roomInline : Inline room
  unspaced : 32 ∉ path
  keyed : key ≠ []
  visible : key.all (fun b => 33 ≤ b.toNat ∧ b.toNat < 127) = true
  fits : (Ws.clientHandshakeRequest host path key room).length ≤ limit

section Client

variable {python} {host path key room : Bytes} (presentable : Presentable host path key room)

theorem clientHeaders_said :
    said (clientHeaders host key room) "upgrade" = some (ascii "websocket") ∧
      said (clientHeaders host key room) "connection" = some (ascii "Upgrade") ∧
      said (clientHeaders host key room) "sec-websocket-key" = some key ∧
      said (clientHeaders host key room) "authorization" =
        if room ≠ [] then some (ascii "Bearer " ++ room) else none := by
  have host_ : "Host".toList.map Char.toLower = "host".toList := by decide
  have upgrade : "Upgrade".toList.map Char.toLower = "upgrade".toList := by decide
  have connection : "Connection".toList.map Char.toLower = "connection".toList := by decide
  have key_ : "Sec-WebSocket-Key".toList.map Char.toLower = "sec-websocket-key".toList := by decide
  have authorization : "Authorization".toList.map Char.toLower = "authorization".toList := by decide
  have version : "Sec-WebSocket-Version".toList.map Char.toLower = "sec-websocket-version".toList := by decide
  unfold clientHeaders said
  split <;>
    simp only [List.reverse_cons, List.reverse_nil, List.nil_append, List.append_nil, List.cons_append, List.find?_cons,
      host_, upgrade, connection, key_, authorization, version, String.toList_inj, String.reduceEq, decide_false,
      decide_true, Option.map_some, List.find?_nil, Option.map_none, and_self]

theorem clientHeaders_tokens (header : Header) (member : header ∈ clientHeaders host key room) :
    tokenName header.name = true := by
  have names : ["Host", "Upgrade", "Connection", "Sec-WebSocket-Key", "Authorization", "Sec-WebSocket-Version"].all
      tokenName = true := by decide
  apply List.all_eq_true.mp names
  unfold clientHeaders at member
  split at member <;> simp at member <;> rcases member with rfl | rfl | rfl | rfl | rfl | rfl <;> simp

include presentable

theorem Presentable.inline (header : Header) (member : header ∈ clientHeaders host key room) :
    Inline header.line := by
  have host_ := presentable.hostInline
  have room_ := presentable.roomInline
  have key_ : Inline key := by
    have visible := List.all_eq_true.mp presentable.visible
    constructor <;> intro member <;> have range := of_decide_eq_true (visible _ member) <;> simp at range
  have plain (name : String) (shows : Inline (ascii name ++ ascii ": ")) (value : Bytes) (inline_ : Inline value) :
      Inline (Header.line ⟨name, value⟩) := by
    simp only [Inline, Header.line, List.mem_append, not_or] at shows inline_ ⊢
    exact ⟨⟨shows.1, inline_.1⟩, ⟨shows.2, inline_.2⟩⟩
  have bearer : Inline (ascii "Bearer " ++ room) := by
    have word : Inline (ascii "Bearer ") := by decide
    simp only [Inline, List.mem_append, not_or] at word room_ ⊢
    exact ⟨⟨word.1, room_.1⟩, ⟨word.2, room_.2⟩⟩
  have hosts := plain "Host" (by decide) host host_
  have upgrades := plain "Upgrade" (by decide) (ascii "websocket") (by decide)
  have connects := plain "Connection" (by decide) (ascii "Upgrade") (by decide)
  have keys := plain "Sec-WebSocket-Key" (by decide) key key_
  have authorizes := plain "Authorization" (by decide) (ascii "Bearer " ++ room) bearer
  have versions := plain "Sec-WebSocket-Version" (by decide) (ascii "13") (by decide)
  unfold clientHeaders at member
  split at member <;> simp at member
  · rcases member with rfl | rfl | rfl | rfl | rfl | rfl <;> assumption
  · rcases member with rfl | rfl | rfl | rfl | rfl <;> assumption

theorem Presentable.line : Inline (clientLine path) := by
  have path_ := presentable.pathInline
  have get_ : Inline (ascii "GET ") := by decide
  have version : Inline (ascii " HTTP/1.1") := by decide
  simp only [Inline, clientLine, List.mem_append, not_or] at path_ get_ version ⊢
  exact ⟨⟨⟨get_.1, path_.1⟩, version.1⟩, ⟨⟨get_.2, path_.2⟩, version.2⟩⟩

theorem Presentable.arrives (site : Site) (later : Bytes) (ending : Ending) (drains : Bool) :
    Arrives (connect site (Ws.clientHandshakeRequest host path key room ++ later) ending drains)
      { line := clientLine path ++ crlf
        block := ((clientHeaders host key room).map Header.line).flatMap (· ++ crlf)
        lines := (splitLines later).1
        remnant := (splitLines later).2 } := by
  have lines : ∀ line ∈ (clientHeaders host key room).map Header.line, 10 ∉ line := by
    intro line member
    obtain ⟨header, listed, rfl⟩ := List.mem_map.mp member
    exact (presentable.inline header listed).2
  have first : 10 ∉ clientLine path ++ [13] := by
    have inline_ := presentable.line.2
    simpa using inline_
  have split_ : splitLines (Ws.clientHandshakeRequest host path key room ++ later) =
      ((clientLine path ++ [13]) :: (((clientHeaders host key room).map Header.line).map (· ++ [13]) ++
        [13] :: (splitLines later).1), (splitLines later).2) := by
    have cut : Ws.clientHandshakeRequest host path key room ++ later =
        (clientLine path ++ [13]) ++ 10 :: (((clientHeaders host key room).map Header.line).flatMap (· ++ crlf) ++
          ([13] ++ 10 :: later)) := by
      simp [request_lines, crlf]
    rw [cut, splitLines_line _ _ first, splitLines_lines _ _ lines, splitLines_line [13] later (by decide)]
  have lines_eq : (connect site (Ws.clientHandshakeRequest host path key room ++ later) ending drains).lines =
      (clientLine path ++ [13]) :: (((clientHeaders host key room).map Header.line).map (· ++ [13]) ++
        [13] :: (splitLines later).1) := by
    rw [connect_lines, split_]
  have remnant_eq : (connect site (Ws.clientHandshakeRequest host path key room ++ later) ending drains).remnant =
      (splitLines later).2 := by
    rw [connect_remnant, split_]
  have fits : InLimit ((clientLine path ++ [13]) ::
      ((clientHeaders host key room).map Header.line).map (· ++ [13])) := by
    have fits := presentable.fits
    rw [request_lines] at fits
    simp only [List.length_append, crlf, List.length_cons, List.length_nil] at fits
    intro line member
    rcases List.mem_cons.mp member with rfl | inHeaders
    · simp only [List.length_append, List.length_cons, List.length_nil]
      omega
    · obtain ⟨header, listed, rfl⟩ := List.mem_map.mp inHeaders
      have short := length_flatMap_crlf _ header listed
      simp only [crlf] at short
      simp only [List.length_append, List.length_cons, List.length_nil]
      omega
  have filled : Filled (((clientHeaders host key room).map Header.line).map (· ++ [13])) := by
    intro line member
    obtain ⟨_, listed, rfl⟩ := List.mem_map.mp member
    obtain ⟨header, -, rfl⟩ := List.mem_map.mp listed
    have long : 2 ≤ header.line.length := by
      simp only [Header.line, ascii, List.length_append, List.length_map, String.reduceToList, List.length_cons,
        List.length_nil]
      omega
    rw [isBlank, decide_eq_false_iff_not]
    rintro (crLf | lf | none_)
    · have short := congrArg List.length crLf
      simp only [List.length_append, List.length_cons, List.length_nil] at short
      omega
    · have short := congrArg List.length lf
      simp only [List.length_append, List.length_cons, List.length_nil] at short
      omega
    · simp at none_
  have arrives := Arrives.blank _ _ _ _ lines_eq fits filled (by decide)
  have block_eq : joinLines (((clientHeaders host key room).map Header.line).map (· ++ [13])) [] =
      ((clientHeaders host key room).map Header.line).flatMap (· ++ crlf) := by
    simp [joinLines, List.flatMap_map, crlf]
  rw [remnant_eq, block_eq, List.append_assoc] at arrives
  exact arrives

omit presentable in
theorem wsPath_client (unspaced : 32 ∉ path) : wsPath (clientLine path ++ crlf) = latin1 path := by
  have parts : latin1 (clientLine path ++ crlf) =
      "GET".toList ++ ' ' :: (latin1 path ++ ' ' :: latin1 (ascii "HTTP/1.1" ++ crlf)) := by
    have first : latin1 (ascii "GET ") = "GET".toList ++ [' '] := by decide
    have last : latin1 (ascii " HTTP/1.1" ++ crlf) = ' ' :: latin1 (ascii "HTTP/1.1" ++ crlf) := by decide
    have append (before after : Bytes) : latin1 (before ++ after) = latin1 before ++ latin1 after :=
      List.map_append ..
    rw [clientLine, List.append_assoc, append, append, first, last]
    simp
  have plain : ' ' ∉ latin1 path := by
    intro member
    obtain ⟨b, inPath, same⟩ := List.mem_map.mp member
    have value := toNat_latin1 b
    rw [same] at value
    obtain rfl : b = 32 := UInt8.toNat_inj.mp value.symm
    exact unspaced inPath
  rw [wsPath, parts, List.splitOn_append_cons_self_of_not_mem (by decide),
    List.splitOn_append_cons_self_of_not_mem plain]
  rfl

omit presentable in
theorem roomAsked_bearer (headers : Headers) (unspaced : 32 ∉ path)
    (authorization : headers.get "authorization" "" =
      if room = [] then [] else python.stripped (latin1 (ascii "Bearer " ++ room))) :
    roomAsked python (clientLine path ++ crlf) headers = roomMeant python path room := by
  have small : ("Bearer ".toList).all (fun c => c.toNat < 128) = true := by decide
  unfold roomAsked roomMeant
  rw [authorization, wsPath_client unspaced]
  by_cases none_ : room = []
  · subst none_
    simp [Python.lowerCase, latin1]
  have whole : latin1 (ascii "Bearer " ++ room) = "Bearer ".toList ++ latin1 room := by
    rw [latin1, List.map_append]
    rfl
  rw [if_neg none_, whole, stripped_bearer]
  by_cases blank : (latin1 room).all python.isSpace = true
  · have short : python.lowerCase ("Bearer".toList.take 7) ≠ "bearer ".toList := by
      rw [lowerCase_ascii python _ (by decide)]
      decide
    rw [if_pos blank, if_pos blank]
    simp only [if_neg short]
  · have cut (rest : Str) : ("Bearer ".toList ++ rest).take 7 = "Bearer ".toList ∧
        ("Bearer ".toList ++ rest).drop 7 = rest := ⟨List.take_left' rfl, List.drop_left' rfl⟩
    have word : python.lowerCase "Bearer ".toList = "bearer ".toList := by
      rw [lowerCase_ascii python _ small]
      decide
    rw [if_neg blank, if_neg blank]
    simp only [(cut _).1, (cut _).2, word, if_pos]
    exact normalizeRoom_trimmed python _

variable (python) in
theorem Presentable.headers :
    upgrades python (parseHeaders python (((clientHeaders host key room).map Header.line).flatMap (· ++ crlf))) = true ∧
      (parseHeaders python (((clientHeaders host key room).map Header.line).flatMap (· ++ crlf))).get
        "sec-websocket-key" "" = latin1 key ∧
      roomAsked python (clientLine path ++ crlf)
        (parseHeaders python (((clientHeaders host key room).map Header.line).flatMap (· ++ crlf))) =
          roomMeant python path room := by
  have tokens := @clientHeaders_tokens host key room
  have lookups := parseHeaders_said python (clientHeaders host key room) tokens
    fun header member => (presentable.inline header member).1
  generalize parseHeaders python (((clientHeaders host key room).map Header.line).flatMap (· ++ crlf)) =
    headers at lookups ⊢
  obtain ⟨upgrade, connection, key_, authorization⟩ := @clientHeaders_said host key room
  have got (name default : String) (value : Bytes) (found : said (clientHeaders host key room) name = some value) :
      headers.get name default = python.stripped (latin1 value) := by
    rw [Headers.get, lookups, found]
    rfl
  have visible (text : Bytes) (shows : text.all (fun b => 33 ≤ b.toNat ∧ b.toNat < 127) = true) :
      solid python (latin1 text) := by
    apply solid_ascii
    rw [List.all_eq_true]
    intro c member
    obtain ⟨b, inText, rfl⟩ := List.mem_map.mp member
    have range := of_decide_eq_true (List.all_eq_true.mp shows b inText)
    rw [decide_eq_true_eq, toNat_latin1]
    exact range
  have keyGot : headers.get "sec-websocket-key" "" = latin1 key := by
    rw [got _ _ _ key_, stripped_solid python _ (visible key presentable.visible)]
  refine ⟨?_, keyGot, ?_⟩
  · have keyed : latin1 key ≠ [] := by simpa [latin1] using presentable.keyed
    have socket : python.lowerCase (headers.get "upgrade" "") = "websocket".toList := by
      rw [got _ _ _ upgrade, stripped_solid python _ (visible _ (by decide)),
        lowerCase_ascii python _ (by decide)]
      decide
    have connects : "upgrade".toList <:+: python.lowerCase (headers.get "connection" "") := by
      rw [got _ _ _ connection, stripped_solid python _ (visible _ (by decide)),
        lowerCase_ascii python _ (by decide)]
      decide
    rw [upgrades, keyGot, decide_eq_true_eq]
    exact ⟨keyed, decide_eq_true ⟨socket, connects⟩⟩
  · apply roomAsked_bearer headers presentable.unspaced
    rw [Headers.get, lookups, authorization]
    by_cases none_ : room = [] <;> simp [none_]

variable (python) in
theorem handleWs_client (site : Site) (later accept : Bytes) (ending : Ending)
    (accepts : Ws.acceptKey (String.ofList (latin1 key)) = some accept) :
    handleWs python (connect site (Ws.clientHandshakeRequest host path key room ++ later) ending true) =
      admission site (roomMeant python path room) accept (connect site later ending true) := by
  obtain ⟨asks, key_, room_⟩ := presentable.headers python
  have read := (presentable.arrives site later ending true).readHead
    (connect_newline site _ ending true)
  have body : (readHead >>= wsHead python)
      (connect site (Ws.clientHandshakeRequest host path key room ++ later) ending true) =
        upgrade python (clientLine path ++ crlf)
          (parseHeaders python (((clientHeaders host key room).map Header.line).flatMap (· ++ crlf)))
          (connect site later ending true) := by
    rw [bind_ok read, wsHead, upgrade_request python asks]
    rfl
  rw [upgrade_run, room_, key_, accepts] at body
  exact (recovered_congr body).trans (admission_run site _ accept later ending)

end Client
end Orchestrator

end MidiToIp
