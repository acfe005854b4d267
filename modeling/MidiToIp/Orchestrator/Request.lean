import Mathlib.Data.List.Infix
import MidiToIp.Orchestrator.Provisioning
import MidiToIp.Shared.Bytes

set_option autoImplicit false

namespace MidiToIp.Orchestrator

open Octets Dicts

abbrev Str := List Char

inductive Exc where
  | osError
  | valueError
  | unicodeEncodeError
  | recursionError
  | attributeError
  deriving DecidableEq, Repr

/-- What the handlers use of Python: the case of characters, its JSON, and what comes of writing the
rooms file. -/
structure Python extends Text where
  upper_space : ∀ c, isSpace c = true → upper c = [c]
  lower : Char → List Char
  lower_ascii : ∀ c : Char, c.toNat < 128 → lower c = [c.toLower]
  loads : String → Except Exc Json
  str : Json → Except Exc String
  dump : Json → Except Exc Unit

theorem asciiText_upper_space (c : Char) (space : asciiText.isSpace c = true) : asciiText.upper c = [c] := by
  have range := of_decide_eq_true space
  change [c.toUpper] = [c]
  unfold Char.toUpper
  split
  next within =>
    have least : 97 ≤ c.toNat := UInt32.le_iff_toNat_le.mp within.1
    omega
  next => rfl

def asciiPython : Python :=
  { asciiText with
    upper_space := asciiText_upper_space
    lower := fun c => [c.toLower]
    lower_ascii := fun _ _ => rfl
    loads := fun _ => .error .valueError
    str := fun _ => .error .valueError
    dump := fun _ => .ok () }

variable (python : Python)

def latin1 (bytes : Bytes) : Str := bytes.map fun b => Char.ofNat b.toNat

def Text.stripped (text : Text) (s : Str) : Str :=
  ((s.dropWhile text.isSpace).reverse.dropWhile text.isSpace).reverse

def Text.upperCase (text : Text) (s : Str) : Str := s.flatMap text.upper

def Python.lowerCase (s : Str) : Str := s.flatMap python.lower

def Text.words (text : Text) (s : Str) : List Str := (s.splitOnP text.isSpace).filter (· ≠ [])

def behind (c : Char) (s : Str) : Str := (s.dropWhile (· ≠ c)).drop 1

def intDigits (digitBefore : Bool) : Str → Option (List Nat)
  | [] => if digitBefore then some [] else none
  | c :: rest =>
    if c.isDigit then (intDigits true rest).map ((c.toNat - 48) :: ·)
    else if c = '_' ∧ digitBefore then intDigits false rest
    else none

def intMaxStrDigits : Nat := 4300

def Text.int (text : Text) (s : Str) : Option Int :=
  let (sign, digits) : Int × Str :=
    match text.stripped s with
    | '-' :: rest => (-1, rest)
    | '+' :: rest => (1, rest)
    | digits => (1, digits)
  (intDigits false digits).bind fun digits =>
    if digits.length ≤ intMaxStrDigits then
      some (sign * (digits.foldl (fun value digit => value * 10 + digit) 0 : Nat))
    else none

abbrev Headers := List (Str × Str)

def Headers.get (headers : Headers) (name : String) (default : String) : Str :=
  (headers.lookup name.toList).getD default.toList

def splitCrLf : Bytes → List Bytes
  | [] => [[]]
  | [b] => [[b]]
  | b :: c :: rest =>
    if b = 13 ∧ c = 10 then [] :: splitCrLf rest
    else (splitCrLf (c :: rest)).modifyHead (b :: ·)

def colon : UInt8 := 58

def parseHeader (headers : Headers) (line : Bytes) : Headers :=
  if line = [] ∨ colon ∉ line then headers
  else
    let name := line.takeWhile (· ≠ colon)
    let value := (line.dropWhile (· ≠ colon)).drop 1
    dictSet (python.lowerCase (python.stripped (latin1 name))) (python.stripped (latin1 value)) headers

def parseHeaders (raw : Bytes) : Headers := (splitCrLf raw).foldl (parseHeader python) []

def isUpgrade (headers : Headers) : Bool :=
  python.lowerCase (headers.get "upgrade" "") = "websocket".toList ∧
    "upgrade".toList <:+: python.lowerCase (headers.get "connection" "")

def contentLength (headers : Headers) : Nat :=
  let value := headers.get "content-length" "0"
  match python.int (if value = [] then "0".toList else value) with
  | some clen => if 0 < clen ∧ clen ≤ 65536 then clen.toNat else 0
  | none => 0

def pathOnly (path : Str) : Str := path.takeWhile (· ≠ '?')

def queryParam (path : Str) (name : String) : String :=
  let parts := (behind '?' path).splitOn '&'
  match parts.find? fun part => part.takeWhile (· ≠ '=') = name.toList with
  | some part => String.ofList (behind '=' part)
  | none => ""

-- Of the exceptions only ValueError is caught, and with it UnicodeEncodeError.
def roomKeyFromBody (body : Bytes) : Except Exc String :=
  let txt := python.stripped (latin1 body)
  if txt.head? = some (Char.ofNat 123) then
    match (do
      let value ← python.loads (String.ofList txt)
      let key ← (value.get "key" (.str "")).mapError fun _ => Exc.attributeError
      python.str key) with
    | .error .valueError | .error .unicodeEncodeError => .ok ""
    | result => result
  else if "key=".toList <+: txt then .ok (String.ofList ((txt.drop 4).takeWhile (· ≠ '&')))
  else .ok (String.ofList txt)

inductive Route where
  | status (room : String)
  | rooms
  | createRoom
  | deleteRoom (key : String)
  | lobby
  | page
  | notFound
  deriving DecidableEq, Repr

def route (method path : Str) : Route :=
  if method = "GET".toList ∧ pathOnly path = "/status.json".toList then
    .status (python.normalizeRoom (queryParam path "room"))
  else if method = "GET".toList ∧ pathOnly path = "/rooms".toList then .rooms
  else if method = "POST".toList ∧ pathOnly path = "/rooms".toList then .createRoom
  else if method = "DELETE".toList ∧ "/rooms/".toList <+: pathOnly path then
    .deleteRoom (python.normalizeRoom (String.ofList ((pathOnly path).drop 7)))
  else if method = "GET".toList ∧ pathOnly path = "/lobby".toList then .lobby
  else if method = "GET".toList ∧ pathOnly path = "/".toList then .page
  else .notFound

end MidiToIp.Orchestrator
