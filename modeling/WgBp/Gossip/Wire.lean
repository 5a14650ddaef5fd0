import Mathlib.Data.List.TakeWhile
import WgBp.Gossip.Node
import WgBp.Model.Wire

/-! Gossip messages as bytes on a connection: what `_sendStateToPeer` writes, and what
`_handleGossip` makes of what it reads. -/
namespace WgBp.Gossip

open WgBp.Library WgBp.Library.Json WgBp.Model

def MsgType.text : MsgType → String
  | .stateUpdate => "STATE_UPDATE"
  | .departureNotice => "DEPARTURE_NOTICE"

/-- Any other type is handled like a state update. -/
def MsgType.ofText (text : String) : MsgType :=
  if text = "DEPARTURE_NOTICE" then .departureNotice else .stateUpdate

@[simp] theorem MsgType.ofText_text (type : MsgType) : MsgType.ofText type.text = type := by
  cases type <;> rfl

def Msg.json (msg : Msg) : Value :=
  .object [("type", .text msg.type.text), ("version", .number msg.version),
    ("from", .text (addressText msg.fromIp msg.fromPort)), ("state", msg.state.json fun _ => false)]

def Msg.written (msg : Msg) : List UInt8 := dumps msg.json ++ [10]

/-- What `asyncio.start_server` gives its readers by default, 64 KiB. -/
def lineLimit : Nat := 2 ^ 16

/-- What `readline` takes from a stream, without the newline, and what it leaves. A
stream that ends gives what there is, and a line over the limit raises `ValueError`. -/
def readline (stream : List UInt8) : Option (List UInt8 × List UInt8) :=
  let line := stream.takeWhile (· ≠ 10)
  if line.length ≤ lineLimit then some (line, (stream.dropWhile (· ≠ 10)).tail) else none

/-- The message `_handleGossip` finds in a stream; `none` where it raises. -/
def received (stream : List UInt8) : Option Msg := do
  let (line, _) ← readline stream
  let value ← loads line
  let (fromIp, fromPort) ← splitAddress (← (← value.get "from").asText)
  let version ← (← value.get "version").asNat
  let state ← PeerMap.ofJson (← value.get "state")
  let type ← (← value.get "type").asText
  pure ⟨.ofText type, version, fromIp, fromPort, state⟩

theorem Msg.get_json (msg : Msg) :
    msg.json.get "type" = some (.text msg.type.text) ∧
      msg.json.get "version" = some (.number msg.version) ∧
      msg.json.get "from" = some (.text (addressText msg.fromIp msg.fromPort)) ∧
      msg.json.get "state" = some (msg.state.json fun _ => false) := by
  simp [Msg.json, Value.get, List.lookup_cons]

theorem received_of_loads {msg : Msg} {stream line rest : List UInt8}
    (taken : readline stream = some (line, rest)) (h : loads line = some msg.json) :
    received stream = if ':' ∈ msg.fromIp.toList then none else some msg := by
  obtain ⟨htype, hversion, hfrom, hstate⟩ := msg.get_json
  have haddress := splitAddress_addressText msg.fromIp msg.fromPort
  have hpeers := PeerMap.ofJson_json (fun _ => false) msg.state
  unfold received
  rw [taken]
  simp only [Option.bind_eq_bind, Option.bind_some, h, hfrom, Value.asText, haddress]
  split
  · rfl
  · simp only [hversion, Value.asNat, hstate, hpeers, htype, MsgType.ofText_text,
      Option.bind_some]
    rfl

theorem received_overlong {stream : List UInt8} (raised : readline stream = none) :
    received stream = none := by
  unfold received
  rw [raised]
  rfl

theorem not_newline {text : List UInt8} (printable : Printable text) :
    ∀ byte ∈ text, decide (byte ≠ 10) = true := by
  intro byte hbyte
  have hlow := (printable byte hbyte).1
  refine decide_eq_true ?_
  rintro rfl
  exact absurd hlow (by decide)

theorem readline_written (msg : Msg) (later : List UInt8) :
    readline (msg.written ++ later) =
      if msg.written.length ≤ lineLimit + 1 then some (dumps msg.json, later) else none := by
  have hline := not_newline (dumps_printable msg.json)
  have hlength : msg.written.length = (dumps msg.json).length + 1 := by simp [Msg.written]
  have htaken : (msg.written ++ later).takeWhile (· ≠ 10) = dumps msg.json := by
    rw [Msg.written, List.append_assoc, List.takeWhile_append_of_pos hline]
    simp
  have hleft : ((msg.written ++ later).dropWhile (· ≠ 10)).tail = later := by
    rw [Msg.written, List.append_assoc, List.dropWhile_append_of_pos hline]
    simp
  unfold readline
  dsimp only
  rw [htaken, hleft, hlength]
  simp only [Nat.add_le_add_iff_right]

theorem readline_printable {text : List UInt8} (printable : Printable text) :
    readline text = if text.length ≤ lineLimit then some (text, []) else none := by
  have hline := not_newline printable
  have htaken : text.takeWhile (· ≠ 10) = text := List.takeWhile_eq_self_iff.mpr hline
  have hleft : text.dropWhile (· ≠ 10) = [] := List.dropWhile_eq_nil_iff.mpr hline
  unfold readline
  dsimp only
  rw [htaken, hleft]
  rfl

theorem received_written (msg : Msg) (later : List UInt8) :
    received (msg.written ++ later) =
      if msg.written.length ≤ lineLimit + 1 ∧ ':' ∉ msg.fromIp.toList then some msg
      else none := by
  have hread := readline_written msg later
  by_cases hfits : msg.written.length ≤ lineLimit + 1
  · rw [if_pos hfits] at hread
    rw [received_of_loads hread (loads_dumps _)]
    by_cases hcolon : ':' ∈ msg.fromIp.toList <;> simp [hfits, hcolon]
  · rw [if_neg hfits] at hread
    rw [received_overlong hread, if_neg fun h => hfits h.1]

/-- A message whose text is within the limit of `readline` is read as it was sent, whatever
follows it, and a longer one is not read. If only the newline is missing it is read too, and
if more is missing nothing is. A sender with a colon in its address is never understood. -/
theorem gossip_wire (msg : Msg) :
    (∀ later, readline (msg.written ++ later) =
        (if msg.written.length ≤ lineLimit + 1 then some (dumps msg.json, later) else none) ∧
      received (msg.written ++ later) =
        if msg.written.length ≤ lineLimit + 1 ∧ ':' ∉ msg.fromIp.toList then some msg
        else none) ∧
    ∀ size, received (msg.written.take size) =
      if msg.written.length ≤ size + 1 ∧ msg.written.length ≤ lineLimit + 1 ∧
        ':' ∉ msg.fromIp.toList then some msg else none := by
  refine ⟨fun later => ⟨readline_written msg later, received_written msg later⟩, ?_⟩
  intro size
  have hlength : msg.written.length = (dumps msg.json).length + 1 := by simp [Msg.written]
  by_cases hsize : msg.written.length ≤ size
  · have hall := received_written msg []
    have hle : msg.written.length ≤ size + 1 := by omega
    rw [List.append_nil] at hall
    rw [List.take_of_length_le hsize, hall]
    simp only [hle, true_and]
  · have htake : msg.written.take size = (dumps msg.json).take size := by
      rw [Msg.written, List.take_append_of_le_length (by omega)]
    have hcut : Printable ((dumps msg.json).take size) :=
      fun byte hbyte => dumps_printable msg.json byte (List.mem_of_mem_take hbyte)
    have hread := readline_printable hcut
    rw [List.length_take, Nat.min_eq_left (by omega)] at hread
    rw [htake]
    by_cases hlimit : size ≤ lineLimit
    · rw [if_pos hlimit] at hread
      by_cases hnewline : size = (dumps msg.json).length
      · have hloads : loads ((dumps msg.json).take size) = some msg.json := by
          rw [hnewline, List.take_length, loads_dumps]
        have hle : msg.written.length ≤ size + 1 := by omega
        have hfits : msg.written.length ≤ lineLimit + 1 := by omega
        rw [received_of_loads hread hloads]
        by_cases hcolon : ':' ∈ msg.fromIp.toList <;> simp [hcolon, hle, hfits]
      · have hnone : loads ((dumps msg.json).take size) = none :=
          loads_take _ size (by change size < (dumps msg.json).length; omega)
        have hle : ¬msg.written.length ≤ size + 1 := by omega
        rw [if_neg fun h => hle h.1]
        unfold received
        rw [hread]
        simp only [Option.bind_eq_bind, Option.bind_some, hnone, Option.bind_none]
    · rw [if_neg hlimit] at hread
      rw [received_overlong hread, if_neg]
      rintro ⟨hle, hfits, -⟩
      omega

end WgBp.Gossip
