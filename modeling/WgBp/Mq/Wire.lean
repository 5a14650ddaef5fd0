import WgBp.Mq.Node
import WgBp.Model.Wire

/-! Messages of the queue as texts. `_listenForUpdates` compares and disconnects the
sender by the text of its address, never taking it apart. -/
namespace WgBp.Mq

open WgBp.Library WgBp.Library.Procedure WgBp.Library.Json WgBp.Model

def Address.text (endpoint : Address) : String := addressText endpoint.ip endpoint.port

theorem Address.text_injective : Function.Injective Address.text := by
  rintro ⟨ip, port⟩ ⟨ip', port'⟩ same
  obtain ⟨rfl, rfl⟩ := addressText_inj same
  rfl

def Msg.json (late : Ip → Bool) (msg : Msg) : Value :=
  match msg.body with
  | .onboardNotice =>
    .object [("type", .text "ONBOARD_NOTICE"), ("from", .text msg.sender.text)]
  | .stateUpdate version state =>
    .object [("type", .text "STATE_UPDATE"), ("from", .text msg.sender.text),
      ("version", .number version), ("state", state.json late)]
  | .departureNotice virtualIp =>
    .object [("type", .text "DEPARTURE_NOTICE"), ("from", .text msg.sender.text),
      ("virtual_ip", .text virtualIp)]

structure Heard where
  sender : String
  body : Body

/-- The message in a text; `none` where an item is missing, or where no branch handles the
type. -/
def heard (text : List UInt8) : Option Heard := do
  let data ← loads text
  let sender ← (← data.get "from").asText
  let type ← (← data.get "type").asText
  if type = "STATE_UPDATE" then
    let version ← (← data.get "version").asNat
    let state ← PeerMap.ofJson (← data.get "state")
    pure ⟨sender, .stateUpdate version state⟩
  else if type = "DEPARTURE_NOTICE" then
    let virtualIp ← (← data.get "virtual_ip").asText
    pure ⟨sender, .departureNotice virtualIp⟩
  else if type = "ONBOARD_NOTICE" then pure ⟨sender, .onboardNotice⟩
  else none

/-- `_sub.disconnect` of the endpoint with the given text. -/
def disconnectText (endpoint : String) : EStateM Halt MqNode Unit := do
  match (← get).sync.sub.find? fun known => known.text = endpoint with
  | some known =>
    modify fun node => { node with sync := { node.sync with sub := node.sync.sub.erase known } }
  | none => throw (.raised .zmqError)

/-- The turn of `_listenForUpdates`, as far as it goes by the text of the sender. -/
def listenForHeard (msg : Heard) : EStateM Halt MqNode Unit := do
  if msg.sender = (address (← get)).text then pure ()
  else
    match msg.body with
    | .stateUpdate version peers =>
      if (← get).sync.version < version then
        modify fun node => { node with sync := { node.sync with
          ready := node.sync.ready || node.sync.version = 0
          version := version
          peers := peers } }
        checkForChanges
      else if version < (← get).sync.version then modify publishState
      else pure ()
    | .departureNotice virtualIp =>
      let _ ← getItem (.raised .keyError) (← get).sync.peers virtualIp
      modify fun node => { node with sync := { node.sync with
        peers := node.sync.peers.erase virtualIp } }
      disconnectText msg.sender
      modify fun node => { node with sync := { node.sync with
        version := node.sync.version + 1 } }
      selfFix
      checkForChanges
    | .onboardNotice => modify publishState

@[simp] theorem heard_dumps (late : Ip → Bool) (msg : Msg) :
    heard (dumps (msg.json late)) = some ⟨msg.sender.text, msg.body⟩ := by
  obtain ⟨sender, body⟩ := msg
  unfold heard
  rw [loads_dumps]
  cases body with
  | onboardNotice => rfl
  | stateUpdate version state =>
      have hstate := PeerMap.ofJson_json late state
      simp [Msg.json, Value.get, Value.asText, Value.asNat, List.lookup_cons, hstate]
  | departureNotice virtualIp => rfl

theorem find_text (sub : List Address) (endpoint : Address) :
    (sub.find? fun known => known.text = endpoint.text) =
      if endpoint ∈ sub then some endpoint else none := by
  induction sub with
  | nil => rfl
  | cons first rest ih =>
      rw [List.find?_cons]
      by_cases hfirst : first = endpoint
      · subst hfirst
        simp
      · have htext : first.text ≠ endpoint.text := fun h => hfirst (Address.text_injective h)
        simp [htext, ih, Ne.symm hfirst]

@[simp] theorem disconnectText_eq (endpoint : Address) :
    disconnectText endpoint.text = disconnect endpoint.ip (.port endpoint.port) := by
  unfold disconnectText disconnect
  refine bind_congr fun node => ?_
  rw [find_text]
  by_cases hknown : endpoint ∈ node.sync.sub
  · rw [if_pos hknown]
    exact (if_pos hknown).symm
  · rw [if_neg hknown]
    exact (if_neg hknown).symm

/-- Every message is read back from its text, and is handled by the text of its sender as
it is by the address. -/
theorem mq_wire (late : Ip → Bool) (msg : Msg) :
    ∃ data, heard (dumps (msg.json late)) = some data ∧
      ∀ node, (listenForHeard data).run node = (listenForUpdates msg).run node := by
  refine ⟨_, heard_dumps late msg, ?_⟩
  intro node
  have hsame : listenForHeard ⟨msg.sender.text, msg.body⟩ = listenForUpdates msg := by
    unfold listenForHeard listenForUpdates
    refine bind_congr fun node => ?_
    cases msg.body <;> simp only [Address.text_injective.eq_iff, disconnectText_eq]
  rw [hsame]

end WgBp.Mq
