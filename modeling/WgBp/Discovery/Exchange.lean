import WgBp.Discovery.Admission
import WgBp.Discovery.Messages

/-! A joiner and a bootstrap node, from the request to what `startJoin` returns. Each side
reads what the other has sent into a buffer of a fixed size. -/
namespace WgBp.Discovery

open WgBp.Library WgBp.Model WgBp.Gossip

variable {σ ι : Type}

inductive Way where
  | direct
  | broadcast
  deriving DecidableEq

def Way.door (way : Way) : Door :=
  match way with
  | .direct => .direct attentive
  | .broadcast => .broadcast wellFormed

def Way.request (way : Way) (joiner : State) (syncPort : Option Nat) : Request where
  type := way.door.type
  ip := joiner.ip
  publicKey := joiner.publicKey
  publicIp := joiner.publicIp
  port := joiner.publicPort
  syncPort := syncPort.elim .null .port

def Handling.answer (sync : SyncModule σ ι) :
    Nat → Handling ι → Node σ → Option (Response ι) × Node σ
  | 0, _, node => (none, node)
  | steps + 1, handling, node =>
    match handling.advance sync node with
    | (.busy next, after, _) => next.answer sync steps after
    | (_, after, sent) => (sent.map Prod.snd, after)

def Way.handle (way : Way) (sync : SyncModule σ ι) (request : Request) (node : Node σ) :
    Option (Response ι) × Node σ :=
  match way with
  | .direct =>
    let outcome := (Client.new request).handled sync attentive 7 node
    (outcome.1.response, outcome.2)
  | .broadcast => (Handling.mk request .received none).answer sync 7 node

/-- Both handlers read 1024 bytes; what does not parse raises. -/
def Way.serve (way : Way) (requests : Codec UInt8 Request) (sync : SyncModule σ ι)
    (sent : List UInt8) (node : Node σ) : Option (Response ι) × Node σ :=
  match requests.decode (sent.take 1024) with
  | none => (none, node)
  | some request => way.handle sync request node

inductive JoinError where
  | silence
  | syntaxError
  | keyError
  | unboundLocalError
  deriving DecidableEq

def addBootstrap (content : Interface) : EStateM JoinError State Unit :=
  modify fun state =>
    state.addPeer content.ip content.publicKey content.publicIp content.port

/-- `startJoin` from the response on. A response that reports an error has no `content`. -/
def readResponse (responses : Codec UInt8 (Response ι)) (size : Nat) (unread : JoinError)
    (sent : List UInt8) : EStateM JoinError State ι :=
  match responses.decode (sent.take size) with
  | none => throw unread
  | some (.error _) => throw .keyError
  | some (.success content sync) => do
    addBootstrap content
    pure sync

/-- The two ways to join differ in the buffer and in what becomes of a response that cannot
be parsed: the `except` of the broadcast joiner catches everything, and the variable it goes
on to read has not been assigned. -/
def Way.startJoin (way : Way) (responses : Codec UInt8 (Response ι)) (sent : List UInt8) :
    EStateM JoinError State ι :=
  match way with
  | .direct => readResponse responses 4096 .syntaxError sent
  | .broadcast => readResponse responses 1024 .unboundLocalError sent

def Way.buffer (way : Way) : Nat :=
  match way with
  | .direct => 4096
  | .broadcast => 1024

def Way.served (way : Way) (requests : Codec UInt8 Request) (boot : Node Synced)
    (joiner : State) (syncPort : Option Nat) :
    Option (Response Info) × Node (Synced × List Change) :=
  way.serve requests syncModule.recorded (requests.encode (way.request joiner syncPort))
    ⟨boot.state, boot.sync, []⟩

structure Way.Admits (way : Way) (requests : Codec UInt8 Request) (boot : Node Synced)
    (joiner : State) (syncPort : Option Nat) : Prop where
  accepted : ∃ content info,
    (way.served requests boot joiner syncPort).1 = some (.success content info)
  published : ∃ change, (way.served requests boot joiner syncPort).2.sync.2 = [change]

def Way.joined (way : Way) (requests : Codec UInt8 Request)
    (responses : Codec UInt8 (Response Info)) (boot : Node Synced) (joiner : State)
    (syncPort : Option Nat) : EStateM.Result JoinError State Info :=
  match (way.served requests boot joiner syncPort).1 with
  | none => .error .silence joiner
  | some response => (way.startJoin responses (responses.encode response)).run joiner

def Way.Learns (way : Way) (requests : Codec UInt8 Request)
    (responses : Codec UInt8 (Response Info)) (boot : Node Synced) (joiner : State)
    (syncPort : Option Nat) (info : Info) : Prop :=
  ∃ after, way.joined requests responses boot joiner syncPort = .ok info after ∧
    after.peers.lookup boot.state.ip = some ⟨boot.state.publicKey, boot.state.publicIp,
      boot.state.publicPort, State.getAllowedIPs boot.state.ip⟩

private theorem told_advance {sync : SyncModule σ ι} {client next : Client ι}
    {node after : Node σ} (advances : Advances sync client node next after)
    (tested : client.stage ≠ .received) (told : client.stage ≠ .granted) :
    next.response = client.response ∧ next.stage ≠ .received ∧ next.stage ≠ .granted := by
  cases advances with
  | refused received => exact absurd received tested
  | granted received => exact absurd received tested
  | replied granted => exact absurd granted told
  | locked replied => exact ⟨rfl, by simp, by simp⟩
  | added locked => exact ⟨rfl, by simp, by simp⟩
  | published added => exact ⟨rfl, by simp, by simp⟩
  | released published => exact ⟨rfl, by simp, by simp⟩
  | raised added => exact ⟨rfl, tested, told⟩
  | crashed => exact ⟨rfl, tested, told⟩

private theorem told_handled (sync : SyncModule σ ι) (conversation : Conversation) (steps : Nat)
    {client : Client ι} (node : Node σ) (tested : client.stage ≠ .received)
    (told : client.stage ≠ .granted) :
    (client.handled sync conversation steps node).1.response = client.response := by
  induction steps generalizing client node with
  | zero => rfl
  | succ steps ih =>
      unfold Client.handled
      split
      · rfl
      · cases hadvance : client.advance sync node with
        | none => rfl
        | some outcome =>
            obtain ⟨hresponse, htested, htold⟩ :=
              told_advance (advances_of_advance hadvance) tested told
            exact (ih outcome.2 htested htold).trans hresponse

/-- What a success response says: the bootstrap node as it is, and what its module gives
when it is asked. -/
structure Tells (sync : SyncModule σ ι) (boot asked : Node σ) (request : Request)
    (content : Interface) (info : ι) : Prop where
  content : content = interfaceJson boot.state
  info : sync.getInfo asked = some info
  foreign : request.ip ≠ boot.state.ip

@[simp] theorem interfaceJson_addedTo (request : Request) (state : State) :
    interfaceJson (request.addedTo state) = interfaceJson state := by
  have hsame := request.addedTo_same state
  unfold interfaceJson
  rw [hsame.ip, hsame.publicPort, hsame.publicKey, hsame.publicIp]

private theorem attentive_intact (stage : Stage) : attentive.breaks stage = false := by
  cases stage <;> rfl

private theorem unanswered_advances {sync : SyncModule σ ι} {client : Client ι} {node : Node σ}
    {response : Response ι} {steps : Nat} (unanswered : client.response = none)
    (answers : (client.handled sync attentive (steps + 1) node).1.response = some response) :
    ∃ next after, Advances sync client node next after ∧
      (next.handled sync attentive steps after).1.response = some response := by
  have hintact := attentive_intact client.stage
  cases hadvance : client.advance sync node with
  | none =>
      rw [handled_over client hintact hadvance] at answers
      dsimp only at answers
      rw [unanswered] at answers
      cases answers
  | some outcome =>
      rw [handled_advance client hintact hadvance] at answers
      exact ⟨outcome.1, outcome.2, advances_of_advance hadvance, answers⟩

private theorem granted_tells {sync : SyncModule σ ι} {request : Request} {boot : Node σ}
    {content : Interface} {info : ι} {steps : Nat} (foreign : request.ip ≠ boot.state.ip)
    (answers :
      ((Client.mk request .granted true none).handled sync attentive (steps + 1) boot).1.response =
        some (.success content info)) : Tells sync boot boot request content info := by
  obtain ⟨next, after, hadvances, hnext⟩ := unanswered_advances rfl answers
  cases hadvances with
  | refused received => cases received
  | granted received => cases received
  | locked replied => cases replied
  | added locked => cases locked
  | published added => cases added
  | raised added => cases added
  | released published => cases published
  | crashed =>
      rw [handled_crashed boot rfl] at hnext
      cases hnext
  | replied granted known =>
      rw [told_handled sync attentive steps boot (by simp) (by simp)] at hnext
      cases hnext
      exact ⟨rfl, known, foreign⟩

private theorem direct_tells {sync : SyncModule σ ι} {request : Request} {boot : Node σ}
    {content : Interface} {info : ι}
    (accepted : (Way.direct.handle sync request boot).1 = some (.success content info)) :
    Tells sync boot boot request content info := by
  have hanswers : ((Client.new request).handled sync attentive 7 boot).1.response =
      some (.success content info) := accepted
  obtain ⟨next, after, hadvances, hnext⟩ := unanswered_advances rfl hanswers
  cases hadvances with
  | replied granted => cases granted
  | locked replied => cases replied
  | added locked => cases locked
  | published added => cases added
  | raised added => cases added
  | released published => cases published
  | crashed =>
      rw [handled_crashed boot rfl] at hnext
      cases hnext
  | refused received status =>
      rw [told_handled sync attentive 6 boot (by simp) (by simp)] at hnext
      cases hnext
  | granted received new foreign => exact granted_tells foreign hnext

private theorem added_tells {sync : SyncModule σ ι} {request : Request} {node : Node σ}
    {content : Interface} {info : ι}
    (accepted : ((Handling.mk request .added none).answer sync 5 node).1 =
      some (.success content info)) :
    content = interfaceJson node.state ∧ sync.getInfo node = some info := by
  cases hinfo : sync.getInfo node with
  | none => simp [Handling.answer, Handling.advance, hinfo] at accepted
  | some known =>
      cases hchange : request.change with
      | none => simp [Handling.answer, Handling.advance, hinfo, hchange] at accepted
      | some change =>
          cases hreturns : sync.publishes node change with
          | false =>
              simp [Handling.answer, Handling.advance, hinfo, hchange, hreturns] at accepted
          | true =>
              simp [Handling.answer, Handling.advance, hinfo, hchange, hreturns] at accepted
              exact ⟨accepted.1.symm, congrArg some accepted.2⟩

private theorem broadcast_tells {sync : SyncModule σ ι} {request : Request} {boot : Node σ}
    {content : Interface} {info : ι}
    (accepted : (Way.broadcast.handle sync request boot).1 = some (.success content info)) :
    Tells sync boot { boot with state := request.addedTo boot.state } request content info := by
  change ((Handling.mk request .received none).answer sync 7 boot).1 = _ at accepted
  by_cases htype : request.type = "BCAST_JOIN_REQUEST"
  · by_cases hknown : request.ip ∈ boot.state.peers ∨ request.ip = boot.state.ip
    · simp [Handling.answer, Handling.advance, htype, hknown] at accepted
    · have hadded : (Handling.mk request .received none).answer sync 7 boot =
          (Handling.mk request .added none).answer sync 5
            { boot with state := request.addedTo boot.state } := by
        simp [Handling.answer, Handling.advance, htype, hknown]
      rw [hadded] at accepted
      obtain ⟨hcontent, hinfo⟩ := added_tells accepted
      exact ⟨hcontent.trans (interfaceJson_addedTo request boot.state), hinfo,
        fun hip => hknown (.inr hip)⟩
  · simp [Handling.answer, Handling.advance, htype] at accepted

theorem Way.Admits.tells {way : Way} {requests : Codec UInt8 Request} {boot : Node Synced}
    {joiner : State} {syncPort : Option Nat}
    (admits : way.Admits requests boot joiner syncPort) :
    ∃ info, syncModule.getInfo boot = some info ∧ boot.state.ip ≠ joiner.ip ∧
      (way.served requests boot joiner syncPort).1 =
        some (.success (interfaceJson boot.state) info) := by
  obtain ⟨content, info, haccepted⟩ := admits.accepted
  have hhandled := haccepted
  unfold Way.served Way.serve at hhandled
  rw [requests.decode_take] at hhandled
  split at hhandled
  · cases hhandled
  · rename_i request hdecode
    split at hdecode
    · cases hdecode
      cases way with
      | direct =>
          obtain ⟨rfl, hinfo, hforeign⟩ := direct_tells hhandled
          exact ⟨info, hinfo, Ne.symm hforeign, haccepted⟩
      | broadcast =>
          obtain ⟨rfl, hinfo, hforeign⟩ := broadcast_tells hhandled
          have hip := ((Way.broadcast.request joiner syncPort).addedTo_same boot.state).ip
          refine ⟨info, ?_, Ne.symm hforeign, haccepted⟩
          change boot.sync.getInfo _ = _ at hinfo
          rwa [hip] at hinfo
    · cases hdecode

section Reading

variable {responses : Codec UInt8 (Response ι)} {content : Interface} {info : ι}

private theorem readResponse_fits {size : Nat}
    (fits : (responses.encode (.success content info)).length ≤ size) (unread : JoinError)
    (joiner : State) :
    (readResponse responses size unread (responses.encode (.success content info))).run joiner =
      .ok info (joiner.addPeer content.ip content.publicKey content.publicIp content.port) := by
  unfold readResponse
  rw [responses.decode_take, if_pos fits]
  rfl

private theorem readResponse_cut {size : Nat}
    (cut : ¬(responses.encode (.success content info)).length ≤ size) (unread : JoinError)
    (joiner : State) :
    (readResponse responses size unread (responses.encode (.success content info))).run joiner =
      .error unread joiner := by
  unfold readResponse
  rw [responses.decode_take, if_neg cut]
  rfl

theorem startJoin_fits {way : Way}
    (fits : (responses.encode (.success content info)).length ≤ way.buffer) (joiner : State) :
    (way.startJoin responses (responses.encode (.success content info))).run joiner =
      .ok info (joiner.addPeer content.ip content.publicKey content.publicIp content.port) := by
  cases way with
  | direct => exact readResponse_fits fits .syntaxError joiner
  | broadcast => exact readResponse_fits fits .unboundLocalError joiner

theorem startJoin_cut {way : Way}
    (cut : ¬(responses.encode (.success content info)).length ≤ way.buffer) (joiner : State) :
    ∃ error, (way.startJoin responses (responses.encode (.success content info))).run joiner =
      .error error joiner := by
  cases way with
  | direct => exact ⟨.syntaxError, readResponse_cut cut .syntaxError joiner⟩
  | broadcast => exact ⟨.unboundLocalError, readResponse_cut cut .unboundLocalError joiner⟩

end Reading

theorem learns_iff_fits {way : Way} {requests : Codec UInt8 Request}
    {responses : Codec UInt8 (Response Info)} {boot : Node Synced} {joiner : State}
    {syncPort : Option Nat} {info : Info}
    (answered : (way.served requests boot joiner syncPort).1 =
      some (.success (interfaceJson boot.state) info)) (foreign : boot.state.ip ≠ joiner.ip) :
    way.Learns requests responses boot joiner syncPort info ↔
      (responses.encode (.success (interfaceJson boot.state) info)).length ≤ way.buffer := by
  unfold Way.Learns Way.joined
  rw [answered]
  dsimp only
  constructor
  · rintro ⟨after, hjoined, -⟩
    by_contra hcut
    obtain ⟨error, hrun⟩ := startJoin_cut hcut joiner
    rw [hrun] at hjoined
    cases hjoined
  · intro hfits
    refine ⟨_, startJoin_fits hfits joiner, ?_⟩
    exact (State.lookup_addPeer joiner _ _ _ _ foreign).trans (if_pos rfl)

theorem joiner_learns_iff (way : Way) (requests : Codec UInt8 Request)
    (responses : Codec UInt8 (Response Info)) (boot : Node Synced) (joiner : State)
    (syncPort : Option Nat) (admits : way.Admits requests boot joiner syncPort) :
    ∃ info, syncModule.getInfo boot = some info ∧
      (way.Learns requests responses boot joiner syncPort info ↔
        (responses.encode (.success (interfaceJson boot.state) info)).length ≤ way.buffer) := by
  obtain ⟨info, hinfo, hforeign, hanswered⟩ := admits.tells
  exact ⟨info, hinfo, learns_iff_fits hanswered hforeign⟩

/-! Broadcasts in JSON: to a node that runs all three modules, and to one that routes sixty
networks. -/

def newcomer : State := State.new "10.0.0.2" "kb" "198.51.100.2" 51820

theorem served_fits {way : Way} {requests : Codec UInt8 Request} {boot : Node Synced}
    {joiner : State} {syncPort : Option Nat}
    (fits : (requests.encode (way.request joiner syncPort)).length ≤ 1024) :
    way.served requests boot joiner syncPort =
      way.handle syncModule.recorded (way.request joiner syncPort)
        ⟨boot.state, boot.sync, []⟩ := by
  unfold Way.served Way.serve
  rw [requests.decode_take, if_pos fits]

theorem newcomer_served (boot : Node Synced) :
    Way.broadcast.served requestCode.codec boot newcomer (some 5555) =
      Way.broadcast.handle syncModule.recorded (Way.broadcast.request newcomer (some 5555))
        ⟨boot.state, boot.sync, []⟩ := by
  apply served_fits
  change (requestCode.print (Way.broadcast.request newcomer (some 5555))).length ≤ 1024
  decide +kernel

def answerSize (boot : Node Synced) : Option Nat :=
  (syncModule.getInfo boot).map fun info =>
    (responseCode.print (.success (interfaceJson boot.state) info)).length

theorem length_answer {boot : Node Synced} {info : Info} {size : Nat}
    (known : syncModule.getInfo boot = some info) (sized : answerSize boot = some size) :
    (responseCode.codec.encode (.success (interfaceJson boot.state) info)).length = size := by
  unfold answerSize at sized
  rw [known, Option.map_some] at sized
  exact Option.some.inj sized

def versatileNode : Node Synced :=
  let state := State.new "10.0.0.1" "ka" "198.51.100.1" 51820
  let sync : Mq.MessageQueueSync :=
    ⟨5555, 0, Dict.set ∅ state.ip (state.ownRecord 5555), true, [], []⟩
  ⟨state, .all [.dht 6881 ⟨some 0, some [state.ip], ∅⟩ ⟨0, 0⟩,
    .gossip (SyncGossip.new state none 6888), .mq sync]⟩

theorem joiner_learns_versatile :
    ∃ info, syncModule.getInfo versatileNode = some info ∧
      Way.broadcast.Learns requestCode.codec responseCode.codec versatileNode newcomer
        (some 5555) info := by
  have hadmits : Way.broadcast.Admits requestCode.codec versatileNode newcomer (some 5555) := by
    refine ⟨?_, ?_⟩
    · rw [newcomer_served]
      exact ⟨_, _, rfl⟩
    · have hpublished : (Way.broadcast.handle syncModule.recorded
          (Way.broadcast.request newcomer (some 5555))
            ⟨versatileNode.state, versatileNode.sync, []⟩).2.sync.2.length = 1 := by
        decide +kernel
      rw [newcomer_served]
      exact List.length_eq_one_iff.mp hpublished
  obtain ⟨info, hinfo, hlearns⟩ := joiner_learns_iff .broadcast requestCode.codec
    responseCode.codec versatileNode newcomer (some 5555) hadmits
  have hsize : answerSize versatileNode = some 678 := by decide +kernel
  refine ⟨info, hinfo, hlearns.mpr ?_⟩
  rw [length_answer hinfo hsize]
  decide

def manyRoutes : List String := (List.range 60).map fun n => "10.1." ++ toString n ++ ".0/24"

def routingNode : Node Synced :=
  let state := State.new "10.0.0.1" "ka" "198.51.100.1" 51820
  let routing := { state with allowedIps := state.allowedIps ++ manyRoutes }
  ⟨routing, .single (.gossip (SyncGossip.new routing none 6888))⟩

theorem joiner_learns_fails :
    ¬ ∀ (way : Way) (requests : Codec UInt8 Request) (responses : Codec UInt8 (Response Info))
      (boot : Node Synced) (joiner : State) (syncPort : Option Nat),
      way.Admits requests boot joiner syncPort →
      ∃ info, syncModule.getInfo boot = some info ∧
        way.Learns requests responses boot joiner syncPort info := by
  intro claimed
  have hadmits : Way.broadcast.Admits requestCode.codec routingNode newcomer (some 5555) := by
    refine ⟨?_, ?_⟩
    · rw [newcomer_served]
      exact ⟨_, _, rfl⟩
    · rw [newcomer_served]
      exact ⟨_, rfl⟩
  obtain ⟨info, hinfo, hlearns⟩ := claimed .broadcast requestCode.codec responseCode.codec
    routingNode newcomer (some 5555) hadmits
  obtain ⟨known, hknown, hforeign, hanswered⟩ := hadmits.tells
  rw [hinfo] at hknown
  cases hknown
  have hfits := (learns_iff_fits hanswered hforeign).mp hlearns
  have hsize : answerSize routingNode = some 1339 := by decide +kernel
  rw [length_answer hinfo hsize] at hfits
  exact absurd hfits (by decide)

end WgBp.Discovery
