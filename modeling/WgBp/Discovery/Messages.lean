import WgBp.Discovery.Join
import WgBp.Mq.Node
import WgBp.Dht.Node
import WgBp.Library.Json

/-! What a bootstrap node tells about its synchronization modules, and the texts of the
messages that `DiscoveryBroadcast` exchanges. -/
namespace WgBp.Discovery

open WgBp.Library WgBp.Library.Procedure WgBp.Library.Json WgBp.Model WgBp.Gossip

inductive Sync where
  | dht (port : Nat) (store : Dht.Store) (sync : Dht.SyncDHT)
  | gossip (sync : SyncGossip)
  | mq (sync : Mq.MessageQueueSync)

inductive Synced where
  | single (sync : Sync)
  | all (syncList : List Sync)

inductive SyncInfo where
  | dht (syncIp : Ip) (syncPort : Nat)
  | gossip (syncIp : Ip) (syncPort : Nat) (syncSeed : PeerRecord)
  | mq (syncSeed : PeerRecord)
  deriving DecidableEq

inductive Info where
  | single (info : SyncInfo)
  | all (syncList : List SyncInfo)
  deriving DecidableEq

/-- A module that does not list its own node raises. -/
def Sync.getInfo (ip : Ip) : Sync → Option SyncInfo
  | .dht port _ _ => some (.dht ip port)
  | .gossip sync => (sync.peers.lookup ip).map (.gossip ip sync.port)
  | .mq sync => (sync.peers.lookup ip).map .mq

def Synced.getInfo (ip : Ip) : Synced → Option Info
  | .single sync => (sync.getInfo ip).map .single
  | .all syncList => (syncList.mapM (Sync.getInfo ip)).map .all

def Sync.publishChange (state : State) (change : Change) : Sync → Sync
  | .dht port store sync =>
    let site := final (((Dht.publishChange change).run Dht.handle).run ⟨store, ⟨state, sync⟩⟩)
    .dht port site.store site.node.sync
  | .gossip sync => .gossip (Gossip.publishChange ⟨state, sync⟩ change).sync
  | .mq sync => .mq (Mq.publishChange ⟨state, sync⟩ change).sync

/-- Whether the call of `publishChange` returns: the DHT may find that the key list or the
counter is not set. -/
def Sync.publishes (state : State) (change : Change) : Sync → Bool
  | .dht _ store sync =>
    returned (((Dht.publishChange change).run Dht.handle).run ⟨store, ⟨state, sync⟩⟩)
  | .gossip _ | .mq _ => true

/-- `AllSync` calls one module after the other, up to the first that raises. -/
def publishAll (state : State) (change : Change) : List Sync → List Sync
  | [] => []
  | sync :: rest =>
    sync.publishChange state change ::
      if sync.publishes state change then publishAll state change rest else rest

def Synced.publishChange (state : State) (change : Change) : Synced → Synced
  | .single sync => .single (sync.publishChange state change)
  | .all syncList => .all (publishAll state change syncList)

def Synced.publishes (state : State) (change : Change) : Synced → Bool
  | .single sync => sync.publishes state change
  | .all syncList => syncList.all (Sync.publishes state change)

theorem publishAll_returns {state : State} {change : Change} {syncList : List Sync}
    (returns : syncList.all (Sync.publishes state change) = true) :
    publishAll state change syncList = syncList.map (Sync.publishChange state change) := by
  induction syncList with
  | nil => rfl
  | cons sync rest ih =>
      rw [List.all_cons, Bool.and_eq_true] at returns
      rw [publishAll, if_pos returns.1, ih returns.2, List.map_cons]

def syncModule : SyncModule Synced Info where
  getInfo := fun node => node.sync.getInfo node.state.ip
  publishChange := fun node change =>
    { node with sync := node.sync.publishChange node.state change }
  publishes := fun node => node.sync.publishes node.state
  state_publishChange := fun _ _ => rfl

def interfaceCode : Code UInt8 Interface :=
  ((string.lead (ascii "\x7b\"ip\": ")).pair
    (((number 44 (by decide)).lead (ascii ", \"port\": ")).pair
      ((string.lead (ascii " \"public_key\": ")).pair
        (string.lead (ascii ", \"public_ip\": "))))).view
    (fun json => (json.ip, json.port, json.publicKey, json.publicIp)) (by
      rintro ⟨⟩ ⟨⟩ h
      cases h
      rfl)

def syncPortParts : SyncPort → Unit ⊕ (Nat ⊕ Unit)
  | .missing => .inl ()
  | .port number => .inr (.inl number)
  | .null => .inr (.inr ())

theorem syncPortParts_injective : Function.Injective syncPortParts := by
  intro left right h
  cases left <;> cases right <;> cases h <;> rfl

/-- The entry for `sync_port` with the text behind it, or the text that stands there when
the key is missing. -/
def syncPortCode (key : List UInt8) (stop : UInt8) (behind absent : List UInt8)
    (outside : stop.toNat < 48 ∨ 57 < stop.toNat) (apart : ¬absent <+: key ∧ ¬key <+: absent) :
    Code UInt8 SyncPort :=
  let null := Code.unit.lead (ascii "null" ++ [stop])
  let value := (number stop outside).sum null fun _ => number_avoids outside (by decide) _
  let entry := (value.lead key).trail behind
  ((Code.unit.lead absent).sum entry fun c a s t h =>
    Code.lead_apart Code.unit value apart c a s (behind ++ t) (by
      rw [h]
      exact List.append_assoc ..)).view syncPortParts syncPortParts_injective

def strings : Code UInt8 (List String) := list string (Code.lead_avoids _ (by decide))

def recordCode : Code UInt8 PeerRecord :=
  ((string.lead (ascii "\x7b\"virtual_ip\": ")).pair
    ((string.lead (ascii ", \"public_key\": ")).pair
      ((string.lead (ascii ", \"endpoint_ip\": ")).pair
        (((number 44 (by decide)).lead (ascii ", \"endpoint_port\": ")).pair
          ((syncPortCode (ascii " \"sync_port\": ") 44 (ascii " \"allowed_ips\": ")
            (ascii " \"allowed_ips\": ") (by decide) (by decide)).pair
            (strings.trail (ascii "\x7d"))))))).view
    (fun record => (record.virtualIp, record.publicKey, record.endpointIp, record.endpointPort,
      record.syncPort, record.allowedIps)) (by
      rintro ⟨⟩ ⟨⟩ h
      cases h
      rfl)

def syncInfoParts : SyncInfo → (Ip × Nat) ⊕ ((Ip × Nat × PeerRecord) ⊕ PeerRecord)
  | .dht syncIp syncPort => .inl (syncIp, syncPort)
  | .gossip syncIp syncPort syncSeed => .inr (.inl (syncIp, syncPort, syncSeed))
  | .mq syncSeed => .inr (.inr syncSeed)

theorem syncInfoParts_injective : Function.Injective syncInfoParts := by
  intro left right h
  cases left <;> cases right <;> cases h <;> rfl

def syncInfoCode : Code UInt8 SyncInfo :=
  let dht := (string.pair ((number 125 (by decide)).lead (ascii ", \"sync-port\": "))).lead
    (ascii "\"DHT\", \"sync-ip\": ")
  let gossip := (string.pair (((number 44 (by decide)).lead (ascii ", \"sync-port\": ")).pair
    ((recordCode.lead (ascii " \"sync-seed\": ")).trail (ascii "\x7d")))).lead
    (ascii "\"Gossip\", \"sync-ip\": ")
  let mq := (recordCode.trail (ascii "\x7d")).lead (ascii "\"MQ\", \"sync-seed\": ")
  (dht.sum (gossip.sum mq (Code.lead_apart _ _ (by decide)))
    (Code.apart_sum (Code.lead_apart _ _ (by decide)) (Code.lead_apart _ _ (by decide)) _)).view
    syncInfoParts syncInfoParts_injective

def infoParts : Info → List SyncInfo ⊕ SyncInfo
  | .all syncList => .inl syncList
  | .single info => .inr info

theorem infoParts_injective : Function.Injective infoParts := by
  intro left right h
  cases left <;> cases right <;> cases h <;> rfl

def infoCode : Code UInt8 Info :=
  let item := syncInfoCode.lead (ascii "\x7b\"sync-type\": ")
  let all := ((list item (Code.lead_avoids _ (by decide))).trail (ascii "\x7d")).lead
    (ascii "\"ALL\", \"sync-list\": ")
  ((all.sum syncInfoCode (Code.apart_view (Code.apart_sum (Code.lead_apart _ _ (by decide))
    (Code.apart_sum (Code.lead_apart _ _ (by decide)) (Code.lead_apart _ _ (by decide)) _) _)
    _ syncInfoParts_injective)).view infoParts infoParts_injective).lead
    (ascii "\x7b\"sync-type\": ")

def requestCode : Code UInt8 Request :=
  ((string.lead (ascii "\x7b\"type\": ")).pair
    ((interfaceCode.lead (ascii ", \"status\": \"request\", \"content\": ")).pair
      ((syncPortCode (ascii ", \"sync_port\": ") 125 [] (ascii "\x7d") (by decide)
        (by decide)).trail (ascii "\x7d")))).view
    (fun request => (request.type,
      Interface.mk request.ip request.port request.publicKey request.publicIp,
      request.syncPort)) (by
      rintro ⟨⟩ ⟨⟩ h
      cases h
      rfl)

def responseParts : Response Info → (Interface × Info) ⊕ String
  | .success content sync => .inl (content, sync)
  | .error status => .inr status

theorem responseParts_injective : Function.Injective responseParts := by
  intro left right h
  cases left <;> cases right <;> cases h <;> rfl

def responseCode : Code UInt8 (Response Info) :=
  let success := (interfaceCode.pair ((infoCode.lead (ascii "\x7d, \"sync\": ")).trail
    (ascii "\x7d"))).lead
    (ascii "\x7b\"type\": \"BCAST_JOIN_RESPONSE\", \"status\": \"success\", \"content\": ")
  let error := (string.trail (ascii "\x7d")).lead
    (ascii "\x7b\"type\": \"ERROR\", \"status\": ")
  (success.sum error (Code.lead_apart _ _ (by decide))).view responseParts responseParts_injective

end WgBp.Discovery
