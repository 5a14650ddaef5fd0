import WgBp.Discovery.Join
import WgBp.Library.Transition

/-! Which addresses a bootstrap node grants, over all interleavings of its join
handlers with the edits other modules make to `State`. -/
namespace WgBp.Discovery

open WgBp.Library WgBp.Library.Mutex WgBp.Library.Transition WgBp.Model WgBp.Gossip

inductive Event where
  | granted (client : Nat) (ip : Ip)
  | removed (ip : Ip)
  deriving DecidableEq

/-- The log has the newest event first. -/
structure Bootstrap (σ ι : Type) where
  node : Node σ
  clients : List (Client ι)
  log : List Event
  deriving DecidableEq

/-- `learn` and `forget` are edits by a synchronization module under the lock. -/
inductive JoinLabel (σ : Type) where
  | accept (request : Request)
  | advance (client : Nat)
  | crash (client : Nat)
  | learn (peerIp : Ip) (publicKey endpointIp : String) (endpointPort : Nat)
  | forget (peerIp : Ip)
  | sync (value : σ)
  deriving DecidableEq

variable {σ ι : Type}

def grantEvent (index : Nat) (before after : Client ι) : List Event :=
  if before.stage = .granted ∧ after.stage = .replied then
    [.granted index before.request.ip]
  else []

def removalEvent (peerIp : Ip) (before after : State) : List Event :=
  if peerIp ∈ before.peers ∧ peerIp ∉ after.peers then [.removed peerIp] else []

def serve (sync : SyncModule σ ι) (boot : Bootstrap σ ι) :
    JoinLabel σ → Option (Bootstrap σ ι)
  | .accept request => some { boot with clients := boot.clients ++ [.new request] }
  | .advance index => do
    let client ← boot.clients[index]?
    let (after, node) ← client.advance sync boot.node
    some
      { node
        clients := boot.clients.set index after
        log := grantEvent index client after ++ boot.log }
  | .crash index => do
    let client ← boot.clients[index]?
    some { boot with clients := boot.clients.set index client.crashed }
  | .learn peerIp publicKey endpointIp endpointPort =>
    if boot.node.state.locked then none
    else
      some { boot with node := { boot.node with
        state := boot.node.state.addPeer peerIp publicKey endpointIp endpointPort } }
  | .forget peerIp =>
    if boot.node.state.locked then none
    else
      some { boot with
        node := { boot.node with state := boot.node.state.removePeer peerIp }
        log := removalEvent peerIp boot.node.state (boot.node.state.removePeer peerIp) ++ boot.log }
  | .sync value => some { boot with node := { boot.node with sync := value } }

def Bootstrap.start (node : Node σ) : Bootstrap σ ι := ⟨node, [], []⟩

def GrantedOnce (log : List Event) : Prop :=
  ∀ (later mid earlier : List Event) (left right : Nat) (ip : Ip),
    log = later ++ .granted right ip :: (mid ++ .granted left ip :: earlier) →
    .removed ip ∈ mid

/-- No handler tests an address that another handler has found free and not yet added. -/
def undisputed (boot : Bootstrap σ ι) : JoinLabel σ → Bool
  | .advance index =>
    match boot.clients[index]? with
    | some client =>
      client.stage ≠ .received ||
        boot.clients.all fun other => !other.reserves || other.request.ip ≠ client.request.ip
    | none => true
  | _ => true

def LastGranted (log : List Event) (client : Nat) (ip : Ip) : Prop :=
  ∃ mid earlier, log = mid ++ .granted client ip :: earlier ∧ .removed ip ∉ mid

theorem lastGranted_granted {log : List Event} {client other : Nat} {ip otherIp : Ip}
    (h : LastGranted (.granted other otherIp :: log) client ip) :
    (client = other ∧ ip = otherIp) ∨ LastGranted log client ip := by
  obtain ⟨mid, earlier, hlog, hmid⟩ := h
  cases mid with
  | nil =>
      cases hlog
      exact .inl ⟨rfl, rfl⟩
  | cons event rest =>
      cases hlog
      exact .inr ⟨rest, earlier, rfl, fun hmem => hmid (List.mem_cons_of_mem _ hmem)⟩

theorem lastGranted_removed {log : List Event} {client : Nat} {ip removed : Ip}
    (h : LastGranted (.removed removed :: log) client ip) :
    ip ≠ removed ∧ LastGranted log client ip := by
  obtain ⟨mid, earlier, hlog, hmid⟩ := h
  cases mid with
  | nil => cases hlog
  | cons event rest =>
      cases hlog
      refine ⟨?_, rest, earlier, rfl, fun hmem => hmid (List.mem_cons_of_mem _ hmem)⟩
      rintro rfl
      exact hmid (List.mem_cons_self ..)

theorem GrantedOnce.granted {log : List Event} (h : GrantedOnce log) (client : Nat) {ip : Ip}
    (standing : ∀ index, ¬ LastGranted log index ip) :
    GrantedOnce (.granted client ip :: log) := by
  intro later mid earlier left right other hlog
  cases later with
  | nil =>
      cases hlog
      by_contra hmid
      exact standing left ⟨mid, earlier, rfl, hmid⟩
  | cons event rest =>
      cases hlog
      exact h rest mid earlier left right other rfl

theorem GrantedOnce.removed {log : List Event} (h : GrantedOnce log) (ip : Ip) :
    GrantedOnce (.removed ip :: log) := by
  intro later mid earlier left right other hlog
  cases later with
  | nil => cases hlog
  | cons event rest =>
      cases hlog
      exact h rest mid earlier left right other rfl

/-- A granted address is known, or its handler is about to add it; a handler about
to grant an address is the only one, and finds no grant of it standing. -/
structure Orderly (boot : Bootstrap σ ι) : Prop where
  once : GrantedOnce boot.log
  foreign : ∀ client ∈ boot.clients, client.reserves = true →
    client.request.ip ≠ boot.node.state.ip
  unique : ∀ (i j : Nat) (left right : Client ι), boot.clients[i]? = some left →
    boot.clients[j]? = some right → left.reserves = true → right.reserves = true →
    left.request.ip = right.request.ip → i = j
  known : ∀ index ip, LastGranted boot.log index ip → ip ∈ boot.node.state.peers ∨
    ∃ client ∈ boot.clients, client.reserves = true ∧ client.request.ip = ip
  standing : ∀ client ∈ boot.clients, client.stage = .granted →
    ∀ index, ¬ LastGranted boot.log index client.request.ip
  own : ∀ index ip, .granted index ip ∈ boot.log → ip ≠ boot.node.state.ip

/-- A step of one handler that grants nothing: addresses only become known, and the
handler gives up its reservation only for a known address. -/
theorem Orderly.moved {boot : Bootstrap σ ι} (orderly : Orderly boot) {index : Nat}
    {client after : Client ι} {node : Node σ} (member : boot.clients[index]? = some client)
    (request : after.request = client.request) (ip : node.state.ip = boot.node.state.ip)
    (grows : ∀ other ∈ boot.node.state.peers, other ∈ node.state.peers)
    (reserves : after.reserves = true → client.reserves = true)
    (settled : client.reserves = true →
      after.reserves = true ∨ client.request.ip ∈ node.state.peers)
    (granted : after.stage = .granted → client.stage = .granted) :
    Orderly { boot with node, clients := boot.clients.set index after } where
  once := orderly.once
  own := fun other otherIp hmem => ip ▸ orderly.own other otherIp hmem
  foreign := by
    intro other hmem hreserves
    rw [ip]
    rcases List.mem_or_eq_of_mem_set hmem with hold | rfl
    · exact orderly.foreign other hold hreserves
    · rw [request]
      exact orderly.foreign client (List.mem_of_getElem? member) (reserves hreserves)
  standing := by
    intro other hmem hstage
    rcases List.mem_or_eq_of_mem_set hmem with hold | rfl
    · exact orderly.standing other hold hstage
    · rw [request]
      exact orderly.standing client (List.mem_of_getElem? member) (granted hstage)
  unique := by
    intro i j left right hi hj hleft hright hsame
    rcases thread_set_cases hi with ⟨rfl, rfl⟩ | ⟨_, hleftOld⟩ <;>
      rcases thread_set_cases hj with ⟨rfl, rfl⟩ | ⟨_, hrightOld⟩
    · rfl
    · exact orderly.unique _ _ _ _ member hrightOld (reserves hleft) hright (request ▸ hsame)
    · exact orderly.unique _ _ _ _ hleftOld member hleft (reserves hright) (request ▸ hsame)
    · exact orderly.unique _ _ _ _ hleftOld hrightOld hleft hright hsame
  known := by
    intro other otherIp hlast
    rcases orderly.known other otherIp hlast with hknown | ⟨found, hfound, hreserves, hip⟩
    · exact .inl (grows _ hknown)
    · rcases thread_set_stays member hfound after with rfl | hstays
      · rcases settled hreserves with hafter | hadded
        · exact .inr ⟨after, thread_set_mem member after, hafter, request ▸ hip⟩
        · exact .inl (hip ▸ hadded)
      · exact .inr ⟨found, hstays, hreserves, hip⟩

theorem Orderly.tested {boot : Bootstrap σ ι} (orderly : Orderly boot) {index : Nat}
    {client : Client ι} (member : boot.clients[index]? = some client)
    (new : client.request.ip ∉ boot.node.state.peers)
    (foreign : client.request.ip ≠ boot.node.state.ip)
    (alone : ∀ other ∈ boot.clients, other.reserves = true →
      other.request.ip ≠ client.request.ip) :
    Orderly { boot with clients := boot.clients.set index { client with stage := .granted } } where
  once := orderly.once
  own := orderly.own
  foreign := by
    intro other hmem hreserves
    rcases List.mem_or_eq_of_mem_set hmem with hold | rfl
    · exact orderly.foreign other hold hreserves
    · exact foreign
  standing := by
    intro other hmem hstage previous hlast
    rcases List.mem_or_eq_of_mem_set hmem with hold | rfl
    · exact orderly.standing other hold hstage previous hlast
    · rcases orderly.known previous _ hlast with hknown | ⟨found, hfound, hreserves, hip⟩
      · exact new hknown
      · exact alone found hfound hreserves hip
  unique := by
    intro i j left right hi hj hleft hright hsame
    rcases thread_set_cases hi with ⟨rfl, rfl⟩ | ⟨_, hleftOld⟩ <;>
      rcases thread_set_cases hj with ⟨rfl, rfl⟩ | ⟨_, hrightOld⟩
    · rfl
    · exact absurd hsame.symm (alone right (List.mem_of_getElem? hrightOld) hright)
    · exact absurd hsame (alone left (List.mem_of_getElem? hleftOld) hleft)
    · exact orderly.unique _ _ _ _ hleftOld hrightOld hleft hright hsame
  known := by
    intro other otherIp hlast
    rcases orderly.known other otherIp hlast with hknown | ⟨found, hfound, hreserves, hip⟩
    · exact .inl hknown
    · rcases thread_set_stays member hfound { client with stage := .granted } with rfl | hstays
      · exact absurd rfl (alone found hfound hreserves)
      · exact .inr ⟨found, hstays, hreserves, hip⟩

theorem Orderly.granted {boot : Bootstrap σ ι} (orderly : Orderly boot) {index : Nat}
    {client : Client ι} (member : boot.clients[index]? = some client)
    (granted : client.stage = .granted) (response : Option (Response ι)) :
    Orderly { boot with
      clients := boot.clients.set index { client with stage := .replied, response }
      log := .granted index client.request.ip :: boot.log } := by
  have hmem := List.mem_of_getElem? member
  have hreserved : client.reserves = true := by simp [Client.reserves, granted]
  have hreserves : ({ client with stage := .replied, response } : Client ι).reserves = true := rfl
  have hmoved : Orderly { boot with
      clients := boot.clients.set index { client with stage := .replied, response } } :=
    orderly.moved member rfl rfl (fun _ h => h) (fun _ => hreserved) (fun _ => .inl hreserves)
      (fun h => by cases h)
  refine ⟨orderly.once.granted index (orderly.standing client hmem granted), hmoved.foreign,
    hmoved.unique, ?_, ?_, ?_⟩
  · intro other otherIp hlast
    rcases lastGranted_granted hlast with ⟨rfl, rfl⟩ | hlast
    · exact .inr ⟨_, thread_set_mem member _, hreserves, rfl⟩
    · exact hmoved.known other otherIp hlast
  · intro other hother hstage previous hlast
    rcases lastGranted_granted hlast with ⟨_, hip⟩ | hlast
    · obtain ⟨j, hj⟩ := List.mem_iff_getElem?.mp hother
      rcases thread_set_cases hj with ⟨_, rfl⟩ | ⟨hne, hold⟩
      · cases hstage
      · exact hne (orderly.unique _ _ _ _ hold member (by simp [Client.reserves, hstage])
          hreserved hip)
    · exact hmoved.standing other hother hstage previous hlast
  · intro other otherIp hevent
    rcases List.mem_cons.mp hevent with heq | hold
    · cases heq
      exact orderly.foreign client hmem hreserved
    · exact orderly.own other otherIp hold

theorem Orderly.edited {boot : Bootstrap σ ι} (orderly : Orderly boot) {node : Node σ}
    (ip : node.state.ip = boot.node.state.ip)
    (grows : ∀ other ∈ boot.node.state.peers, other ∈ node.state.peers) :
    Orderly { boot with node } where
  once := orderly.once
  own := fun other otherIp hmem => ip ▸ orderly.own other otherIp hmem
  foreign := fun client hmem hreserves => ip ▸ orderly.foreign client hmem hreserves
  standing := orderly.standing
  unique := orderly.unique
  known := fun other otherIp hlast =>
    (orderly.known other otherIp hlast).imp_left (grows otherIp)

theorem Orderly.forgotten {boot : Bootstrap σ ι} (orderly : Orderly boot) (peerIp : Ip) :
    Orderly { boot with
      node := { boot.node with state := boot.node.state.removePeer peerIp }
      log := removalEvent peerIp boot.node.state (boot.node.state.removePeer peerIp) ++
        boot.log } := by
  have hip := (State.removePeer_same boot.node.state peerIp).ip
  have hother (other : Ip) (different : other ≠ peerIp)
      (hmem : other ∈ boot.node.state.peers) :
      other ∈ (boot.node.state.removePeer peerIp).peers := by
    rw [Dict.mem_iff_lookup] at hmem ⊢
    rw [State.lookup_removePeer_ne _ different]
    exact hmem
  unfold removalEvent
  split
  · refine ⟨orderly.once.removed peerIp, fun client hmem hreserves => ?_, orderly.unique,
      fun other otherIp hlast => ?_, fun client hmem hstage other hlast => ?_,
      fun other otherIp hmem => ?_⟩
    · exact hip ▸ orderly.foreign client hmem hreserves
    · obtain ⟨hdifferent, hlast⟩ := lastGranted_removed hlast
      exact (orderly.known other otherIp hlast).imp_left (hother otherIp hdifferent)
    · exact orderly.standing client hmem hstage other (lastGranted_removed hlast).2
    · rcases List.mem_cons.mp hmem with hevent | hold
      · cases hevent
      · exact hip ▸ orderly.own other otherIp hold
  · rename_i hkept
    refine orderly.edited hip fun other hmem => ?_
    by_cases hsame : other = peerIp
    · subst hsame
      by_contra hgone
      exact hkept ⟨hmem, hgone⟩
    · exact hother other hsame hmem

theorem Orderly.accepted {boot : Bootstrap σ ι} (orderly : Orderly boot) (request : Request) :
    Orderly { boot with clients := boot.clients ++ [.new request] } := by
  have hold {other : Client ι} (hmem : other ∈ boot.clients ++ [.new request])
      (later : other.stage ≠ .received) : other ∈ boot.clients := by
    rcases List.mem_append.mp hmem with hmem | hmem
    · exact hmem
    · exact absurd (List.mem_singleton.mp hmem ▸ rfl) later
  have hlater {other : Client ι} (hreserves : other.reserves = true) :
      other.stage ≠ .received := by
    intro hstage
    simp [Client.reserves, hstage] at hreserves
  have hplace {i : Nat} {other : Client ι}
      (h : (boot.clients ++ [.new request])[i]? = some other)
      (later : other.stage ≠ .received) : boot.clients[i]? = some other := by
    rw [List.getElem?_append] at h
    split at h
    · exact h
    · exact absurd (List.mem_singleton.mp (List.mem_of_getElem? h) ▸ rfl) later
  refine ⟨orderly.once, fun client hmem hreserves => ?_, ?_, fun other otherIp hlast => ?_,
    fun client hmem hstage => ?_, orderly.own⟩
  · exact orderly.foreign client (hold hmem (hlater hreserves)) hreserves
  · intro i j left right hi hj hleft hright hsame
    exact orderly.unique i j left right (hplace hi (hlater hleft)) (hplace hj (hlater hright))
      hleft hright hsame
  · exact (orderly.known other otherIp hlast).imp_right fun ⟨found, hfound, h⟩ =>
      ⟨found, List.mem_append_left _ hfound, h⟩
  · exact orderly.standing client (hold hmem (by rw [hstage]; decide)) hstage

theorem Orderly.advanced {sync : SyncModule σ ι} {boot : Bootstrap σ ι}
    (orderly : Orderly boot) {index : Nat} {client after : Client ι} {node : Node σ}
    (member : boot.clients[index]? = some client)
    (advances : Advances sync client boot.node after node)
    (ok : undisputed boot (.advance index) = true) :
    Orderly
      { node
        clients := boot.clients.set index after
        log := grantEvent index client after ++ boot.log } := by
  have hmem := List.mem_of_getElem? member
  have hquiet (later : client.stage ≠ .granted ∨ after.stage ≠ .replied) :
      grantEvent index client after = [] := by
    unfold grantEvent
    exact if_neg fun h => later.elim (· h.1) (· h.2)
  cases advances with
  | refused received status =>
      rw [hquiet (.inl (by rw [received]; decide))]
      exact orderly.moved member rfl rfl (fun _ h => h) (fun h => by cases h)
        (fun h => by simp [Client.reserves, received] at h) (fun h => by cases h)
  | granted received new foreign =>
      rw [hquiet (.inl (by rw [received]; decide))]
      refine orderly.tested member new foreign fun other hother hreserves => ?_
      simp only [undisputed, member, received, ne_eq, not_true_eq_false, decide_false,
        Bool.false_or, List.all_eq_true] at ok
      have hfree := ok other hother
      rw [hreserves, Bool.not_true, Bool.false_or, decide_eq_true_eq] at hfree
      exact hfree
  | replied granted known =>
      unfold grantEvent
      rw [if_pos ⟨granted, rfl⟩]
      exact orderly.granted member granted _
  | locked replied free =>
      rw [hquiet (.inl (by rw [replied]; decide))]
      exact orderly.moved member rfl rfl (fun _ h => h)
        (fun _ => by simp [Client.reserves, replied]) (fun _ => .inl rfl) (fun h => by cases h)
  | added locked =>
      rw [hquiet (.inl (by rw [locked]; decide))]
      have hreserved : client.reserves = true := by simp [Client.reserves, locked]
      have hforeign := orderly.foreign client hmem hreserved
      have hadded := Request.mem_addedTo hforeign
      exact orderly.moved member rfl (client.request.addedTo_same boot.node.state).ip
        (fun other h => (hadded other).mpr (.inr h)) (fun h => by cases h)
        (fun _ => .inr ((hadded _).mpr (.inl rfl))) (fun h => by cases h)
  | published added complete =>
      rw [hquiet (.inl (by rw [added]; decide))]
      rename_i change
      have hstate := sync.state_publishChange boot.node change
      exact orderly.moved member rfl (congrArg State.ip hstate)
        (fun other h => (congrArg State.peers hstate).symm ▸ h) (fun h => by cases h)
        (fun h => by simp [Client.reserves, added] at h) (fun h => by cases h)
  | raised added complete raises =>
      rw [hquiet (.inl (by rw [added]; decide))]
      rename_i change
      have hstate := sync.state_publishChange boot.node change
      exact orderly.moved member rfl (congrArg State.ip hstate)
        (fun other h => (congrArg State.peers hstate).symm ▸ h) (fun h => h) (fun h => .inl h)
        (fun h => h)
  | released published =>
      rw [hquiet (.inl (by rw [published]; decide))]
      exact orderly.moved member rfl rfl (fun _ h => h) (fun h => by cases h)
        (fun h => by simp [Client.reserves, published] at h) (fun h => by cases h)
  | crashed =>
      have hevent : grantEvent index client client.crashed = [] := by
        unfold grantEvent
        refine if_neg fun h => ?_
        have hstage : client.stage = .replied := h.2
        rw [h.1] at hstage
        cases hstage
      rw [hevent]
      exact orderly.moved member rfl rfl (fun _ h => h) (fun h => h) (fun h => .inl h)
        (fun h => h)

theorem Orderly.serve {sync : SyncModule σ ι} {boot after : Bootstrap σ ι}
    {label : JoinLabel σ} (orderly : Orderly boot) (ok : undisputed boot label = true)
    (step : Discovery.serve sync boot label = some after) : Orderly after := by
  cases label with
  | accept request =>
      cases step
      exact orderly.accepted request
  | advance index =>
      obtain ⟨client, hmember, step⟩ := Option.bind_eq_some_iff.mp step
      obtain ⟨⟨changed, node⟩, hadvance, step⟩ := Option.bind_eq_some_iff.mp step
      cases step
      exact orderly.advanced hmember (advances_of_advance hadvance) ok
  | crash index =>
      obtain ⟨client, hmember, step⟩ := Option.bind_eq_some_iff.mp step
      cases step
      exact orderly.moved hmember rfl rfl (fun _ h => h) (fun h => h) (fun h => .inl h)
        (fun h => h)
  | learn peerIp publicKey endpointIp endpointPort =>
      unfold Discovery.serve at step
      dsimp only at step
      split at step
      · cases step
      · cases step
        refine orderly.edited (State.addPeer_same _ _ _ _ _).ip fun other h => ?_
        by_cases hforeign : peerIp = boot.node.state.ip
        · simpa [State.addPeer, hforeign] using h
        · exact (State.mem_addPeer _ _ _ _ _ hforeign).mpr (.inr h)
  | forget peerIp =>
      unfold Discovery.serve at step
      dsimp only at step
      split at step
      · cases step
      · cases step
        exact orderly.forgotten peerIp
  | sync value =>
      cases step
      exact orderly.edited rfl fun _ h => h

theorem Orderly.start (node : Node σ) : Orderly (Bootstrap.start node : Bootstrap σ ι) where
  once := by
    intro later mid earlier left right ip hlog
    cases later <;> cases hlog
  foreign := fun client hmem => by cases hmem
  unique := fun i j left right hi => by cases hi
  known := by
    rintro index ip ⟨mid, earlier, hlog, _⟩
    cases mid <;> cases hlog
  standing := fun client hmem => by cases hmem
  own := fun index ip hmem => by cases hmem

def OwnKept (boot : Bootstrap σ ι) : Prop :=
  ∀ index ip, .granted index ip ∈ boot.log → ip ≠ boot.node.state.ip

theorem join_grants_once (sync : SyncModule σ ι) (node : Node σ) (boot : Bootstrap σ ι)
    (run : Run (serve sync) (fun boot label => undisputed boot label = true)
      (Bootstrap.start node) boot) :
    GrantedOnce boot.log ∧ OwnKept boot := by
  have horderly : Orderly boot := Run.invariant Orderly (Orderly.start node)
    (fun _ _ _ _ horderly hok hstep => horderly.serve hok hstep) run
  exact ⟨horderly.once, horderly.own⟩

/-! Two requesters of one address at a gossip node that has no peers yet. -/

def firstRequest : Request :=
  ⟨"JOIN", "10.0.0.2", "kb", "198.51.100.2", 51820, .port 6888⟩

def secondRequest : Request :=
  ⟨"JOIN", "10.0.0.2", "kc", "198.51.100.3", 51820, .port 6888⟩

def lonelyNode : GossipNode :=
  let state := State.new "10.0.0.1" "ka" "198.51.100.1" 51820
  ⟨state, .new state none 6888⟩

def inTurn : List (JoinLabel SyncGossip) :=
  [.accept firstRequest, .advance 0, .advance 0, .advance 0, .advance 0, .advance 0, .advance 0,
    .accept secondRequest, .advance 1]

theorem join_grants_once_inTurn :
    ∃ boot : Bootstrap SyncGossip GossipInfo, boot.log = [.granted 0 "10.0.0.2"] ∧
      GrantedOnce boot.log ∧ OwnKept boot := by
  have hreplay : (replay (serve gossipModule) undisputed (Bootstrap.start lonelyNode) inTurn).any
      (fun boot => boot.log = [.granted 0 "10.0.0.2"]) = true := by decide +kernel
  obtain ⟨boot, hrun, hlog⟩ := reached_of_replay (fun _ _ h => h) hreplay
  exact ⟨boot, of_decide_eq_true hlog, join_grants_once gossipModule lonelyNode boot hrun⟩

def together : List (JoinLabel SyncGossip) :=
  [.accept firstRequest, .accept secondRequest, .advance 0, .advance 1, .advance 0, .advance 1]

theorem join_grants_once_fails :
    ¬ ∀ (node : GossipNode) (boot : Bootstrap SyncGossip GossipInfo),
      Run (serve gossipModule) always (Bootstrap.start node) boot →
      GrantedOnce boot.log ∧ OwnKept boot := by
  intro claimed
  have hreplay : (replay (serve gossipModule) (fun _ _ => true) (Bootstrap.start lonelyNode)
      together).any (fun boot => boot.log = [.granted 1 "10.0.0.2", .granted 0 "10.0.0.2"]) =
      true := by decide +kernel
  obtain ⟨boot, hrun, hlog⟩ := reached_of_replay (fun _ _ _ => trivial) hreplay
  have honce := (claimed lonelyNode boot hrun).1
  have hbetween := honce [] [] [] 0 1 "10.0.0.2" (of_decide_eq_true hlog)
  cases hbetween

end WgBp.Discovery
