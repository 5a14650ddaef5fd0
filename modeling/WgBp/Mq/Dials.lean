import WgBp.Mq.Response
import WgBp.Mq.Subscriber
import WgBp.Mq.Survival

/-! View, `State` and connections of one node in step with each other: it has the peers of
its view configured and is connected to each of them once, and to nobody else. Messages,
admissions and publications lead from one such node to another, over the next view. -/
namespace WgBp.Mq

open WgBp.Library WgBp.Library.Procedure WgBp.Model
open WgBp.Gossip (Config Ticket OwnEdit)

/-- The SUB socket is connected to every listed peer and to nobody else. -/
structure Dials (node : MqNode) : Prop where
  nodup : node.sync.sub.Nodup
  links : ∀ endpoint, endpoint ∈ node.sync.sub ↔ endpoint.ip ≠ node.state.ip ∧
    ∃ record, node.sync.peers.lookup endpoint.ip = some record ∧
      record.syncPort = .port endpoint.port

structure Attends (node : MqNode) : Prop where
  sound : Sound node
  tracks : Tracks node.state node.sync.peers
  dials : Dials node

def Within (peers later : PeerMap) : Prop :=
  Dict.All peers fun ip record =>
    ∃ other, later.lookup ip = some other ∧ other.syncPort = record.syncPort

structure Turns (node : MqNode) (version : Nat) (peers : PeerMap) (after : MqNode) : Prop where
  attends : Attends after
  address : address after = address node
  version : after.sync.version = version
  peers : after.sync.peers = peers

variable {node after : MqNode} {msg : Msg}

theorem Turns.ip {version : Nat} {peers : PeerMap} (turns : Turns node version peers after) :
    after.state.ip = node.state.ip := congrArg Address.ip turns.address

theorem Turns.port {version : Nat} {peers : PeerMap} (turns : Turns node version peers after) :
    after.sync.port = node.sync.port := congrArg Address.port turns.address

theorem connected_nodup {sync : MessageQueueSync} (nodup : sync.sub.Nodup) (endpoint : Address) :
    (sync.connected endpoint).sub.Nodup := by
  unfold MessageQueueSync.connected
  split
  · exact nodup
  · rename_i hnew
    exact List.nodup_append.mpr ⟨nodup, List.nodup_singleton _, fun other hother last hlast h =>
      hnew (List.mem_singleton.mp hlast ▸ h ▸ hother)⟩

structure Adds (entries : List (Σ _ : Ip, PeerRecord)) (before after : MqNode) : Prop where
  ip : after.state.ip = before.state.ip
  nodup : before.sync.sub.Nodup → after.sync.sub.Nodup
  listed : ∀ endpoint ∈ after.sync.sub, endpoint ∈ before.sync.sub ∨ ∃ entry ∈ entries,
    entry.1 = endpoint.ip ∧ entry.1 ≠ before.state.ip ∧ entry.2.syncPort = .port endpoint.port

theorem adds_checkPeer {entry : Σ _ : Ip, PeerRecord} (keyed : entry.2.virtualIp = entry.1)
    (returns : (checkPeer entry.1 entry.2).run node = .ok () after) : Adds [entry] node after := by
  have hip := (reaches_checkPeer keyed returns).ip
  rcases checkPeer_sync returns with ⟨-, hsync⟩ | ⟨hother, -, number, hport, hsync⟩
  · refine ⟨hip, fun nodup => ?_, fun endpoint hendpoint => .inl ?_⟩
    · exact hsync ▸ nodup
    · exact hsync ▸ hendpoint
  · refine ⟨hip, fun nodup => hsync ▸ connected_nodup nodup _, fun endpoint hendpoint => ?_⟩
    rw [hsync, mem_connected] at hendpoint
    rcases hendpoint with rfl | hold
    · exact .inr ⟨entry, by simp, keyed.symm, hother, hport⟩
    · exact .inl hold

theorem adds_loop {entries : List (Σ _ : Ip, PeerRecord)}
    (keyed : ∀ entry ∈ entries, entry.2.virtualIp = entry.1) {before : MqNode}
    (returns : (forM entries fun entry => checkPeer entry.1 entry.2).run before = .ok () after) :
    Adds entries before after := by
  induction entries generalizing before with
  | nil =>
      cases returns
      exact ⟨rfl, id, fun _ h => .inl h⟩
  | cons entry rest ih =>
      rw [List.forM_cons] at returns
      obtain ⟨_, mid, hfirst, hrest⟩ := bind_returned returns
      have hhead := adds_checkPeer (keyed entry (by simp)) hfirst
      have htail := ih (fun other hother => keyed other (by simp [hother])) hrest
      refine ⟨htail.ip.trans hhead.ip, fun nodup => htail.nodup (hhead.nodup nodup), ?_⟩
      intro endpoint hendpoint
      rcases htail.listed endpoint hendpoint with hmid | ⟨other, hother, hsame, hne, hport⟩
      · rcases hhead.listed endpoint hmid with hold | ⟨other, hother, hfacts⟩
        · exact .inl hold
        · exact .inr ⟨other, by simp [List.mem_singleton.mp hother], hfacts⟩
      · exact .inr ⟨other, by simp [hother], hsame, hhead.ip ▸ hne, hport⟩

theorem adds_checkForChanges (keyed : Keyed node.sync.peers)
    (returns : checkForChanges.run node = .ok () after) :
    ∃ looped, Adds node.sync.peers.entries node looped ∧ after.sync = looped.sync := by
  obtain ⟨_, locked, hlock, hrest⟩ := bind_returned returns
  obtain ⟨_, _, hget, hrest⟩ := bind_returned hrest
  cases hget
  obtain ⟨_, looped, hloop, hrest⟩ := bind_returned hrest
  obtain ⟨_, removed, hremove, hrelease⟩ := bind_returned hrest
  obtain ⟨acquired, hacquire, rfl⟩ := onState_returned hlock
  obtain ⟨-, rfl⟩ := State.lockAquire_returned hacquire
  obtain ⟨_, -, rfl⟩ := onState_returned hremove
  obtain ⟨_, -, rfl⟩ := onState_returned hrelease
  have hadds := adds_loop (fun entry hentry => keyed _ _ (Dict.lookup_of_mem_entries hentry)) hloop
  exact ⟨looped, ⟨hadds.ip, hadds.nodup, hadds.listed⟩, rfl⟩

theorem dials_of_check (keyed : Keyed node.sync.peers) (foreign : node.state.ip ∉ node.state.peers)
    (nodup : node.sync.sub.Nodup)
    (known : ∀ endpoint, endpoint ∈ node.sync.sub ↔ endpoint.ip ∈ node.state.peers ∧
      ∃ record, node.sync.peers.lookup endpoint.ip = some record ∧
        record.syncPort = .port endpoint.port)
    (returns : checkForChanges.run node = .ok () after) : Dials after := by
  obtain ⟨looped, hreaches, hsync, hip⟩ := reaches_checkForChanges keyed returns
  obtain ⟨looped', hadds, hsync'⟩ := adds_checkForChanges keyed returns
  refine ⟨hsync' ▸ hadds.nodup nodup, fun endpoint => ?_⟩
  rw [hip, hsync, hreaches.peers]
  constructor
  · intro hendpoint
    rw [← hsync, hsync'] at hendpoint
    rcases hadds.listed endpoint hendpoint with hold | ⟨entry, hentry, hsame, hother, hport⟩
    · obtain ⟨hknown, hrecord⟩ := (known endpoint).mp hold
      exact ⟨fun hown => foreign (hown ▸ hknown), hrecord⟩
    · have hlookup := Dict.lookup_of_mem_entries hentry
      rw [hsame] at hlookup hother
      exact ⟨hother, entry.2, hlookup, hport⟩
  · rintro ⟨hother, record, hrecord, hport⟩
    by_cases hmem : endpoint.ip ∈ node.state.peers
    · exact hreaches.keeps endpoint ((known endpoint).mpr ⟨hmem, record, hrecord, hport⟩)
    · have hlinked := hreaches.reached ⟨endpoint.ip, record⟩ (AList.mem_lookup_iff.mp hrecord)
        hother hmem
      have hip : record.virtualIp = endpoint.ip := keyed _ _ hrecord
      simpa [linked, endpointOf, hport, hip] using hlinked

theorem blind_ready (ready : Bool) : Blind fun node => node.sync.ready = ready :=
  ⟨fun _ _ h => h, fun _ _ h => h⟩

theorem Attends.passes {point : MqNode} {version : Nat} {peers : PeerMap} {sub : List Address}
    (sound : Sound node) (run : (listenForUpdates msg).run node = .ok () after)
    (checks : checkpoint node msg = some point)
    (becomes : Becomes node version peers sub after) (state : point.state = node.state)
    (view : point.sync.peers = peers) (keyed : Keyed peers) (nodup : point.sync.sub.Nodup)
    (known : ∀ endpoint, endpoint ∈ point.sync.sub ↔ endpoint.ip ∈ node.state.peers ∧
      ∃ record, peers.lookup endpoint.ip = some record ∧ record.syncPort = .port endpoint.port) :
    Turns node version peers after ∧ after.sync.ready = point.sync.ready ∧
      after.state.allowedIps = node.state.allowedIps := by
  have hpass := checkForChanges_of_listen checks run
  have hforeign : point.state.ip ∉ point.state.peers := state ▸ sound.foreign
  have hkeyed : Keyed point.sync.peers := view ▸ keyed
  have hdials := dials_of_check hkeyed hforeign nodup
    (fun endpoint => by rw [state, view]; exact known endpoint) hpass
  have hstate := checkForChanges_returned hkeyed hpass
  have htracks : Tracks after.state after.sync.peers := by
    rw [hstate, becomes.peers, view, state]
    exact checked_tracks keyed sound.single sound.foreign
  have hready : after.sync.ready = point.sync.ready :=
    (blind_ready point.sync.ready).keeps_checkForChanges.returned rfl hpass
  have hallowed : after.state.allowedIps = node.state.allowedIps := by
    rw [hstate, checked_allowedIps, state]
  exact ⟨⟨⟨becomes.sound, htracks, hdials⟩, becomes.address, becomes.version, becomes.peers⟩,
    hready, hallowed⟩

theorem Attends.adopts (attends : Attends node) {version : Nat} {peers : PeerMap}
    (other : msg.sender ≠ address node) (body : msg.body = .stateUpdate version peers)
    (newer : node.sync.version < version) (keyed : Keyed peers) (ported : Ported peers)
    (within : Within node.sync.peers peers) :
    ∃ after, (listenForUpdates msg).run node = .ok () after ∧ Turns node version peers after ∧
      after.sync.ready = (node.sync.ready || decide (node.sync.version = 0)) ∧
      after.state.allowedIps = node.state.allowedIps := by
  obtain ⟨after, hrun, hbecomes⟩ := run_newer attends.sound other body newer keyed ported
  have hchecks : checkpoint node msg = some { node with sync := { node.sync with
      ready := node.sync.ready || node.sync.version = 0
      version := version
      peers := peers } } := by
    simp only [checkpoint, other, body, newer, if_false, if_true]
  obtain ⟨hturns, hrest⟩ := Attends.passes attends.sound hrun hchecks hbecomes rfl rfl keyed
    attends.dials.nodup fun endpoint => by
      rw [attends.dials.links, attends.tracks]
      constructor
      · rintro ⟨hother, record, hrecord, hport⟩
        obtain ⟨later, hlater, hsame⟩ := within _ _ hrecord
        exact ⟨⟨Dict.mem_of_lookup hrecord, hother⟩, later, hlater, hsame.trans hport⟩
      · rintro ⟨⟨hlisted, hother⟩, later, hlater, hport⟩
        obtain ⟨record, hrecord⟩ := Dict.mem_iff_lookup.mp hlisted
        obtain ⟨same, hsame, hequal⟩ := within _ _ hrecord
        rw [hlater] at hsame
        cases hsame
        exact ⟨hother, record, hrecord, hequal.symm.trans hport⟩
  exact ⟨after, hrun, hturns, hrest⟩

theorem Attends.parts (attends : Attends node) {leaver : Address}
    (connected : leaver ∈ node.sync.sub) :
    ∃ after, (listenForUpdates (notice leaver)).run node = .ok () after ∧
      Turns node (node.sync.version + 1) (node.sync.peers.erase leaver.ip) after ∧
      after.sync.ready = node.sync.ready ∧
      after.state.allowedIps = node.state.allowedIps := by
  obtain ⟨hforeign, gone, hgone, hport⟩ := (attends.dials.links leaver).mp connected
  have hother : leaver ≠ address node := fun h => hforeign (congrArg Address.ip h)
  have hsender : (notice leaver).sender ≠ address node := hother
  have hbody : (notice leaver).body = .departureNotice leaver.ip := rfl
  obtain ⟨after, hrun, hbecomes⟩ :=
    run_departure attends.sound hsender hbody (Dict.mem_of_lookup hgone) connected
  have hchecks : checkpoint node (notice leaver) = some { node with sync := { node.sync with
      peers := node.sync.peers.erase leaver.ip
      sub := node.sync.sub.erase leaver
      version := node.sync.version + 1 } } := by
    simp only [checkpoint, hsender, if_false]
    rfl
  obtain ⟨hturns, hrest⟩ := Attends.passes attends.sound hrun hchecks hbecomes rfl rfl
    (attends.sound.keyed.erase leaver.ip) (attends.dials.nodup.erase leaver) fun endpoint => by
      rw [attends.dials.nodup.mem_erase_iff, attends.dials.links, attends.tracks,
        Dict.lookup_erase]
      by_cases hsame : endpoint.ip = leaver.ip
      · simp only [hsame, if_true]
        constructor
        · rintro ⟨hne, -, record, hrecord, hrecordPort⟩
          rw [hsame, hgone] at hrecord
          cases hrecord
          have hports : leaver.port = endpoint.port :=
            SyncPort.port.inj (hport.symm.trans hrecordPort)
          exact absurd (congrArg₂ Address.mk hsame hports.symm) hne
        · rintro ⟨-, record, hnone, -⟩
          cases hnone
      · simp only [hsame, if_false]
        constructor
        · rintro ⟨-, hne, record, hrecord, hrecordPort⟩
          exact ⟨⟨Dict.mem_of_lookup hrecord, hne⟩, record, hrecord, hrecordPort⟩
        · rintro ⟨⟨-, hne⟩, hrecord⟩
          exact ⟨fun h => hsame (congrArg Address.ip h), hne, hrecord⟩
  exact ⟨after, hrun, hturns, hrest⟩

structure Announces (node : MqNode) (peers : PeerMap) (after : MqNode) : Prop where
  turns : Turns node (node.sync.version + 1) peers (flush after)
  published : after.sync.pub = [update (address node) (node.sync.version + 1) peers]
  ready : after.sync.ready = node.sync.ready

theorem Attends.admits (attends : Attends node) {joiner : Config}
    (new : joiner.ip ∉ node.state.peers) (foreign : joiner.ip ≠ node.state.ip)
    (port : joiner.syncPort ≠ 0) :
    ∃ record, record.virtualIp = joiner.ip ∧ record.syncPort = .port joiner.syncPort ∧
      record.allowedIps = joiner.state.allowedIps ∧
      Announces node (node.sync.peers.set joiner.ip record) (admitted node joiner) := by
  have hsame := joiner.addedTo_same node.state
  have hgiven : portGiven joiner.change = some joiner.syncPort := by
    simp [portGiven, Config.change, Option.filter, Nat.pos_of_ne_zero port]
  have hadded : Sound { node with state := joiner.addedTo node.state } :=
    attends.sound.addPeer _ _ _ _
  obtain ⟨hbecomes, hpub⟩ := @publishChange_becomes _ hadded joiner.change
    (fun _ => by simp [hgiven]) (fun _ => (Config.mem_addedTo foreign _).mpr (.inl rfl))
  let record := publishedRecord { node with state := joiner.addedTo node.state } joiner.change
  have hrecord : record.syncPort = .port joiner.syncPort := by
    have hother : joiner.change.virtualIp ≠ (joiner.addedTo node.state).ip := hsame.ip ▸ foreign
    simp [record, publishedRecord, hother, hgiven]
  have haddress : address { node with state := joiner.addedTo node.state } = address node := by
    simp [address, hsame.ip]
  have hunlisted : joiner.ip ∉ node.sync.peers := fun listed =>
    new ((attends.tracks _).mpr ⟨listed, foreign⟩)
  let stored := { node.sync with peers := node.sync.peers.set joiner.ip record }
  have hsync : (flush (admitted node joiner)).sync.sub =
      (stored.connected ⟨joiner.ip, joiner.syncPort⟩).sub := by
    simp only [admitted, publishChange, publishState, handOver, flush, hgiven,
      MessageQueueSync.subscribed]
    rfl
  have hready : (admitted node joiner).sync.ready = node.sync.ready := by
    simp only [admitted, publishChange, publishState, handOver, hgiven,
      MessageQueueSync.subscribed, MessageQueueSync.connected]
    split <;> rfl
  have hpeers : (flush (admitted node joiner)).sync.peers =
      node.sync.peers.set joiner.ip record := hbecomes.peers
  have htracks : Tracks (flush (admitted node joiner)).state
      (flush (admitted node joiner)).sync.peers := by
    intro ip
    have hstate : (flush (admitted node joiner)).state = joiner.addedTo node.state := rfl
    rw [hstate, hpeers, Config.mem_addedTo foreign, hsame.ip, Dict.mem_set, attends.tracks]
    constructor
    · rintro (rfl | ⟨hlisted, hother⟩)
      · exact ⟨.inl rfl, foreign⟩
      · exact ⟨.inr hlisted, hother⟩
    · rintro ⟨rfl | hlisted, hother⟩
      · exact .inl rfl
      · exact .inr ⟨hlisted, hother⟩
  have hnodup : (flush (admitted node joiner)).sync.sub.Nodup := by
    have hstored : stored.sub.Nodup := attends.dials.nodup
    rw [hsync]
    exact connected_nodup hstored _
  have hdials : Dials (flush (admitted node joiner)) := by
    refine ⟨hnodup, fun endpoint => ?_⟩
    have hown : (flush (admitted node joiner)).state.ip = node.state.ip := hsame.ip
    have hlinks := attends.dials.links endpoint
    rw [hsync, mem_connected, hpeers, hown, Dict.lookup_set, hlinks]
    by_cases hip : endpoint.ip = joiner.ip
    · rw [if_pos hip, hip, AList.lookup_eq_none.mpr hunlisted]
      constructor
      · rintro (rfl | ⟨-, record, hnone, -⟩)
        · exact ⟨foreign, record, rfl, hrecord⟩
        · cases hnone
      · rintro ⟨-, known, hknown, hport⟩
        cases hknown
        have hports : endpoint.port = joiner.syncPort :=
          SyncPort.port.inj (hport.symm.trans hrecord)
        exact .inl (congrArg₂ Address.mk hip hports)
    · rw [if_neg hip]
      constructor
      · rintro (rfl | hold)
        · exact absurd rfl hip
        · exact hold
      · exact .inr
  have hattends : Attends (flush (admitted node joiner)) := ⟨hbecomes.sound, htracks, hdials⟩
  have hturns : Turns node (node.sync.version + 1) (node.sync.peers.set joiner.ip record)
      (flush (admitted node joiner)) :=
    ⟨hattends, hbecomes.address.trans haddress, hbecomes.version, hpeers⟩
  exact ⟨record, rfl, hrecord, rfl, hturns, haddress ▸ hpub, hready⟩

theorem Attends.edits (attends : Attends node) {edit : OwnEdit} {state : State}
    (edited : edit.apply node.state = some state) :
    ∃ record, record.virtualIp = node.state.ip ∧ record.syncPort = .port node.sync.port ∧
      record.allowedIps = state.allowedIps ∧
      Announces node (node.sync.peers.set node.state.ip record)
        (publishChange { node with state } state.ownChange) := by
  have hnonempty := edit.apply_nonempty edited
  obtain ⟨allowedIps, rfl⟩ := edit.apply_spec edited
  let state := { node.state with allowedIps }
  have hsound : Sound { node with state } :=
    ⟨attends.sound.free, attends.sound.single, attends.sound.foreign, attends.sound.configured,
      attends.sound.keyed, attends.sound.ported, attends.sound.flushed⟩
  obtain ⟨hbecomes, hpub⟩ :=
    @publishChange_becomes _ hsound state.ownChange (absurd rfl ·) (absurd rfl ·)
  let record := publishedRecord { node with state } state.ownChange
  have hrecord : record.syncPort = .port node.sync.port := by
    simp [record, publishedRecord, State.ownChange]
  let after := flush (publishChange { node with state } state.ownChange)
  have htracks : Tracks after.state after.sync.peers := by
    intro ip
    have hold : ip ∈ node.state.peers ↔ ip ∈ node.sync.peers ∧ ip ≠ node.state.ip :=
      attends.tracks ip
    have hset : ip ∈ node.sync.peers.set node.state.ip record ↔
        ip = node.state.ip ∨ ip ∈ node.sync.peers := Dict.mem_set _ _ _ _
    refine hold.trans ?_
    rw [hbecomes.peers]
    exact ⟨fun h => ⟨hset.mpr (.inr h.1), h.2⟩, fun h => ⟨(hset.mp h.1).resolve_left h.2, h.2⟩⟩
  have hdials : Dials after := by
    refine ⟨attends.dials.nodup, fun endpoint => ?_⟩
    refine (attends.dials.links endpoint).trans ?_
    rw [hbecomes.peers]
    refine and_congr_right fun hother => ?_
    have hlookup : (node.sync.peers.set node.state.ip record).lookup endpoint.ip =
        node.sync.peers.lookup endpoint.ip := Dict.lookup_set_ne _ _ hother
    rw [← hlookup]
    rfl
  have hattends : Attends after := ⟨hbecomes.sound, htracks, hdials⟩
  have hallowed := ownChange_allowedOrDefault hnonempty
  exact ⟨record, rfl, hrecord, hallowed,
    ⟨hattends, hbecomes.address, hbecomes.version, hbecomes.peers⟩, hpub, rfl⟩

theorem created_attends (config : Config) : Attends (created config).node := by
  have hlisted (ip : Ip) : ip ∈ (created config).node.sync.peers ↔ ip = config.ip :=
    (Dict.mem_set _ _ _ _).trans (or_iff_left (AList.notMem_empty ip))
  have hnone (ip : Ip) : ip ∉ (created config).node.state.peers := AList.notMem_empty ip
  refine ⟨(created_fine config).sound, fun ip => ?_, ⟨List.nodup_nil, fun endpoint => ?_⟩⟩
  · rw [hlisted]
    exact ⟨fun h => absurd h (hnone ip), fun h => absurd h.1 h.2⟩
  · refine ⟨fun h => (by cases h), ?_⟩
    rintro ⟨hother, record, hrecord, -⟩
    exact absurd ((hlisted _).mp (Dict.mem_of_lookup hrecord)) hother

theorem joined_lookup (ticket : Ticket) (number : Nat) (ip : Ip) :
    (joined ticket number).node.sync.peers.lookup ip =
      if ip = ticket.seed.virtualIp then some ticket.seed
      else if ip = ticket.config.ip then
        some ((ticket.bootstrap.addedTo ticket.config.state).ownRecord ticket.config.syncPort)
      else none := by
  have hip : (ticket.bootstrap.addedTo ticket.config.state).ip = ticket.config.ip :=
    (ticket.bootstrap.addedTo_same ticket.config.state).ip
  have hview : (joined ticket number).node.sync.peers =
      ((∅ : PeerMap).set (ticket.bootstrap.addedTo ticket.config.state).ip
        ((ticket.bootstrap.addedTo ticket.config.state).ownRecord ticket.config.syncPort)).set
          ticket.seed.virtualIp ticket.seed := (connected_connects _ _).peers
  rw [hview, Dict.lookup_set, Dict.lookup_set, hip]
  rfl

theorem joined_attends {ticket : Ticket} (fine : ticket.Fine) {number : Nat}
    (port : ticket.seed.syncPort = .port number) : Attends (joined ticket number).node := by
  have hsame := ticket.bootstrap.addedTo_same ticket.config.state
  have hip : (joined ticket number).node.state.ip = ticket.config.ip := hsame.ip
  have hforeign : ticket.bootstrap.ip ≠ ticket.config.ip := fine.foreign
  have hmem (ip : Ip) : ip ∈ (joined ticket number).node.state.peers ↔
      ip = ticket.bootstrap.ip :=
    (Config.mem_addedTo fine.foreign ip).trans (or_iff_left (AList.notMem_empty ip))
  have hsub : (joined ticket number).node.sync.sub = [⟨ticket.seed.virtualIp, number⟩] := by
    simp [joined, Process.start, MessageQueueSync.seeded, MessageQueueSync.connected,
      MessageQueueSync.new]
  refine ⟨(joined_fine fine port).sound, fun ip => ?_, ⟨?_, fun endpoint => ?_⟩⟩
  · rw [hmem, hip, Dict.mem_iff_lookup, joined_lookup, fine.seed]
    by_cases hboot : ip = ticket.bootstrap.ip
    · simp [hboot, hforeign]
    · by_cases hown : ip = ticket.config.ip
      · simp [hown, hforeign.symm]
      · simp [hboot, hown]
  · rw [hsub]
    exact List.nodup_singleton _
  · rw [hsub, hip, joined_lookup, List.mem_singleton]
    by_cases hboot : endpoint.ip = ticket.seed.virtualIp
    · simp only [hboot, if_true, Option.some.injEq, exists_eq_left', port, SyncPort.port.injEq]
      constructor
      · rintro rfl
        exact ⟨fine.seed ▸ hforeign, rfl⟩
      · rintro ⟨-, hnumber⟩
        exact congrArg₂ Address.mk hboot hnumber.symm
    · rw [if_neg hboot]
      constructor
      · rintro rfl
        exact absurd rfl hboot
      · rintro ⟨hother, record, hrecord, -⟩
        rw [if_neg hother] at hrecord
        cases hrecord

end WgBp.Mq
