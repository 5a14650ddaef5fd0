import WgBp.Mq.Pass
import WgBp.Mq.Publications

/-! What one received message makes a node publish, and by how much it may raise its
version, whatever state the node is in and whether or not the handling raises. -/
namespace WgBp.Mq

open WgBp.Library WgBp.Library.Procedure WgBp.Model

def Counted (version : Nat) (pub : List Msg) (node : MqNode) : Prop :=
  node.sync.version = version ∧ node.sync.pub = pub

theorem blind_counted (version : Nat) (pub : List Msg) : Blind (Counted version pub) :=
  ⟨fun _ _ h => h, fun _ _ h => h⟩

/-- How a node answers a message: with nothing, at a version that depends on the message,
or with its state where the message has an older one or asks for it. -/
inductive Responds (node : MqNode) (msg : Msg) (after : MqNode) : Prop where
  | ignores (counted : Counted node.sync.version node.sync.pub after)
  | adopts {version : Nat} (carried : msg.carried = some version)
      (newer : node.sync.version < version) (counted : Counted version node.sync.pub after)
  | counts (notice : msg.announcesDeparture = true)
      (counted : Counted (node.sync.version + 1) node.sync.pub after)
  | replies (asks : msg.announcesDeparture = false)
      (older : ∀ version, msg.carried = some version → version < node.sync.version)
      (published : after = publishState node)

theorem responds (node : MqNode) (msg : Msg) :
    Responds node msg (final ((listenForUpdates msg).run node)) := by
  by_cases hself : msg.sender = address node
  · refine .ignores ?_
    simp [listenForUpdates, hself, Counted]
  · cases hbody : msg.body with
    | stateUpdate version peers =>
        rcases Nat.lt_trichotomy node.sync.version version with hnewer | hequal | holder
        · refine .adopts (by simp [Msg.carried, hbody]) hnewer ?_
          simp only [listenForUpdates, EStateM.run_bind, EStateM.run_get, hself, hbody, hnewer,
            if_false, if_true, EStateM.run_modify]
          exact (blind_counted _ _).keeps_checkForChanges _ ⟨rfl, rfl⟩
        · refine .ignores ?_
          simp [listenForUpdates, hself, hbody, hequal, Counted]
        · refine .replies (by simp [Msg.announcesDeparture, hbody]) ?_ ?_
          · intro carried hcarried
            simp only [Msg.carried, hbody, Option.some.injEq] at hcarried
            omega
          · rw [run_older hself hbody holder]
            rfl
    | departureNotice virtualIp =>
        cases hfound : node.sync.peers.lookup virtualIp with
        | none =>
            refine .ignores ?_
            simp [listenForUpdates, hself, hbody, hfound, Counted]
        | some record =>
            by_cases hconnected : (⟨msg.sender.ip, msg.sender.port⟩ : Address) ∈ node.sync.sub
            · refine .counts (by simp [Msg.announcesDeparture, hbody]) ?_
              simp only [listenForUpdates, EStateM.run_bind, EStateM.run_get, hself, hbody,
                if_false, run_getItem_some hfound, EStateM.run_modify, disconnect, hconnected,
                if_true]
              have hblind := blind_counted (node.sync.version + 1) node.sync.pub
              have hfixes := hblind.keeps_selfFix fun _ _ h => h
              exact Keeps.bind hfixes (fun _ => hblind.keeps_checkForChanges) _ ⟨rfl, rfl⟩
            · refine .ignores ?_
              simp [listenForUpdates, hself, hbody, hfound, disconnect, hconnected, Counted]
    | onboardNotice =>
        refine .replies (by simp [Msg.announcesDeparture, hbody]) ?_ ?_
        · intro carried hcarried
          simp [Msg.carried, hbody] at hcarried
        · simp [listenForUpdates, hself, hbody]

end WgBp.Mq
