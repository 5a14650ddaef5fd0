import WgBp.Gossip.Invariant
import WgBp.Mq.Subscriber
import WgBp.Dht.Node

/-! The two commands of the main loop on the node's own allowed IPs, and what the
synchronization modules store of the list they publish. -/
namespace WgBp.Main

open WgBp.Library WgBp.Library.Procedure WgBp.Model
open WgBp.Gossip (OwnEdit)

/-- `removeAllowedIps` carries what was entered at its prompt. -/
inductive Command where
  | addAllowedIps (ip : String)
  | removeAllowedIps (index : String)
  deriving DecidableEq

/-- `published` lists the calls of `publishChange`, oldest first. -/
structure Console where
  state : State
  published : List Change
  deriving DecidableEq

def Console.new (ip publicKey publicIp : String) (publicPort : Nat) : Console :=
  ⟨State.new ip publicKey publicIp publicPort, []⟩

def Console.publish (console : Console) (state : State) : Console :=
  ⟨state, console.published ++ [state.ownChange]⟩

/-- What a command asks of the list. `decimal` is the number an input stands for, if
`isdigit` holds of it. -/
def Command.edit (decimal : String → Option Nat) : Command → Option OwnEdit
  | .addAllowedIps ip => some (.add ip)
  | .removeAllowedIps index => (decimal index).map .remove

def execute (decimal : String → Option Nat) (console : Console) (command : Command) : Console :=
  match (command.edit decimal).bind fun edit => edit.apply console.state with
  | some state => console.publish state
  | none => console

structure Routed (state : State) : Prop where
  first : state.allowedIps[0]? = some (state.ip ++ "/32")
  nodup : state.allowedIps.Nodup

/-- What each module stores for a publication of the node's own record has the list of
the node, and so does the state update the message queue sends out. -/
structure Carries (state : State) (change : Change) : Prop where
  gossip : ∀ sync, ∃ record,
    (Gossip.publishChange ⟨state, sync⟩ change).sync.peers.lookup state.ip = some record ∧
      record.allowedIps = state.allowedIps
  mq : ∀ sync, ∃ version peers record,
    (Mq.publishChange ⟨state, sync⟩ change).sync.peers = peers ∧
      (Mq.publishChange ⟨state, sync⟩ change).sync.pub =
        sync.pub ++ [⟨⟨state.ip, sync.port⟩, .stateUpdate version peers⟩] ∧
      peers.lookup state.ip = some record ∧ record.allowedIps = state.allowedIps
  dht : ∀ store sync, ∃ record,
    (final (((Dht.publishChange change).run Dht.handle).run
      ⟨store, ⟨state, sync⟩⟩)).store.peers.lookup state.ip = some (some record) ∧
      record.allowedIps = state.allowedIps

def Announces (before after : Console) : Prop :=
  ∃ change, after.published = before.published ++ [change] ∧ Carries after.state change

/-- What holds of the console of a node between two commands: the node's own route is first
in its list and nothing is listed twice, a removal takes out the entry shown at the index
entered or leaves everything alone, and what a command publishes has the list it leaves. -/
structure Exact (decimal : String → Option Nat) (ip : Ip) (console : Console) : Prop where
  first : console.state.allowedIps[0]? = some (ip ++ "/32")
  nodup : console.state.allowedIps.Nodup
  adds : ∀ allowedIp,
    (execute decimal console (.addAllowedIps allowedIp)).state.allowedIps =
        (if allowedIp ∈ console.state.allowedIps then console.state.allowedIps
          else console.state.allowedIps ++ [allowedIp]) ∧
      Announces console (execute decimal console (.addAllowedIps allowedIp))
  removes : ∀ entered index, decimal entered = some index → 0 < index →
    index < console.state.allowedIps.length →
      (execute decimal console (.removeAllowedIps entered)).state.allowedIps =
          console.state.allowedIps.eraseIdx index ∧
        Announces console (execute decimal console (.removeAllowedIps entered))
  refuses : ∀ entered, (∀ index, decimal entered = some index →
      index = 0 ∨ console.state.allowedIps.length ≤ index) →
    (execute decimal console (.removeAllowedIps entered)).state = console.state ∧
      (execute decimal console (.removeAllowedIps entered)).published = console.published

theorem Routed.new (ip publicKey publicIp : String) (publicPort : Nat) :
    Routed (State.new ip publicKey publicIp publicPort) :=
  ⟨rfl, List.nodup_singleton _⟩

theorem Routed.nonempty {state : State} (routed : Routed state) : state.allowedIps ≠ [] := by
  intro hempty
  have hfirst := routed.first
  rw [hempty] at hfirst
  cases hfirst

theorem Routed.add {state : State} (routed : Routed state) (allowedIp : String) :
    Routed (state.addAllowedIp allowedIp) := by
  unfold State.addAllowedIp
  split
  · exact routed
  · rename_i hnew
    have hlength : 0 < state.allowedIps.length := List.length_pos_iff.mpr routed.nonempty
    refine ⟨?_, ?_⟩
    · exact (List.getElem?_append_left hlength).trans routed.first
    · exact List.concat_eq_append ▸ routed.nodup.concat hnew

/-- Without duplicates, the removal by value takes out the entry that was picked. -/
theorem Routed.removeAllowedIp_eq {state : State} (routed : Routed state) {index : Nat}
    {allowedIp : String} (shown : state.allowedIps[index]? = some allowedIp) :
    state.removeAllowedIp allowedIp =
      { state with allowedIps := state.allowedIps.eraseIdx index } := by
  obtain ⟨hindex, hshown⟩ := List.getElem?_eq_some_iff.mp shown
  unfold State.removeAllowedIp
  rw [← hshown, routed.nodup.erase_getElem index hindex]

theorem Routed.eraseIdx {state : State} (routed : Routed state) {index : Nat}
    (later : 0 < index) :
    Routed { state with allowedIps := state.allowedIps.eraseIdx index } :=
  ⟨(List.getElem?_eraseIdx_of_lt later).trans routed.first, routed.nodup.eraseIdx index⟩

theorem Routed.apply_remove {state : State} (routed : Routed state) {index : Nat}
    (later : 0 < index) (inRange : index < state.allowedIps.length) :
    (OwnEdit.remove index).apply state =
      some { state with allowedIps := state.allowedIps.eraseIdx index } := by
  have hshown : state.allowedIps[index]? = some state.allowedIps[index] :=
    List.getElem?_eq_getElem inRange
  rw [OwnEdit.apply, if_pos later, hshown, Option.map_some, routed.removeAllowedIp_eq hshown]

theorem apply_remove_refused {state : State} {index : Nat}
    (refused : index = 0 ∨ state.allowedIps.length ≤ index) :
    (OwnEdit.remove index).apply state = none := by
  unfold OwnEdit.apply
  dsimp only
  split
  · rename_i hlater
    have hrange : state.allowedIps.length ≤ index := by omega
    rw [List.getElem?_eq_none hrange, Option.map_none]
  · rfl

theorem Routed.apply {edit : OwnEdit} {before after : State} (routed : Routed before)
    (edited : edit.apply before = some after) : Routed after := by
  cases edit with
  | add allowedIp =>
      cases edited
      exact routed.add allowedIp
  | remove index =>
      by_cases hrefused : index = 0 ∨ before.allowedIps.length ≤ index
      · rw [apply_remove_refused hrefused] at edited
        cases edited
      · have hlater : 0 < index := by omega
        rw [routed.apply_remove hlater (by omega)] at edited
        cases edited
        exact routed.eraseIdx hlater

theorem peers_dht_publishChange (change : Change) (site : Dht.Site) :
    (final (((Dht.publishChange change).run Dht.handle).run site)).store.peers =
      site.store.peers.set change.virtualIp (some (Dht.publishedRecord change)) := by
  obtain ⟨⟨changeCheck, keyList, peers⟩, node⟩ := site
  cases keyList with
  | none => rfl
  | some keys => cases changeCheck <;> rfl

theorem carries_ownChange {state : State} (nonempty : state.allowedIps ≠ []) :
    Carries state state.ownChange where
  gossip sync := by
    refine ⟨Gossip.publishedRecord ⟨state, sync⟩ state.ownChange, ?_,
      ownChange_allowedOrDefault nonempty⟩
    exact (Dict.lookup_set _ _ _ _).trans (if_pos rfl)
  mq sync := by
    refine ⟨sync.version + 1, _, Mq.publishedRecord ⟨state, sync⟩ state.ownChange, rfl, rfl, ?_,
      ownChange_allowedOrDefault nonempty⟩
    exact (Dict.lookup_set _ _ _ _).trans (if_pos rfl)
  dht store sync := by
    refine ⟨Dht.publishedRecord state.ownChange, ?_, ownChange_allowedOrDefault nonempty⟩
    rw [peers_dht_publishChange]
    exact (Dict.lookup_set _ _ _ _).trans (if_pos rfl)

variable (decimal : String → Option Nat)

theorem execute_cases (console : Console) (command : Command) :
    execute decimal console command = console ∨
      ∃ edit state, OwnEdit.apply edit console.state = some state ∧
        execute decimal console command = console.publish state := by
  unfold execute
  split
  · rename_i state hedited
    obtain ⟨edit, -, happly⟩ := Option.bind_eq_some_iff.mp hedited
    exact .inr ⟨edit, state, happly, rfl⟩
  · exact .inl rfl

theorem Routed.announces {console : Console} (routed : Routed console.state) {edit : OwnEdit}
    {state : State} (edited : edit.apply console.state = some state) :
    Announces console (console.publish state) :=
  ⟨state.ownChange, rfl, carries_ownChange (routed.apply edited).nonempty⟩

theorem execute_accepted {console : Console} {command : Command} {edit : OwnEdit} {state : State}
    (asks : command.edit decimal = some edit) (edited : edit.apply console.state = some state) :
    execute decimal console command = console.publish state := by
  rw [execute, asks, Option.bind_some, edited]

theorem Routed.exact {console : Console} (routed : Routed console.state) :
    Exact decimal console.state.ip console where
  first := routed.first
  nodup := routed.nodup
  adds allowedIp := by
    have hedited : (OwnEdit.add allowedIp).apply console.state =
        some (console.state.addAllowedIp allowedIp) := rfl
    rw [execute_accepted decimal rfl hedited]
    refine ⟨?_, routed.announces hedited⟩
    change (console.state.addAllowedIp allowedIp).allowedIps = _
    unfold State.addAllowedIp
    split <;> rfl
  removes entered index hdecimal hlater hrange := by
    have hasks : (Command.removeAllowedIps entered).edit decimal = some (.remove index) := by
      simp [Command.edit, hdecimal]
    have hedited := routed.apply_remove hlater hrange
    rw [execute_accepted decimal hasks hedited]
    exact ⟨rfl, routed.announces hedited⟩
  refuses entered hrefused := by
    have hsame : execute decimal console (.removeAllowedIps entered) = console := by
      unfold execute Command.edit
      cases hdecimal : decimal entered with
      | none => simp only [hdecimal, Option.map_none, Option.bind_none]
      | some index =>
          simp only [hdecimal, Option.map_some, Option.bind_some,
            apply_remove_refused (hrefused index hdecimal)]
    rw [hsame]
    exact ⟨rfl, rfl⟩

theorem Routed.next {console : Console} (routed : Routed console.state) (command : Command) :
    Routed (execute decimal console command).state ∧
      (execute decimal console command).state.ip = console.state.ip := by
  obtain h | ⟨edit, state, hedited, h⟩ := execute_cases decimal console command
  · rw [h]
    exact ⟨routed, rfl⟩
  · rw [h]
    refine ⟨routed.apply hedited, ?_⟩
    obtain ⟨allowedIps, rfl⟩ := OwnEdit.apply_spec hedited
    rfl

theorem Routed.commands (commands : List Command) {console : Console}
    (routed : Routed console.state) :
    Routed (commands.foldl (execute decimal) console).state ∧
      (commands.foldl (execute decimal) console).state.ip = console.state.ip := by
  induction commands generalizing console with
  | nil => exact ⟨routed, rfl⟩
  | cons command rest ih =>
      obtain ⟨hnext, hip⟩ := routed.next decimal command
      rw [List.foldl_cons, ← hip]
      exact ih hnext

theorem own_allowed_ips_exact (ip publicKey publicIp : String) (publicPort : Nat)
    (commands : List Command) :
    Exact decimal ip
      (commands.foldl (execute decimal) (Console.new ip publicKey publicIp publicPort)) := by
  have hstart : Routed (Console.new ip publicKey publicIp publicPort).state :=
    Routed.new ip publicKey publicIp publicPort
  obtain ⟨hrouted, hip⟩ := hstart.commands decimal commands
  have hexact := hrouted.exact decimal
  rwa [hip] at hexact

def twoRoutes : List Command :=
  [.addAllowedIps "192.168.1.0/24", .addAllowedIps "192.168.2.0/24", .removeAllowedIps "1",
    .removeAllowedIps "0", .removeAllowedIps "all"]

def entered : String → Option Nat
  | "0" => some 0
  | "1" => some 1
  | _ => none

theorem own_allowed_ips_exact_twoRoutes :
    let console := twoRoutes.foldl (execute entered)
      (Console.new "10.0.0.1" "ka" "198.51.100.1" 51820)
    console.state.allowedIps = ["10.0.0.1/32", "192.168.2.0/24"] ∧
      console.published.length = 3 ∧
      (execute entered console (.removeAllowedIps "1")).state.allowedIps = ["10.0.0.1/32"] ∧
      Announces console (execute entered console (.removeAllowedIps "1")) ∧
      (execute entered console (.removeAllowedIps "0")).published = console.published := by
  have hexact := own_allowed_ips_exact entered "10.0.0.1" "ka" "198.51.100.1" 51820 twoRoutes
  refine ⟨by decide, by decide, ?_, ?_, ?_⟩
  · exact (hexact.removes "1" 1 rfl (by decide) (by decide)).1
  · exact (hexact.removes "1" 1 rfl (by decide) (by decide)).2
  · refine (hexact.refuses "0" fun index hindex => .inl ?_).2
    exact (Option.some.inj hindex).symm

end WgBp.Main
