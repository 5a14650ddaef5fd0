import WgBp.Dht.Pass
import WgBp.Library.Transition
import WgBp.Model.Wire

/-! The store as Kademlia keeps it: JSON texts under strings. Whatever calls interleave
between their gets and sets, it answers like the map of records and counters that stands
for it in the other modules. -/
namespace WgBp.Dht.Texts

open WgBp.Library WgBp.Library.Procedure WgBp.Library.Resumption WgBp.Library.Transition
  WgBp.Library.Json WgBp.Model

variable {n : Nat}

abbrev TextStore := Dict String (List UInt8)

def changeCheckKey : String := "CHANGE_CHECK"
def keyListKey : String := "KEY_LIST"

def Proper (key : Ip) : Prop := key ≠ changeCheckKey ∧ key ≠ keyListKey

instance (key : Ip) : Decidable (Proper key) :=
  inferInstanceAs (Decidable (key ≠ changeCheckKey ∧ key ≠ keyListKey))

abbrev TextSite := TextStore × DhtNode

def setValueSync (key : String) (value : Value) : EStateM Halt TextSite Unit :=
  modify fun site => (site.1.set key (dumps value), site.2)

def valueOf (texts : TextStore) (key : String) : Option Value :=
  match (texts.lookup key).getD [] with
  | [] => some .null
  | text => loads text

def orNone {α : Type} (read : Value → Option α) : Value → Option (Option α)
  | .null => some none
  | value => (read value).map some

/-- A value of the wrong form would raise sooner or later; the error stands for that. -/
def getValueSync {α : Type} (key : String) (read : Value → Option α) :
    EStateM Halt TextSite (Option α) := do
  match (valueOf (← get).1 key).bind (orNone read) with
  | some value => pure value
  | none => throw (.raised .typeError)

def asInt : Value → Option Int
  | .number value => some value
  | _ => none

def orNull {α : Type} (json : α → Value) : Option α → Value
  | none => .null
  | some value => json value

def keysJson (keys : List Ip) : Value := .list (keys.map .text)

def onTextNode {α : Type} (body : EStateM Halt DhtNode α) : EStateM Halt TextSite α :=
  onPart Prod.snd (fun node site => (site.1, node)) body

def handleText : (op : Op) → EStateM Halt TextSite op.Answer
  | .setPeer key value => setValueSync key (orNull (PeerRecord.json false) value)
  | .getPeer key => getValueSync key PeerRecord.ofJson
  | .setKeyList keys => setValueSync keyListKey (orNull keysJson keys)
  | .getKeyList => getValueSync keyListKey Value.asTexts
  | .setChangeCheck value => setValueSync changeCheckKey (.number value)
  | .getChangeCheck => getValueSync changeCheckKey asInt
  | .setCurrent value => onTextNode (setCurrent value)
  | .getCurrent => onTextNode (return (← get).sync.currentChangeCheckValue)
  | .lockAquire => onTextNode (onState State.lockAquire)
  | .lockRelease => onTextNode release
  | .checkKey key peerInfo existingPeer =>
    onTextNode (onState (checkKey key peerInfo existingPeer))

@[simp] theorem valueOf_set (texts : TextStore) (key other : String) (value : Value) :
    valueOf (texts.set key (dumps value)) other =
      if other = key then some value else valueOf texts other := by
  unfold valueOf
  rw [Dict.lookup_set]
  by_cases hother : other = key
  · obtain ⟨byte, rest, htext, -⟩ := dumps_head value
    have hloads := loads_dumps value
    rw [htext] at hloads
    rw [if_pos hother, if_pos hother, Option.getD_some, htext]
    exact hloads
  · rw [if_neg hother, if_neg hother]

structure Represents (store : Store) (texts : TextStore) : Prop where
  changeCheck : (valueOf texts changeCheckKey).bind (orNone asInt) = some store.changeCheck
  keyList : (valueOf texts keyListKey).bind (orNone Value.asTexts) = some store.keyList
  peers : ∀ key, Proper key →
    (valueOf texts key).bind (orNone PeerRecord.ofJson) = some (store.stored key)
  proper : ∀ keys, store.keyList = some keys → ∀ key ∈ keys, Proper key

theorem represents_empty : Represents ⟨none, none, ∅⟩ ∅ :=
  ⟨rfl, rfl, fun _ _ => rfl, by rintro keys ⟨⟩⟩

theorem read_orNull {α : Type} {json : α → Value} {read : Value → Option α}
    (reads : ∀ value, orNone read (json value) = some (some value)) (value : Option α) :
    orNone read (orNull json value) = some value := by
  cases value with
  | none => rfl
  | some value => exact reads value

@[simp] theorem read_record (record : PeerRecord) :
    orNone PeerRecord.ofJson (record.json false) = some (some record) :=
  congrArg (Option.map some) (PeerRecord.ofJson_json false record)

@[simp] theorem read_keys (keys : List Ip) :
    orNone Value.asTexts (keysJson keys) = some (some keys) :=
  congrArg (Option.map some) (asTexts_texts keys)

theorem Represents.setPeer {store : Store} {texts : TextStore} (represents : Represents store texts)
    {key : Ip} (proper : Proper key) (value : Option PeerRecord) :
    Represents { store with peers := store.peers.set key value }
      (texts.set key (dumps (orNull (PeerRecord.json false) value))) := by
  refine ⟨?_, ?_, ?_, represents.proper⟩
  · rw [valueOf_set, if_neg proper.1.symm]
    exact represents.changeCheck
  · rw [valueOf_set, if_neg proper.2.symm]
    exact represents.keyList
  · intro other hother
    rw [valueOf_set]
    simp only [Store.stored, Dict.lookup_set]
    split
    · exact read_orNull read_record value
    · exact represents.peers other hother

theorem Represents.setKeyList {store : Store} {texts : TextStore}
    (represents : Represents store texts) {keys : Option (List Ip)}
    (proper : ∀ list, keys = some list → ∀ key ∈ list, Proper key) :
    Represents { store with keyList := keys }
      (texts.set keyListKey (dumps (orNull keysJson keys))) := by
  refine ⟨?_, ?_, ?_, proper⟩
  · rw [valueOf_set, if_neg (by decide)]
    exact represents.changeCheck
  · rw [valueOf_set, if_pos rfl]
    exact read_orNull read_keys keys
  · intro key hkey
    rw [valueOf_set, if_neg hkey.2]
    exact represents.peers key hkey

theorem Represents.setChangeCheck {store : Store} {texts : TextStore}
    (represents : Represents store texts) (value : Int) :
    Represents { store with changeCheck := some value }
      (texts.set changeCheckKey (dumps (.number value))) := by
  refine ⟨?_, ?_, ?_, represents.proper⟩
  · rw [valueOf_set, if_pos rfl]
    rfl
  · rw [valueOf_set, if_neg (by decide)]
    exact represents.keyList
  · intro key hkey
    rw [valueOf_set, if_neg hkey.1]
    exact represents.peers key hkey

def allowed : Op → Prop
  | .setPeer key _ => Proper key
  | .getPeer key => Proper key
  | .setKeyList keys => ∀ list, keys = some list → ∀ key ∈ list, Proper key
  | _ => True

def promise : (op : Op) → op.Answer → Prop
  | .getKeyList, answer => ∀ list, answer = some list → ∀ key ∈ list, Proper key
  | _, _ => True

structure Same (site : Site) (textSite : TextSite) : Prop where
  store : Represents site.store textSite.1
  node : site.node = textSite.2

theorem run_getValueSync {α : Type} {key : String} {read : Value → Option α} {answer : Option α}
    {site : TextSite} (found : (valueOf site.1 key).bind (orNone read) = some answer) :
    (getValueSync key read).run site = .ok answer site := by
  unfold getValueSync
  rw [EStateM.run_bind, EStateM.run_get]
  simp only [found]
  rfl

theorem agree_onNode {α : Type} {promised : α → Prop} (body : EStateM Halt DhtNode α)
    (kept : ∀ value, promised value) {site : Site} {textSite : TextSite}
    (same : Same site textSite) :
    Agree Same promised ((onNode body).run site) ((onTextNode body).run textSite) := by
  unfold onNode onTextNode
  rw [run_onPart, run_onPart, same.node]
  cases body.run textSite.2 with
  | ok value node => exact .ok (kept value) ⟨same.store, rfl⟩
  | error error node => exact .error ⟨same.store, rfl⟩

theorem agree (op : Op) (site : Site) (textSite : TextSite) (proper : allowed op)
    (same : Same site textSite) :
    Agree Same (promise op) ((handle op).run site) ((handleText op).run textSite) := by
  cases op with
  | setPeer key value => exact .ok trivial ⟨same.store.setPeer proper value, same.node⟩
  | getPeer key =>
      have hrun := run_getValueSync (same.store.peers key proper)
      simp only [handleText]
      rw [hrun]
      exact .ok trivial same
  | setKeyList keys => exact .ok trivial ⟨same.store.setKeyList proper, same.node⟩
  | getKeyList =>
      have hrun := run_getValueSync same.store.keyList
      simp only [handleText]
      rw [hrun]
      exact .ok same.store.proper same
  | setChangeCheck value => exact .ok trivial ⟨same.store.setChangeCheck value, same.node⟩
  | getChangeCheck =>
      have hrun := run_getValueSync same.store.changeCheck
      simp only [handleText]
      rw [hrun]
      exact .ok trivial same
  | setCurrent value => exact agree_onNode _ (fun _ => trivial) same
  | getCurrent => exact agree_onNode _ (fun _ => trivial) same
  | lockAquire => exact agree_onNode _ (fun _ => trivial) same
  | lockRelease => exact agree_onNode _ (fun _ => trivial) same
  | checkKey key peerInfo existingPeer => exact agree_onNode _ (fun _ => trivial) same

inductive Call where
  | createStore (state : State)
  | announce (state : State)
  | publishChange (change : Change)
  | checkForChanges
  | checkForChangeTrigger (depth : Nat)
  | exitSync (virtualIp : Ip)

def Call.program : Call → Program Unit
  | .createStore state => Dht.createStore state
  | .announce state => Dht.announce state
  | .publishChange change => Dht.publishChange change
  | .checkForChanges => Dht.checkForChanges
  | .checkForChangeTrigger depth => Dht.checkForChangeTrigger depth
  | .exitSync virtualIp => Dht.exitSync virtualIp

def Call.Proper : Call → Prop
  | .createStore state => Texts.Proper state.ip
  | .announce state => Texts.Proper state.ip
  | .publishChange change => Texts.Proper change.virtualIp
  | .exitSync virtualIp => Texts.Proper virtualIp
  | _ => True

private abbrev Follows {α : Type} (sofar : Prop) (program : Program α) : Prop :=
  Obeys (relying allowed promise) (fun _ _ => True) sofar program

private theorem follows_loop (keys : List Ip) (existingPeer : Option PeerInfo) {sofar : Prop}
    (proper : sofar → ∀ key ∈ keys, Proper key) :
    Follows sofar (keys.foldlM checkEntry existingPeer) := by
  induction keys generalizing existingPeer sofar with
  | nil => exact trivial
  | cons key rest ih =>
      rw [List.foldlM_cons]
      refine ⟨fun h => proper h key (by simp), fun _ => ⟨fun _ => trivial, fun found => ?_⟩⟩
      exact ih found fun h other hother => proper h.1.1 other (by simp [hother])

private theorem follows_checkForChanges (sofar : Prop) : Follows sofar Dht.checkForChanges := by
  refine ⟨fun _ => trivial, fun _ => ⟨fun _ => trivial, fun keys => ?_⟩⟩
  refine ⟨fun h => h.2, fun _ => ?_⟩
  cases keys with
  | none => exact trivial
  | some keys =>
      change Follows _ (keys.foldlM checkEntry none >>= fun _ => access .lockRelease)
      refine Obeys.bind ((follows_loop keys none ?_).mono fun _ _ _ =>
        ⟨fun _ => trivial, fun _ => trivial⟩)
      exact fun h => h.1.2 keys rfl

private theorem follows_trigger (depth : Nat) (sofar : Prop) :
    Follows sofar (Dht.checkForChangeTrigger depth) := by
  induction depth generalizing sofar with
  | zero => exact trivial
  | succ depth ih =>
      refine ⟨fun _ => trivial, fun value => ⟨fun _ => trivial, fun current => ?_⟩⟩
      cases value with
      | none => exact trivial
      | some value =>
          change Follows _ (if some value = some current then pure () else
            if value < current then do
              access (.setCurrent (-1))
              Dht.checkForChangeTrigger depth
            else do
              Dht.checkForChanges
              access (.setCurrent value))
          split
          · exact trivial
          · split
            · exact ⟨fun _ => trivial, fun _ => ih _⟩
            · exact Obeys.bind ((follows_checkForChanges _).mono fun _ _ _ =>
                ⟨fun _ => trivial, fun _ => trivial⟩)

private theorem follows_publishChange {change : Change} (proper : Proper change.virtualIp)
    (sofar : Prop) : Follows sofar (Dht.publishChange change) := by
  refine ⟨fun _ => proper, fun _ => ⟨fun _ => trivial, fun keys => ?_⟩⟩
  cases keys with
  | none => exact trivial
  | some keys =>
      refine ⟨?_, fun _ => ⟨fun _ => trivial, fun value => ?_⟩⟩
      · rintro h list ⟨⟩ key hkey
        split at hkey
        · exact h.2 keys rfl key hkey
        · rcases List.mem_append.mp hkey with hkey | hkey
          · exact h.2 keys rfl key hkey
          · rw [List.mem_singleton.mp hkey]
            exact proper
      · cases value with
        | none => exact trivial
        | some value =>
            exact ⟨fun _ => trivial, fun _ => ⟨fun _ => trivial, fun _ =>
              ⟨fun _ => trivial, fun _ => trivial⟩⟩⟩

theorem Call.relies {call : Call} (proper : call.Proper) :
    Relies allowed promise call.program := by
  refine ⟨True, trivial, ?_⟩
  cases call with
  | createStore state =>
      refine ⟨fun _ => trivial, fun _ => ⟨?_, fun _ => ⟨fun _ => proper, fun _ => trivial⟩⟩⟩
      rintro - list ⟨⟩ key hkey
      rw [List.mem_singleton.mp hkey]
      exact proper
  | announce state => exact ⟨fun _ => proper, fun _ => trivial⟩
  | publishChange change => exact follows_publishChange proper True
  | checkForChanges => exact follows_checkForChanges True
  | checkForChangeTrigger depth => exact follows_trigger depth True
  | exitSync virtualIp =>
      exact ⟨fun _ => proper, fun _ => ⟨fun _ => trivial, fun _ =>
        ⟨fun _ => trivial, fun _ => trivial⟩⟩⟩

structure World (σ : Type) (n : Nat) where
  store : σ
  nodes : Fin n → DhtNode
  calls : List (Fin n × Program Unit)

inductive Event (n : Nat) where
  | call (node : Fin n) (made : Call)
  | edit (node : Fin n) (state : State)
  | step (index : Nat)

def next {σ : Type} (handle : (op : Op) → EStateM Halt (σ × DhtNode) op.Answer)
    (world : World σ n) : Event n → Option (World σ n)
  | .call node made => some { world with calls := world.calls ++ [(node, made.program)] }
  | .edit node state => some { world with
      nodes := Function.update world.nodes node { world.nodes node with state } }
  | .step index => do
    let (node, program) ← world.calls[index]?
    let (after, store, moved) ← advance handle program (world.store, world.nodes node)
    some ⟨store, Function.update world.nodes node moved, world.calls.set index (node, after)⟩

def handleStore (op : Op) : EStateM Halt (Store × DhtNode) op.Answer :=
  onPart (fun site => ⟨site.1, site.2⟩) (fun site _ => (site.store, site.node)) (handle op)

def ProperEvent {σ : Type} : World σ n → Event n → Prop
  | _, .call _ made => made.Proper
  | _, _ => True

theorem agreeStore (op : Op) (site : Store × DhtNode) (textSite : TextSite) (proper : allowed op)
    (same : Represents site.1 textSite.1 ∧ site.2 = textSite.2) :
    Agree (fun site textSite => Represents site.1 textSite.1 ∧ site.2 = textSite.2) (promise op)
      ((handleStore op).run site) ((handleText op).run textSite) := by
  have hagree := agree op ⟨site.1, site.2⟩ textSite proper ⟨same.1, same.2⟩
  unfold handleStore
  rw [run_onPart]
  generalize (handle op).run ⟨site.1, site.2⟩ = first at hagree ⊢
  generalize (handleText op).run textSite = second at hagree ⊢
  cases hagree with
  | ok kept related => exact .ok kept ⟨related.store, related.node⟩
  | error related => exact .error ⟨related.store, related.node⟩

structure Stands (world : World Store n) (texts : World TextStore n) : Prop where
  store : Represents world.store texts.store
  nodes : world.nodes = texts.nodes
  calls : world.calls = texts.calls
  relies : ∀ call ∈ texts.calls, Relies allowed promise call.2

theorem stands_next {world : World Store n} {texts after : World TextStore n} {event : Event n}
    (stands : Stands world texts) (proper : ProperEvent texts event)
    (step : next handleText texts event = some after) :
    ∃ moved, ProperEvent world event ∧ next handleStore world event = some moved ∧
      Stands moved after := by
  obtain ⟨hstore, hnodes, hcalls, hrelies⟩ := stands
  cases event with
  | call node call =>
      cases step
      refine ⟨_, proper, rfl, hstore, hnodes, by rw [hcalls], ?_⟩
      intro other hother
      rcases List.mem_append.mp hother with hother | hother
      · exact hrelies other hother
      · rw [List.mem_singleton.mp hother]
        exact Call.relies proper
  | edit node state =>
      cases step
      exact ⟨_, trivial, rfl, hstore, by rw [hnodes], hcalls, hrelies⟩
  | step index =>
      obtain ⟨⟨node, program⟩, hcall, hrest⟩ := Option.bind_eq_some_iff.mp step
      obtain ⟨⟨last, stored, moved⟩, hadvance, hlast⟩ := Option.bind_eq_some_iff.mp hrest
      cases hlast
      have hprogram := hrelies _ (List.mem_of_getElem? hcall)
      have hsame : Represents (world.store, world.nodes node).1 (texts.store, texts.nodes node).1 ∧
          (world.store, world.nodes node).2 = (texts.store, texts.nodes node).2 :=
        ⟨hstore, by rw [hnodes]⟩
      obtain ⟨⟨followed, arrived⟩, hfollow, ⟨hrepresents, harrived⟩, hafter⟩ :=
        hprogram.advance agreeStore hsame hadvance
      obtain rfl : arrived = moved := harrived
      refine ⟨⟨followed, Function.update world.nodes node arrived,
        world.calls.set index (node, last)⟩, trivial, ?_, hrepresents, ?_, ?_, ?_⟩
      · simp [next, hcalls, hcall, hfollow]
      · rw [hnodes]
      · rw [hcalls]
      · intro other hother
        rcases List.mem_or_eq_of_mem_set hother with hother | rfl
        · exact hrelies other hother
        · exact hafter

theorem dht_texts (nodes : Fin n → DhtNode) (texts : World TextStore n)
    (run : Run (next handleText) ProperEvent ⟨∅, nodes, []⟩ texts) :
    ∃ world : World Store n,
      Run (next handleStore) ProperEvent ⟨⟨none, none, ∅⟩, nodes, []⟩ world ∧
        Represents world.store texts.store ∧ world.nodes = texts.nodes ∧
        world.calls = texts.calls := by
  have hstart : Stands (⟨⟨none, none, ∅⟩, nodes, []⟩ : World Store n) ⟨∅, nodes, []⟩ :=
    ⟨represents_empty, rfl, rfl, by simp⟩
  have hstep (world : World Store n) (texts : World TextStore n) (event : Event n)
      (after : World TextStore n) (stands : Stands world texts) (proper : ProperEvent texts event)
      (step : next handleText texts event = some after) : ∃ moved, ProperEvent world event ∧
        next handleStore world event = some moved ∧ Stands moved after :=
    stands_next stands proper step
  obtain ⟨world, hrun, hstands⟩ := Run.simulated hstep hstart run
  exact ⟨world, hrun, hstands.store, hstands.nodes, hstands.calls⟩

/-! The creator publishes a node that stores its own record in the meantime. -/

def creatorState : State := .new "10.0.0.1" "ka" "198.51.100.1" 51820
def joinerState : State := .new "10.0.0.2" "kb" "198.51.100.2" 51820
def joinerChange : Change := ⟨"10.0.0.2", "kb", "198.51.100.2", 51820, none, some 6881⟩

def startedNodes : Fin 2 → DhtNode
  | 0 => ⟨creatorState, ⟨-1, 0⟩⟩
  | 1 => ⟨joinerState, ⟨-1, 0⟩⟩

instance : DecidablePred Call.Proper
  | .createStore state => inferInstanceAs (Decidable (Texts.Proper state.ip))
  | .announce state => inferInstanceAs (Decidable (Texts.Proper state.ip))
  | .publishChange change => inferInstanceAs (Decidable (Texts.Proper change.virtualIp))
  | .checkForChanges => .isTrue trivial
  | .checkForChangeTrigger _ => .isTrue trivial
  | .exitSync virtualIp => inferInstanceAs (Decidable (Texts.Proper virtualIp))

instance {σ : Type} (world : World σ n) : DecidablePred (ProperEvent world)
  | .call _ made => inferInstanceAs (Decidable made.Proper)
  | .edit _ _ => .isTrue trivial
  | .step _ => .isTrue trivial

theorem dht_texts_joining :
    ∃ (texts : World TextStore 2) (world : World Store 2),
      texts.store.lookup "KEY_LIST" = some (ascii "[\"10.0.0.1\", \"10.0.0.2\"]") ∧
        world.store.keyList = some ["10.0.0.1", "10.0.0.2"] ∧
        world.nodes = texts.nodes ∧ Represents world.store texts.store := by
  have hreplay : (replay (next handleText)
      (fun texts event => decide (ProperEvent texts event)) ⟨∅, startedNodes, []⟩
      [.call 0 (.createStore creatorState), .step 0, .step 0, .step 0,
        .call 0 (.publishChange joinerChange), .call 1 (.announce joinerState), .step 1, .step 1,
        .step 2, .step 1, .step 1, .step 1, .step 1, .step 1]).any (fun texts =>
          texts.store.lookup "KEY_LIST" = some (ascii "[\"10.0.0.1\", \"10.0.0.2\"]") ∧
          (valueOf texts.store keyListKey).bind (orNone Value.asTexts) =
            some (some ["10.0.0.1", "10.0.0.2"])) = true := by
    decide +kernel
  obtain ⟨texts, hrun, hfound⟩ := reached_of_replay (fun _ _ h => of_decide_eq_true h) hreplay
  obtain ⟨htext, hkeys⟩ := of_decide_eq_true hfound
  obtain ⟨world, -, hrepresents, hnodes, -⟩ := dht_texts startedNodes texts hrun
  refine ⟨texts, world, htext, ?_, hnodes, hrepresents⟩
  exact Option.some.inj (hrepresents.keyList.symm.trans hkeys)

end WgBp.Dht.Texts
