import WgBp.Discovery.Services
import WgBp.Model.Wire

/-! What `DiscoveryDNSSD` advertises, and where a node starts that has picked a service
while the list of them changes. -/
namespace WgBp.Discovery

open WgBp.Library WgBp.Library.Procedure WgBp.Model

inductive Acceptor where
  | join (bootstrapPort : Nat)
  | broadcast (bootstrapPort : Nat)
  deriving DecidableEq

structure ServiceInfo where
  name : String
  addresses : List Ip
  port : Nat
  properties : Dict String String
  deriving DecidableEq

def keyType : String := "type"
def keyIp : String := "ip"
def keyPort : String := "port"

def Acceptor.getInfo : Acceptor → String × Nat
  | .join bootstrapPort => ("JOIN", bootstrapPort)
  | .broadcast bootstrapPort => ("BROADCAST", bootstrapPort)

def properties (type ip : String) (port : Nat) : Dict String String :=
  ((Dict.set ∅ keyType type).set keyIp ip).set keyPort (.ofList (portText port))

/-- `startAdvertise`; `address` is what the entered name resolves to, by default
`127.0.0.1`. -/
def startAdvertise (ip address : Ip) (acceptor : Acceptor) : ServiceInfo :=
  let (type, port) := acceptor.getInfo
  match acceptor with
  | .join _ => ⟨ip ++ "_join._wg._tcp.local.", [address], port, properties type address port⟩
  | .broadcast _ =>
    ⟨ip ++ "_broadcast._wg._tcp.local.", ["0.0.0.0"], port, properties type "0.0.0.0" port⟩

inductive Happening where
  | event (event : ServiceEvent ServiceInfo)
  | input (text : String)

/-- An exception of the callback leaves the loop at the prompt running. -/
def heard (services : List (Service ServiceInfo)) (event : ServiceEvent ServiceInfo) :
    List (Service ServiceInfo) := final ((onServiceStateChange event).run services)

/-- `browseServices` up to the selection. `decimal` is the number an input stands for, if
`isdigit` holds of it without the blanks around it. -/
def browseServices (decimal : String → Option Nat) (services : List (Service ServiceInfo)) :
    List Happening → Option (Service ServiceInfo)
  | [] => none
  | .event event :: rest => browseServices decimal (heard services event) rest
  | .input text :: rest =>
    match (decimal text).bind (services[·]?) with
    | some service => some service
    | none => browseServices decimal services rest

inductive Start where
  | direct (targetHost : Ip) (bootstrapPort : Nat)
  | broadcast (bootstrapPort : Nat)
  deriving DecidableEq

def dnssdDiscover (info : ServiceInfo) : Option Start := do
  let type ← info.properties.lookup keyType
  let ip ← info.properties.lookup keyIp
  let port ← portOf (← info.properties.lookup keyPort).toList
  if type = "JOIN" then some (.direct ip port)
  else if type = "BROADCAST" then some (.broadcast port)
  else none

def Acceptor.start (address : Ip) : Acceptor → Start
  | .join bootstrapPort => .direct address bootstrapPort
  | .broadcast bootstrapPort => .broadcast bootstrapPort

@[simp] theorem dnssdDiscover_advertised (ip address : Ip) (acceptor : Acceptor) :
    dnssdDiscover (startAdvertise ip address acceptor) = some (acceptor.start address) := by
  have hproperties (type host : String) (port : Nat) :
      (properties type host port).lookup keyType = some type ∧
        (properties type host port).lookup keyIp = some host ∧
        (properties type host port).lookup keyPort = some (.ofList (portText port)) := by
    simp [properties, keyType, keyIp, keyPort]
  cases acceptor with
  | join bootstrapPort =>
      obtain ⟨htype, hip, hport⟩ := hproperties "JOIN" address bootstrapPort
      simp [dnssdDiscover, startAdvertise, Acceptor.getInfo, htype, hip, hport, Acceptor.start]
  | broadcast bootstrapPort =>
      obtain ⟨htype, hip, hport⟩ := hproperties "BROADCAST" "0.0.0.0" bootstrapPort
      simp [dnssdDiscover, startAdvertise, Acceptor.getInfo, htype, hip, hport, Acceptor.start]

def eventsOf (happenings : List Happening) : List (ServiceEvent ServiceInfo) :=
  happenings.filterMap fun
    | .event event => some event
    | .input _ => none

theorem browseServices_selects {decimal : String → Option Nat}
    {services : List (Service ServiceInfo)} {happenings : List Happening}
    {service : Service ServiceInfo}
    (selected : browseServices decimal services happenings = some service) :
    ∃ before text after, happenings = before ++ .input text :: after ∧
      service ∈ (eventsOf before).foldl heard services := by
  induction happenings generalizing services with
  | nil => cases selected
  | cons happening rest ih =>
      cases happening with
      | event event =>
          obtain ⟨before, text, after, rfl, hmem⟩ := ih selected
          exact ⟨.event event :: before, text, after, rfl, hmem⟩
      | input text =>
          cases hpicked : (decimal text).bind (services[·]?) with
          | none =>
              simp only [browseServices, hpicked] at selected
              obtain ⟨before, later, after, rfl, hmem⟩ := ih selected
              exact ⟨.input text :: before, later, after, rfl, hmem⟩
          | some picked =>
              simp only [browseServices, hpicked, Option.some.injEq] at selected
              subst selected
              obtain ⟨index, -, hindex⟩ := Option.bind_eq_some_iff.mp hpicked
              exact ⟨[], text, rest, rfl, List.mem_of_getElem? hindex⟩

def ServiceEvent.resolved (event : ServiceEvent ServiceInfo) : Option ServiceInfo :=
  match event.change with
  | .added info | .updated info => info
  | .removed => none

def registered (ip address : Ip) (acceptor : Acceptor) : Service ServiceInfo :=
  ⟨(startAdvertise ip address acceptor).name, startAdvertise ip address acceptor⟩

def IsAdvertised (service : Service ServiceInfo) : Prop :=
  ∃ ip address acceptor, service = registered ip address acceptor

def ServiceEvent.Honest (event : ServiceEvent ServiceInfo) : Prop :=
  ∀ info, event.resolved = some info → IsAdvertised ⟨event.name, info⟩

theorem mem_of_refresh {name : String} {info : ServiceInfo}
    {services : List (Service ServiceInfo)} {service : Service ServiceInfo}
    (member : service ∈ refresh name info services) :
    service = ⟨name, info⟩ ∨ service ∈ services := by
  induction services with
  | nil => cases member
  | cons first rest ih =>
      unfold refresh at member
      split at member
      · rename_i hname
        subst hname
        exact (List.mem_cons.mp member).imp id (List.mem_cons_of_mem _)
      · rcases List.mem_cons.mp member with rfl | hrest
        · exact .inr List.mem_cons_self
        · exact (ih hrest).imp id (List.mem_cons_of_mem _)

theorem mem_heard {services : List (Service ServiceInfo)} {event : ServiceEvent ServiceInfo}
    {service : Service ServiceInfo} (member : service ∈ heard services event) :
    service ∈ services ∨
      ∃ info, event.resolved = some info ∧ service = ⟨event.name, info⟩ := by
  obtain ⟨name, change⟩ := event
  have hrequire (listed : Service ServiceInfo) (services : List (Service ServiceInfo)) :
      final ((requireIndex listed).run services) = services := by
    by_cases hlisted : listed ∈ services <;> simp [requireIndex, hlisted]
  cases change with
  | removed => exact .inl member
  | added resolved =>
      cases resolved with
      | none => exact .inl member
      | some info =>
          simp only [heard, onServiceStateChange, EStateM.run_bind, EStateM.run_modify,
            hrequire] at member
          rcases List.mem_append.mp member with hold | hnew
          · exact .inl hold
          · exact .inr ⟨info, rfl, List.mem_singleton.mp hnew⟩
  | updated resolved =>
      cases resolved with
      | none => exact .inl member
      | some info =>
          simp only [heard, onServiceStateChange, EStateM.run_bind, EStateM.run_modify,
            hrequire] at member
          exact (mem_of_refresh member).symm.imp id fun hnew => ⟨info, rfl, hnew⟩

theorem mem_foldl_heard {events : List (ServiceEvent ServiceInfo)}
    {service : Service ServiceInfo} (honest : ∀ event ∈ events, event.Honest)
    (member : service ∈ events.foldl heard []) : IsAdvertised service := by
  have hall : ∀ services : List (Service ServiceInfo),
      (∀ listed ∈ services, IsAdvertised listed) →
        ∀ listed ∈ events.foldl heard services, IsAdvertised listed := by
    clear member
    induction events with
    | nil => exact fun services hservices => hservices
    | cons event rest ih =>
        intro services hservices
        refine ih (fun other hother => honest other (List.mem_cons_of_mem _ hother)) _ ?_
        intro listed hlisted
        rcases mem_heard hlisted with hold | ⟨info, hinfo, rfl⟩
        · exact hservices listed hold
        · exact honest event List.mem_cons_self info hinfo
  exact hall [] (fun _ h => by cases h) service member

theorem Live.heard {events : List (ServiceEvent ServiceInfo)}
    {services : List (Service ServiceInfo)} {advertised : Advertised ServiceInfo}
    (live : Live services advertised) (orderly : advertised.Orderly events)
    (calm : advertised.Calm events) :
    Live (events.foldl Discovery.heard services) (events.foldl Advertised.after advertised) := by
  induction events generalizing services advertised with
  | nil => exact live
  | cons event rest ih =>
      obtain ⟨after, hrun, hafter⟩ := live.next orderly.1 calm.1
      have hheard : Discovery.heard services event = after := by
        rw [Discovery.heard, hrun]
        rfl
      rw [List.foldl_cons, List.foldl_cons, hheard]
      exact ih hafter orderly.2 calm.2

/-- A node that selects a service starts where the acceptor behind it takes joiners,
however the list has changed meanwhile; and while the list follows the network, the
service is one that is advertised at the time, with its latest information. -/
theorem dnssd_starts_at_acceptor {decimal : String → Option Nat} {happenings : List Happening}
    {service : Service ServiceInfo}
    (honest : ∀ event, .event event ∈ happenings → event.Honest)
    (selected : browseServices decimal [] happenings = some service) :
    (∃ ip address acceptor, service = registered ip address acceptor ∧
      dnssdDiscover service.info = some (acceptor.start address)) ∧
    ∃ before text after, happenings = before ++ .input text :: after ∧
      (Advertised.Orderly ∅ (eventsOf before) → Advertised.Calm ∅ (eventsOf before) →
        ((eventsOf before).foldl Advertised.after ∅).lookup service.name =
          some (some service.info)) := by
  obtain ⟨before, text, after, rfl, hmem⟩ := browseServices_selects selected
  have hhonest : ∀ event ∈ eventsOf before, event.Honest := by
    intro event hevent
    obtain ⟨happening, hhappening, hevent⟩ := List.mem_filterMap.mp hevent
    cases happening with
    | input text => cases hevent
    | event found =>
        cases hevent
        exact honest event (List.mem_append_left _ hhappening)
  constructor
  · obtain ⟨ip, address, acceptor, rfl⟩ := mem_foldl_heard hhonest hmem
    exact ⟨ip, address, acceptor, rfl, dnssdDiscover_advertised ip address acceptor⟩
  · refine ⟨before, text, after, rfl, fun horderly hcalm => ?_⟩
    have hlive := Live.heard live_start horderly hcalm
    exact (hlive.listed service.name service.info).mp hmem

def twoAdvertised : List Happening :=
  let first := registered "10.0.0.1" "192.0.2.1" (.join 17777)
  let second := registered "10.0.0.2" "192.0.2.2" (.broadcast 18888)
  [.event ⟨first.name, .added (some first.info)⟩, .input "one", .input "1",
    .event ⟨second.name, .added (some second.info)⟩, .input "1"]

theorem dnssd_starts_at_acceptor_second :
    ∃ service, browseServices (fun text => portOf text.toList) [] twoAdvertised = some service ∧
      dnssdDiscover service.info = some (.broadcast 18888) ∧
      (∃ ip address acceptor, service = registered ip address acceptor ∧
        dnssdDiscover service.info = some (acceptor.start address)) := by
  have hselected : browseServices (fun text => portOf text.toList) [] twoAdvertised =
      some (registered "10.0.0.2" "192.0.2.2" (.broadcast 18888)) := by
    decide +kernel
  have hhonest : ∀ event, .event event ∈ twoAdvertised → event.Honest := by
    intro event hevent info hinfo
    simp only [twoAdvertised, List.mem_cons, Happening.event.injEq, reduceCtorEq, List.not_mem_nil,
      or_false, false_or] at hevent
    rcases hevent with rfl | rfl
    · cases hinfo
      exact ⟨_, _, _, rfl⟩
    · cases hinfo
      exact ⟨_, _, _, rfl⟩
  exact ⟨_, hselected, by decide +kernel, (dnssd_starts_at_acceptor hhonest hselected).1⟩

end WgBp.Discovery
