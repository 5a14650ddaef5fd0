import WgBp.Library.Procedure

/-! The list of `DiscoveryDNSSD` that `browseServices` picks from by index, and the
services that are on the network while the callback keeps it. -/
namespace WgBp.Discovery

open WgBp.Library WgBp.Library.Procedure

structure Service (ι : Type) where
  name : String
  info : ι
  deriving DecidableEq

inductive ServiceStateChange (ι : Type) where
  | added (info : Option ι)
  | removed
  | updated (info : Option ι)

structure ServiceEvent (ι : Type) where
  name : String
  change : ServiceStateChange ι

inductive ServiceError where
  | unboundLocalError
  | valueError
  deriving DecidableEq

variable {ι : Type}

def refresh (name : String) (info : ι) : List (Service ι) → List (Service ι)
  | [] => []
  | service :: rest =>
    if service.name = name then { service with info } :: rest else service :: refresh name info rest

/-- `list.index`, for the message that is printed. -/
def requireIndex [DecidableEq ι] (service : Service ι) :
    EStateM ServiceError (List (Service ι)) Unit := do
  if service ∉ (← get) then throw .valueError

/-- `_on_service_state_change`. The branch for removals reads `info`, which only the other
branches assign. -/
def onServiceStateChange [DecidableEq ι] (event : ServiceEvent ι) :
    EStateM ServiceError (List (Service ι)) Unit :=
  match event.change with
  | .added none => pure ()
  | .added (some info) => do
    modify fun services => services ++ [⟨event.name, info⟩]
    requireIndex ⟨event.name, info⟩
  | .removed => throw .unboundLocalError
  | .updated none => pure ()
  | .updated (some info) => do
    modify (refresh event.name info)
    requireIndex ⟨event.name, info⟩

/-- The services advertised, each with the info of its latest successful resolution. -/
abbrev Advertised (ι : Type) := Dict String (Option ι)

def Advertised.after (advertised : Advertised ι) (event : ServiceEvent ι) : Advertised ι :=
  match event.change with
  | .added info => advertised.set event.name info
  | .removed => advertised.erase event.name
  | .updated none => advertised
  | .updated (some info) => advertised.set event.name (some info)

def Advertised.admits (advertised : Advertised ι) (event : ServiceEvent ι) : Prop :=
  match event.change with
  | .added _ => event.name ∉ advertised
  | .removed | .updated _ => event.name ∈ advertised

def Advertised.Orderly (advertised : Advertised ι) : List (ServiceEvent ι) → Prop
  | [] => True
  | event :: rest => advertised.admits event ∧ (advertised.after event).Orderly rest

/-- The list and the network agree: every service that has been resolved is listed once,
with its latest info, and nothing else is. -/
structure Live (services : List (Service ι)) (advertised : Advertised ι) : Prop where
  once : (services.map Service.name).Nodup
  listed : ∀ name info, (⟨name, info⟩ : Service ι) ∈ services ↔
    advertised.lookup name = some (some info)

def Advertised.calms (advertised : Advertised ι) (event : ServiceEvent ι) : Prop :=
  match event.change with
  | .added _ | .updated none => True
  | .removed => False
  | .updated (some _) => ∃ info, advertised.lookup event.name = some (some info)

def Advertised.Calm (advertised : Advertised ι) : List (ServiceEvent ι) → Prop
  | [] => True
  | event :: rest => advertised.calms event ∧ (advertised.after event).Calm rest

@[simp] theorem names_refresh (name : String) (info : ι) (services : List (Service ι)) :
    (refresh name info services).map Service.name = services.map Service.name := by
  induction services with
  | nil => rfl
  | cons service rest ih =>
      unfold refresh
      split
      · rfl
      · rw [List.map_cons, ih, List.map_cons]

theorem refresh_unlisted {name : String} (info : ι) {services : List (Service ι)}
    (unlisted : name ∉ services.map Service.name) : refresh name info services = services := by
  induction services with
  | nil => rfl
  | cons service rest ih =>
      rw [List.map_cons, List.mem_cons, not_or] at unlisted
      rw [refresh, if_neg (Ne.symm unlisted.1), ih unlisted.2]

theorem mem_refresh {name : String} (info : ι) {services : List (Service ι)}
    (nodup : (services.map Service.name).Nodup) (listed : name ∈ services.map Service.name)
    (other : Service ι) :
    other ∈ refresh name info services ↔
      other = ⟨name, info⟩ ∨ other.name ≠ name ∧ other ∈ services := by
  induction services with
  | nil => cases listed
  | cons service rest ih =>
      rw [List.map_cons, List.nodup_cons] at nodup
      have hrest (hother : other ∈ rest) : other.name ≠ service.name := by
        intro hname
        exact nodup.1 (hname ▸ List.mem_map_of_mem hother)
      unfold refresh
      by_cases hname : service.name = name
      · subst hname
        rw [if_pos rfl, List.mem_cons, List.mem_cons]
        constructor
        · rintro (h | h)
          · exact .inl h
          · exact .inr ⟨hrest h, .inr h⟩
        · rintro (h | ⟨hne, rfl | h⟩)
          · exact .inl h
          · exact absurd rfl hne
          · exact .inr h
      · have htail : name ∈ rest.map Service.name := by
          rw [List.map_cons, List.mem_cons] at listed
          exact listed.resolve_left (Ne.symm hname)
        rw [if_neg hname, List.mem_cons, List.mem_cons, ih nodup.2 htail]
        constructor
        · rintro (rfl | h | ⟨hne, h⟩)
          · exact .inr ⟨hname, .inl rfl⟩
          · exact .inl h
          · exact .inr ⟨hne, .inr h⟩
        · rintro (h | ⟨hne, rfl | h⟩)
          · exact .inr (.inl h)
          · exact .inl rfl
          · exact .inr (.inr ⟨hne, h⟩)

theorem live_start : Live ([] : List (Service ι)) ∅ := by
  refine ⟨List.nodup_nil, fun name info => ?_⟩
  simp

theorem Live.name_iff {services : List (Service ι)} {advertised : Advertised ι}
    (live : Live services advertised) (name : String) :
    name ∈ services.map Service.name ↔ ∃ info, advertised.lookup name = some (some info) := by
  rw [List.mem_map]
  constructor
  · rintro ⟨service, hservice, rfl⟩
    exact ⟨service.info, (live.listed service.name service.info).mp hservice⟩
  · rintro ⟨info, hinfo⟩
    exact ⟨⟨name, info⟩, (live.listed name info).mpr hinfo, rfl⟩

theorem Live.unresolved {services : List (Service ι)} {advertised : Advertised ι}
    (live : Live services advertised) {name : String} (new : advertised.lookup name = none) :
    Live services (advertised.set name none) := by
  refine ⟨live.once, fun other info => ?_⟩
  rw [live.listed, Dict.lookup_set]
  by_cases hother : other = name
  · subst hother
    simp [new]
  · rw [if_neg hother]

theorem Live.resolved {services : List (Service ι)} {advertised : Advertised ι}
    (live : Live services advertised) {name : String} (new : advertised.lookup name = none)
    (info : ι) : Live (services ++ [⟨name, info⟩]) (advertised.set name (some info)) := by
  have hunlisted : name ∉ services.map Service.name := by
    rw [live.name_iff, new]
    simp
  refine ⟨?_, fun other otherInfo => ?_⟩
  · rw [List.map_append]
    exact List.concat_eq_append ▸ live.once.concat hunlisted
  · rw [List.mem_append, live.listed, Dict.lookup_set]
    by_cases hother : other = name
    · subst hother
      simp [new, eq_comm]
    · rw [if_neg hother]
      simp [hother]

theorem Live.refreshed {services : List (Service ι)} {advertised : Advertised ι}
    (live : Live services advertised) {name : String} (listed : name ∈ services.map Service.name)
    (info : ι) : Live (refresh name info services) (advertised.set name (some info)) := by
  refine ⟨?_, fun other otherInfo => ?_⟩
  · rw [names_refresh]
    exact live.once
  · rw [mem_refresh info live.once listed, live.listed, Dict.lookup_set]
    by_cases hother : other = name
    · simp [hother, eq_comm]
    · simp [hother]

variable [DecidableEq ι]

@[simp] theorem run_requireIndex {service : Service ι} {services : List (Service ι)}
    (listed : service ∈ services) : (requireIndex service).run services = .ok () services := by
  simp [requireIndex, listed]

theorem Live.next {services : List (Service ι)} {advertised : Advertised ι}
    (live : Live services advertised) {event : ServiceEvent ι}
    (admits : advertised.admits event) (calms : advertised.calms event) :
    ∃ after, (onServiceStateChange event).run services = .ok () after ∧
      Live after (advertised.after event) := by
  obtain ⟨name, change⟩ := event
  cases change with
  | added resolved =>
      have hnew : advertised.lookup name = none := AList.lookup_eq_none.mpr admits
      cases resolved with
      | none => exact ⟨services, rfl, live.unresolved hnew⟩
      | some info =>
          refine ⟨services ++ [⟨name, info⟩], ?_, live.resolved hnew info⟩
          have hmem : (⟨name, info⟩ : Service ι) ∈ services ++ [⟨name, info⟩] := by simp
          simp only [onServiceStateChange, EStateM.run_bind, EStateM.run_modify,
            run_requireIndex hmem]
  | removed => exact calms.elim
  | updated resolved =>
      cases resolved with
      | none => exact ⟨services, rfl, live⟩
      | some info =>
          have hlisted : name ∈ services.map Service.name := (live.name_iff name).mpr calms
          refine ⟨refresh name info services, ?_, live.refreshed hlisted info⟩
          have hmem : (⟨name, info⟩ : Service ι) ∈ refresh name info services :=
            (mem_refresh info live.once hlisted _).mpr (.inl rfl)
          simp only [onServiceStateChange, EStateM.run_bind, EStateM.run_modify,
            run_requireIndex hmem]

theorem Live.raises {services : List (Service ι)} {advertised : Advertised ι}
    (live : Live services advertised) {event : ServiceEvent ι}
    (breaks : ¬advertised.calms event) :
    returned ((onServiceStateChange event).run services) = false := by
  obtain ⟨name, change⟩ := event
  cases change with
  | added resolved => exact absurd trivial breaks
  | removed => rfl
  | updated resolved =>
      cases resolved with
      | none => exact absurd trivial breaks
      | some info =>
          have hunlisted : name ∉ services.map Service.name :=
            fun hmem => breaks ((live.name_iff name).mp hmem)
          have habsent : (⟨name, info⟩ : Service ι) ∉ refresh name info services := by
            rw [refresh_unlisted info hunlisted]
            exact fun hmem => hunlisted (List.mem_map_of_mem hmem)
          simp [onServiceStateChange, requireIndex, habsent, returned]

theorem live_forM_iff (events : List (ServiceEvent ι)) {services : List (Service ι)}
    {advertised : Advertised ι} (live : Live services advertised)
    (orderly : advertised.Orderly events) :
    (∃ after, (forM events onServiceStateChange).run services = .ok () after ∧
      Live after (events.foldl Advertised.after advertised)) ↔ advertised.Calm events := by
  induction events generalizing services advertised with
  | nil => exact iff_of_true ⟨services, rfl, live⟩ trivial
  | cons event rest ih =>
      rw [List.forM_cons, EStateM.run_bind, List.foldl_cons, Advertised.Calm]
      by_cases hcalms : advertised.calms event
      · obtain ⟨mid, hrun, hmid⟩ := live.next orderly.1 hcalms
        rw [hrun]
        dsimp only
        rw [ih hmid orderly.2]
        exact (and_iff_right hcalms).symm
      · have hraises := live.raises hcalms
        refine iff_of_false ?_ fun h => hcalms h.1
        rintro ⟨after, hrun, -⟩
        cases hfirst : (onServiceStateChange event).run services with
        | ok value mid =>
            rw [hfirst] at hraises
            cases hraises
        | error error mid =>
            rw [hfirst] at hrun
            cases hrun

/-- The callback takes in a sequence of events without an exception and ends with a live
list exactly if nothing is removed and every update that is resolved concerns a service
resolved before. -/
theorem services_live_iff (events : List (ServiceEvent ι))
    (orderly : Advertised.Orderly (∅ : Advertised ι) events) :
    (∃ services, (forM events onServiceStateChange).run [] = .ok () services ∧
      Live services (events.foldl Advertised.after ∅) ∧
      ∀ (selected : Nat) (service : Service ι), services[selected]? = some service →
        (events.foldl Advertised.after ∅).lookup service.name = some (some service.info)) ↔
    Advertised.Calm (∅ : Advertised ι) events := by
  rw [← live_forM_iff events live_start orderly]
  constructor
  · rintro ⟨services, hrun, hlive, -⟩
    exact ⟨services, hrun, hlive⟩
  · rintro ⟨services, hrun, hlive⟩
    refine ⟨services, hrun, hlive, fun selected service hselected => ?_⟩
    exact (hlive.listed service.name service.info).mp (List.mem_of_getElem? hselected)

/-! Two services, one resolved again later; and one that goes away. -/

def resolvedAgain : List (ServiceEvent Nat) :=
  [⟨"10.0.0.1_join", .added (some 1)⟩, ⟨"10.0.0.2_join", .added none⟩,
    ⟨"10.0.0.1_join", .updated (some 2)⟩]

theorem services_live_resolvedAgain :
    ∃ services, (forM resolvedAgain onServiceStateChange).run [] = .ok () services ∧
      Live services (resolvedAgain.foldl Advertised.after ∅) := by
  have horderly : Advertised.Orderly (∅ : Advertised Nat) resolvedAgain := by
    refine ⟨?_, ?_, ?_, trivial⟩
    all_goals
      unfold Advertised.admits
      decide +kernel
  have hcalm : Advertised.Calm (∅ : Advertised Nat) resolvedAgain :=
    ⟨trivial, trivial, ⟨1, rfl⟩, trivial⟩
  obtain ⟨services, hrun, hlive, -⟩ := (services_live_iff resolvedAgain horderly).mpr hcalm
  exact ⟨services, hrun, hlive⟩

def comesAndGoes : List (ServiceEvent Nat) :=
  [⟨"10.0.0.1_join", .added (some 1)⟩, ⟨"10.0.0.1_join", .removed⟩]

theorem services_live_fails :
    ¬ ∀ events : List (ServiceEvent Nat), Advertised.Orderly (∅ : Advertised Nat) events →
      ∃ services, (forM events onServiceStateChange).run [] = .ok () services ∧
        Live services (events.foldl Advertised.after ∅) := by
  intro claimed
  have horderly : Advertised.Orderly (∅ : Advertised Nat) comesAndGoes := by
    refine ⟨?_, ?_, trivial⟩
    all_goals
      unfold Advertised.admits
      decide +kernel
  obtain ⟨services, hrun, -⟩ := claimed comesAndGoes horderly
  have hraised : returned ((forM comesAndGoes onServiceStateChange).run []) = false := by
    decide +kernel
  rw [hrun] at hraised
  cases hraised

end WgBp.Discovery
