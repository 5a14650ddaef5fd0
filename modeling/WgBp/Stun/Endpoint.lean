import WgBp.Library.Procedure

/-! How `State` finds out its public endpoint: custom STUN servers first, then the public
ones. The state is written while an answer is still being read. -/
namespace WgBp.Stun

open WgBp.Library.Procedure

structure Endpoint where
  publicIp : Option String
  publicPort : Option Nat
  deriving DecidableEq

/-- What comes of a request to a custom server. A reply is a dictionary in which either key
may be missing. -/
inductive CustomReply where
  | timeout
  | undecodable
  | response (ip : Option String) (port : Option Nat)
  deriving DecidableEq

inductive MappedAddr where
  | raised
  | mapped (ip : Option String) (port : Option Nat)
  deriving DecidableEq

inductive Failure where
  | timeout
  | decodeError
  | keyError
  | exit
  deriving DecidableEq

abbrev Update := EStateM Failure Endpoint

def recv : CustomReply → Update (Option String × Option Nat)
  | .timeout => throw .timeout
  | .undecodable => throw .decodeError
  | .response ip port => pure (ip, port)

def subscript {α : Type} : Option α → Update α
  | none => throw .keyError
  | some value => pure value

/-- A forwarded port of zero counts as not set. -/
def forwarded (forwardedPort : Option Nat) : Option Nat := forwardedPort.filter (0 < ·)

def tryServer (forwardedPort : Option Nat) (reply : CustomReply) : Update Unit := do
  let response ← recv reply
  let ip ← subscript response.1
  modify fun endpoint => { endpoint with publicIp := some ip }
  match forwarded forwardedPort with
  | some port => modify fun endpoint => { endpoint with publicPort := some port }
  | none =>
    let port ← subscript response.2
    modify fun endpoint => { endpoint with publicPort := some port }

def tryServers (forwardedPort : Option Nat) : List CustomReply → Update Bool
  | [] => pure false
  | reply :: rest =>
    tryCatch (do tryServer forwardedPort reply; pure true) fun _ => tryServers forwardedPort rest

def getPublicIp : List MappedAddr → Option (String × Nat)
  | [] => none
  | .mapped (some ip) (some port) :: _ => some (ip, port)
  | _ :: rest => getPublicIp rest

/-- `_update_public_ip`. Without an answer `None` is unpacked, and the process exits. -/
def updatePublicIp (forwardedPort : Option Nat) (customs : List CustomReply)
    (publics : List MappedAddr) : Update Unit := do
  if ← tryServers forwardedPort customs then pure ()
  else
    match getPublicIp publics with
    | none => throw .exit
    | some (ip, port) =>
      set (⟨some ip, some port⟩ : Endpoint)
      match forwarded forwardedPort with
      | some port => modify fun endpoint => { endpoint with publicPort := some port }
      | none => pure ()

inductive Answer where
  | custom (reply : CustomReply)
  | mapped (addr : MappedAddr)

def answers (customs : List CustomReply) (publics : List MappedAddr) : List Answer :=
  customs.map .custom ++ publics.map .mapped

def CustomReply.usable (forwardedPort : Option Nat) : CustomReply → Option (String × Nat)
  | .response (some ip) port => ((forwarded forwardedPort).or port).map fun port => (ip, port)
  | _ => none

def MappedAddr.usable (forwardedPort : Option Nat) : MappedAddr → Option (String × Nat)
  | .mapped (some ip) (some port) => some (ip, (forwarded forwardedPort).getD port)
  | _ => none

/-- The address and the port an answer is good for; a port that is forwarded stands for
the one in the answer, which a custom server may then leave out. -/
def Answer.usable (forwardedPort : Option Nat) : Answer → Option (String × Nat)
  | .custom reply => reply.usable forwardedPort
  | .mapped addr => addr.usable forwardedPort

variable {forwardedPort : Option Nat}

theorem usable_tryServer {reply : CustomReply} {ip : String} {port : Nat}
    (usable : reply.usable forwardedPort = some (ip, port)) (endpoint : Endpoint) :
    (tryServer forwardedPort reply).run endpoint = .ok () ⟨some ip, some port⟩ := by
  cases reply with
  | timeout => cases usable
  | undecodable => cases usable
  | response ip' port' =>
      cases ip' with
      | none => cases usable
      | some ip' =>
          unfold tryServer
          unfold CustomReply.usable at usable
          cases hforwarded : forwarded forwardedPort with
          | some given =>
              rw [hforwarded] at usable
              cases usable
              rfl
          | none =>
              rw [hforwarded] at usable
              cases port' with
              | none => cases usable
              | some port' =>
                  cases usable
                  rfl

theorem unusable_tryServer {reply : CustomReply} (unusable : reply.usable forwardedPort = none)
    (endpoint : Endpoint) :
    ∃ error after, (tryServer forwardedPort reply).run endpoint = .error error after := by
  cases reply with
  | timeout => exact ⟨_, _, rfl⟩
  | undecodable => exact ⟨_, _, rfl⟩
  | response ip port =>
      cases ip with
      | none => exact ⟨_, _, rfl⟩
      | some ip =>
          unfold tryServer
          unfold CustomReply.usable at unusable
          cases hforwarded : forwarded forwardedPort with
          | some given =>
              rw [hforwarded] at unusable
              cases unusable
          | none =>
              rw [hforwarded] at unusable
              cases port with
              | none => exact ⟨_, _, rfl⟩
              | some port => cases unusable

/-- The first usable reply ends the loop; what earlier ones have written is overwritten. -/
theorem tryServers_usable {customs : List CustomReply} {ip : String} {port : Nat}
    (usable : customs.findSome? (CustomReply.usable forwardedPort) = some (ip, port))
    (endpoint : Endpoint) :
    (tryServers forwardedPort customs).run endpoint = .ok true ⟨some ip, some port⟩ := by
  induction customs generalizing endpoint with
  | nil => cases usable
  | cons reply rest ih =>
      rw [List.findSome?_cons] at usable
      rw [tryServers, run_tryCatch, EStateM.run_bind]
      cases hreply : reply.usable forwardedPort with
      | some found =>
          rw [hreply] at usable
          cases usable
          rw [usable_tryServer hreply]
          rfl
      | none =>
          rw [hreply] at usable
          obtain ⟨error, after, hrun⟩ := unusable_tryServer hreply endpoint
          rw [hrun]
          exact ih usable after

theorem tryServers_unusable {customs : List CustomReply}
    (unusable : customs.findSome? (CustomReply.usable forwardedPort) = none)
    (endpoint : Endpoint) :
    ∃ after, (tryServers forwardedPort customs).run endpoint = .ok false after := by
  induction customs generalizing endpoint with
  | nil => exact ⟨endpoint, rfl⟩
  | cons reply rest ih =>
      rw [List.findSome?_cons] at unusable
      cases hreply : reply.usable forwardedPort with
      | some found =>
          rw [hreply] at unusable
          cases unusable
      | none =>
          rw [hreply] at unusable
          obtain ⟨error, after, hrun⟩ := unusable_tryServer hreply endpoint
          rw [tryServers, run_tryCatch, EStateM.run_bind, hrun]
          exact ih unusable after

theorem getPublicIp_usable (publics : List MappedAddr) :
    publics.findSome? (MappedAddr.usable forwardedPort) =
      (getPublicIp publics).map fun found =>
        (found.1, (forwarded forwardedPort).getD found.2) := by
  induction publics with
  | nil => rfl
  | cons addr rest ih =>
      rw [List.findSome?_cons]
      cases addr with
      | raised => exact ih
      | mapped ip port =>
          cases ip with
          | none => exact ih
          | some ip =>
              cases port with
              | none => exact ih
              | some port => rfl

theorem findSome?_answers (customs : List CustomReply) (publics : List MappedAddr) :
    (answers customs publics).findSome? (Answer.usable forwardedPort) =
      (customs.findSome? (CustomReply.usable forwardedPort)).or
        (publics.findSome? (MappedAddr.usable forwardedPort)) := by
  rw [answers, List.findSome?_append, List.findSome?_map, List.findSome?_map]
  rfl

theorem updatePublicIp_usable {customs : List CustomReply} {publics : List MappedAddr}
    {ip : String} {port : Nat}
    (usable : (answers customs publics).findSome? (Answer.usable forwardedPort) = some (ip, port))
    (endpoint : Endpoint) :
    (updatePublicIp forwardedPort customs publics).run endpoint =
      .ok () ⟨some ip, some port⟩ := by
  rw [findSome?_answers] at usable
  unfold updatePublicIp
  rw [EStateM.run_bind]
  cases hcustoms : customs.findSome? (CustomReply.usable forwardedPort) with
  | some found =>
      rw [hcustoms] at usable
      cases usable
      rw [tryServers_usable hcustoms]
      rfl
  | none =>
      obtain ⟨after, hrun⟩ := tryServers_unusable hcustoms endpoint
      rw [hcustoms, Option.none_or, getPublicIp_usable] at usable
      obtain ⟨found, hfound, heq⟩ := Option.map_eq_some_iff.mp usable
      rw [hrun, hfound]
      cases heq
      cases hforwarded : forwarded forwardedPort <;> rfl

theorem updatePublicIp_unusable {customs : List CustomReply} {publics : List MappedAddr}
    (unusable : (answers customs publics).findSome? (Answer.usable forwardedPort) = none)
    (endpoint : Endpoint) :
    ∃ after, (updatePublicIp forwardedPort customs publics).run endpoint = .error .exit after := by
  rw [findSome?_answers, Option.or_eq_none_iff, getPublicIp_usable, Option.map_eq_none_iff]
    at unusable
  obtain ⟨after, hrun⟩ := tryServers_unusable unusable.1 endpoint
  refine ⟨after, ?_⟩
  unfold updatePublicIp
  rw [EStateM.run_bind, hrun, unusable.2]
  rfl

/-- Either no answer is usable and the process exits, or the endpoint is the one that the
first usable answer is good for. -/
theorem update_public_ip_first_usable (forwardedPort : Option Nat) (customs : List CustomReply)
    (publics : List MappedAddr) (endpoint : Endpoint) :
    ((∀ answer ∈ answers customs publics, answer.usable forwardedPort = none) ∧
      ∃ after, (updatePublicIp forwardedPort customs publics).run endpoint =
        .error .exit after) ∨
    ∃ earlier answer later ip port,
      answers customs publics = earlier ++ answer :: later ∧
      (∀ other ∈ earlier, other.usable forwardedPort = none) ∧
      answer.usable forwardedPort = some (ip, port) ∧
      (updatePublicIp forwardedPort customs publics).run endpoint =
        .ok () ⟨some ip, some port⟩ := by
  cases hfirst : (answers customs publics).findSome? (Answer.usable forwardedPort) with
  | none =>
      have hunusable := List.findSome?_eq_none_iff.mp hfirst
      exact .inl ⟨hunusable, updatePublicIp_unusable hfirst endpoint⟩
  | some found =>
      obtain ⟨ip, port⟩ := found
      obtain ⟨earlier, answer, later, hsplit, husable, hearlier⟩ :=
        List.findSome?_eq_some_iff.mp hfirst
      exact .inr ⟨earlier, answer, later, ip, port, hsplit, hearlier, husable,
        updatePublicIp_usable hfirst endpoint⟩

end WgBp.Stun
