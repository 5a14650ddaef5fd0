import WgBp.Gossip.Effect

/-! Agreement by version: what the handler relies on when it drops a message of
its own version. It holds as long as no two writes raise to one version. -/
namespace WgBp.Gossip

open WgBp.Library WgBp.Library.Procedure WgBp.Library.Transition WgBp.Library.Versioned
open WgBp.Model

def Agree (left right : Process) : Prop :=
  left.phase ≠ .stopped → right.phase ≠ .stopped → left.node.sync.version ≠ 0 →
    left.node.sync.version = right.node.sync.version →
    left.node.sync.peers = right.node.sync.peers

instance (left right : Process) : Decidable (Agree left right) :=
  inferInstanceAs (Decidable (_ → _ → _ → _ → _))

def Agreed (network : Network) : Prop :=
  ∀ left ∈ network.processes, ∀ right ∈ network.processes, Agree left right

instance (network : Network) : Decidable (Agreed network) :=
  inferInstanceAs (Decidable (∀ left ∈ _, ∀ right ∈ _, Agree left right))

/-- A write raises to a version that no live process and no message carries yet. -/
def raisesFresh (network : Network) (label : Label) : Bool :=
  match raiser network label with
  | some process => network.pairs.all fun pair => pair.1 ≠ process.node.sync.version + 1
  | none => true

def coordinated (network : Network) (label : Label) : Bool :=
  raisesFresh network label && (staleNotice network label).isNone

theorem fresh_of_raises {network : Network} {label : Label} {process : Process}
    (fresh : raisesFresh network label = true) (raised : raiser network label = some process) :
    Fresh network.held (process.node.sync.version + 1) := by
  intro pair hpair
  unfold raisesFresh at fresh
  rw [raised] at fresh
  simpa using List.all_eq_true.mp fresh pair hpair

theorem agreeing_next {network after : Network} {label : Label} (sane : Sane network)
    (agreeing : Agreeing network.held) (ok : coordinated network label = true)
    (step : next network label = some after) : Agreeing after.held := by
  obtain ⟨hfresh, hnotice⟩ := (Bool.and_eq_true _ _).mp ok
  cases effect_of_next sane step with
  | copied sub => exact agreeing.copy sub
  | started _ _ sub => exact agreeing.start sub
  | wrote _ _ raised _ sub => exact agreeing.write (fresh_of_raises hfresh raised) sub
  | stale notice _ _ =>
      rw [notice] at hnotice
      cases hnotice

theorem agreed_of_agreeing {network : Network} (agreeing : Agreeing network.held) :
    Agreed network := by
  intro left hleft right hright hleftAlive hrightAlive hzero hequal
  refine agreeing left.node.sync.version _ _ hzero (process_held hleft hleftAlive) ?_
  rw [hequal]
  exact process_held hright hrightAlive

theorem agreeing_create (config : Config) : Agreeing (Network.create config).held := by
  intro version left right hzero hleft
  rcases mem_held.mp hleft with ⟨process, hmem, _, hpair⟩ | ⟨packet, hmem, _⟩
  · rw [List.mem_singleton.mp hmem] at hpair
    exact absurd (congrArg Prod.fst hpair).symm hzero
  · cases hmem

theorem gossip_agreement (config : Config) (network : Network)
    (run : Run next (fun network label => coordinated network label = true)
      (Network.create config) network) :
    Agreed network := by
  refine agreed_of_agreeing (Run.invariant (fun network => Agreeing network.held)
    (agreeing_create config) ?_ run)
  intro network label after hrun hagreeing hok hnext
  exact agreeing_next ((Sane.create config).run hrun) hagreeing hok hnext

/-! A network of two onboarded nodes, and what two admissions at once do to it. -/

def nodeA : Config := ⟨"10.0.0.1", "ka", "198.51.100.1", 51820, 6888⟩
def nodeB : Config := ⟨"10.0.0.2", "kb", "198.51.100.2", 51820, 6888⟩
def nodeC : Config := ⟨"10.0.0.3", "kc", "198.51.100.3", 51820, 6888⟩
def nodeD : Config := ⟨"10.0.0.4", "kd", "198.51.100.4", 51820, 6888⟩
def nodeE : Config := ⟨"10.0.0.5", "ke", "198.51.100.5", 51820, 6888⟩

def Network.versions (network : Network) : List Nat :=
  network.processes.map fun process => process.node.sync.version

def scenario (labels : List Label) : Network :=
  (replay next (fun _ _ => true) (Network.create nodeA) labels).getD (Network.create nodeA)

def onboarding : List Label :=
  [.welcome 0 nodeB, .join 0, .heartbeat 1 nodeA.ip, .send 1 0 (some 0) false, .deliver 0,
    .send 0 0 (some 1) false, .deliver 1]

theorem gossip_agreement_onboarding :
    ∃ network, network.versions = [2, 2] ∧ Agreed network := by
  have hreplay : (replay next coordinated (Network.create nodeA) onboarding).any
      (fun network => network.versions = [2, 2]) = true := by decide +kernel
  obtain ⟨network, hrun, hversions⟩ := reached_of_replay (fun _ _ h => h) hreplay
  exact ⟨network, of_decide_eq_true hversions, gossip_agreement nodeA network hrun⟩

theorem gossip_agreement_fails :
    ¬ ∀ (config : Config) (network : Network),
      Run next always (Network.create config) network → Agreed network := by
  intro claimed
  have hreplay : (replay next (fun _ _ => true) (Network.create nodeA)
      (onboarding ++ [.welcome 0 nodeC, .welcome 1 nodeD])).any
      (fun network => ¬ Agreed network) = true := by decide +kernel
  obtain ⟨network, hrun, hfound⟩ := reached_of_replay (fun _ _ _ => trivial) hreplay
  exact of_decide_eq_true hfound (claimed nodeA network hrun)

end WgBp.Gossip
