import WgBp.Library.JsonValue
import WgBp.Model.Reconcile

/-! The dictionaries that the modules hand to `json.dumps`, and what they find in the
dictionaries that `json.loads` gives back. -/
namespace WgBp.Model

open WgBp.Library WgBp.Library.Json

def SyncPort.entry : SyncPort → List (String × Value)
  | .missing => []
  | .null => [("sync_port", .null)]
  | .port number => [("sync_port", .number number)]

/-- The `sync_port` stands before the allowed IPs, or behind them where it was added
later. -/
def PeerRecord.json (late : Bool) (record : PeerRecord) : Value :=
  let allowedIps := [("allowed_ips", Value.list (record.allowedIps.map .text))]
  .object ([("virtual_ip", .text record.virtualIp), ("public_key", .text record.publicKey),
    ("endpoint_ip", .text record.endpointIp),
    ("endpoint_port", .number record.endpointPort)] ++
    if late then allowedIps ++ record.syncPort.entry else record.syncPort.entry ++ allowedIps)

def SyncPort.ofEntry : Option Value → Option SyncPort
  | none => some .missing
  | some .null => some .null
  | some value => value.asNat.map .port

def PeerRecord.ofJson (value : Value) : Option PeerRecord := do
  let virtualIp ← (← value.get "virtual_ip").asText
  let publicKey ← (← value.get "public_key").asText
  let endpointIp ← (← value.get "endpoint_ip").asText
  let endpointPort ← (← value.get "endpoint_port").asNat
  let syncPort ← SyncPort.ofEntry (value.get "sync_port")
  let allowedIps ← (← value.get "allowed_ips").asTexts
  pure ⟨virtualIp, publicKey, endpointIp, endpointPort, syncPort, allowedIps⟩

@[simp] theorem PeerRecord.ofJson_json (late : Bool) (record : PeerRecord) :
    PeerRecord.ofJson (record.json late) = some record := by
  obtain ⟨virtualIp, publicKey, endpointIp, endpointPort, syncPort, allowedIps⟩ := record
  have htexts := asTexts_texts allowedIps
  cases late <;> cases syncPort <;>
    simp [PeerRecord.json, PeerRecord.ofJson, SyncPort.entry, SyncPort.ofEntry, Value.get,
      Value.asText, Value.asNat, htexts, List.lookup_cons]

/-- `late` tells of which records the `sync_port` was added later. -/
def PeerMap.json (late : Ip → Bool) (peers : PeerMap) : Value :=
  .object (peers.entries.map fun entry => (entry.1, entry.2.json (late entry.1)))

def PeerMap.ofJson : Value → Option PeerMap
  | .object entries => entries.foldlM (fun peers entry =>
      (PeerRecord.ofJson entry.2).map fun record => peers.set entry.1 record) ∅
  | _ => none

@[simp] theorem PeerMap.ofJson_json (late : Ip → Bool) (peers : PeerMap) :
    PeerMap.ofJson (peers.json late) = some peers := by
  have hfold (entries : List (Σ _ : Ip, PeerRecord)) : ∀ built : PeerMap,
      (entries.map fun entry => (entry.1, entry.2.json (late entry.1))).foldlM (fun peers entry =>
        (PeerRecord.ofJson entry.2).map fun record => peers.set entry.1 record) built =
      some (entries.foldl (fun built entry => built.set entry.1 entry.2) built) := by
    induction entries with
    | nil => exact fun built => rfl
    | cons entry rest ih =>
        intro built
        rw [List.map_cons, List.foldlM_cons, PeerRecord.ofJson_json]
        exact ih _
  exact (hfold peers.entries ∅).trans (congrArg some (Dict.foldl_set_entries peers))

def portText (port : Nat) : List Char := Nat.toDigits 10 port

def addressText (ip : Ip) (port : Nat) : String := .ofList (ip.toList ++ ':' :: portText port)

def portOf (text : List Char) : Option Nat :=
  if text ≠ [] ∧ text.all Char.isDigit then some (Nat.ofDigitChars 10 text 0) else none

theorem portText_digits (port : Nat) : ∀ c ∈ portText port, c.isDigit = true :=
  fun _ hc => Nat.isDigit_of_mem_toDigits (by decide) (by decide) hc

@[simp] theorem portOf_portText (port : Nat) : portOf (portText port) = some port := by
  have hall : (portText port).all Char.isDigit = true :=
    List.all_eq_true.mpr (portText_digits port)
  unfold portOf
  rw [if_pos ⟨Nat.toDigits_ne_nil, hall⟩, portText, Nat.ofDigitChars_ten_toDigits]

theorem colon_not_mem_portText (port : Nat) : ':' ∉ portText port := by
  intro hmem
  have hdigit := portText_digits port ':' hmem
  cases hdigit

/-- `from_ip, from_port = text.split(":")`: an address with a colon of its own has too
many parts. -/
def splitAddress (text : String) : Option (Ip × Nat) :=
  match text.toList.splitOn ':' with
  | [ip, port] => (portOf port).map fun number => (.ofList ip, number)
  | _ => none

theorem splitOn_addressText (ip : Ip) (port : Nat) :
    (addressText ip port).toList.splitOn ':' = ip.toList.splitOn ':' ++ [portText port] := by
  rw [addressText, String.toList_ofList, List.splitOn_append_cons_self,
    List.splitOn_eq_singleton (colon_not_mem_portText port)]

@[simp] theorem splitAddress_addressText (ip : Ip) (port : Nat) :
    splitAddress (addressText ip port) =
      if ':' ∈ ip.toList then none else some (ip, port) := by
  unfold splitAddress
  rw [splitOn_addressText]
  by_cases hcolon : ':' ∈ ip.toList
  · rw [if_pos hcolon]
    obtain ⟨before, after, hip⟩ := List.append_of_mem hcolon
    rw [hip, List.splitOn_append_cons_self]
    obtain ⟨first, rest, hfirst⟩ := List.exists_cons_of_ne_nil (List.splitOn_ne_nil ':' before)
    obtain ⟨second, last, hsecond⟩ := List.exists_cons_of_ne_nil (List.splitOn_ne_nil ':' after)
    rw [hfirst, hsecond]
    cases rest <;> cases last <;> simp
  · rw [if_neg hcolon, List.splitOn_eq_singleton hcolon]
    simp

theorem addressText_inj {ip ip' : Ip} {port port' : Nat}
    (same : addressText ip port = addressText ip' port') : ip = ip' ∧ port = port' := by
  have hparts : (addressText ip port).toList.splitOn ':' =
      (addressText ip' port').toList.splitOn ':' := by rw [same]
  rw [splitOn_addressText, splitOn_addressText] at hparts
  obtain ⟨hip, hport⟩ := List.append_inj' hparts rfl
  have hchars := congrArg (List.intercalate [':']) hip
  rw [List.intercalate_splitOn, List.intercalate_splitOn] at hchars
  have hnumber := congrArg portOf (List.cons.inj hport).1
  rw [portOf_portText, portOf_portText] at hnumber
  exact ⟨String.toList_injective hchars, Option.some.inj hnumber⟩

end WgBp.Model
