import Genoh.Json

/-!
# Master intrusion detection

The rules of `master/ids_engine.py`. The message rate of the last second and the findings of the
statistical detector are read by the caller and passed in; the security log is seen through the
alerts handed to it. `time.time()` is passed in as `now`, in whole seconds.
-/
namespace Genoh.MasterIds

open Genoh.Json Genoh.Strings

inductive AlertSeverity where
  | critical | high | medium | low
  deriving DecidableEq, Repr

def AlertSeverity.value : AlertSeverity → Str
  | .critical => str "CRITICAL"
  | .high => str "HIGH"
  | .medium => str "MEDIUM"
  | .low => str "LOW"

inductive SecurityAction where
  | blocked | logged | rateLimited
  deriving DecidableEq, Repr

def SecurityAction.value : SecurityAction → Str
  | .blocked => str "BLOCKED"
  | .logged => str "LOGGED"
  | .rateLimited => str "RATE_LIMITED"

inductive IDSRuleID where
  | ids001 | ids002 | ids003 | ids004 | ids006 | ids007 | ids009 | ids010
  deriving DecidableEq, Repr

def IDSRuleID.value : IDSRuleID → Str
  | .ids001 => str "IDS-001"
  | .ids002 => str "IDS-002"
  | .ids003 => str "IDS-003"
  | .ids004 => str "IDS-004"
  | .ids006 => str "IDS-006"
  | .ids007 => str "IDS-007"
  | .ids009 => str "IDS-009"
  | .ids010 => str "IDS-010"

structure IDSAlert where
  alertId : Str
  ruleId : Str
  severity : Str
  sourceNode : Str
  description : Str
  evidence : List (Str × Value)
  actionTaken : Str

def decimal (n : Nat) : Str := (Nat.toDigits 10 n).map ofChar

/-- `{n:05d}`. -/
def fiveDigits (n : Nat) : Str := List.replicate (5 - (decimal n).length) (ofChar '0') ++ decimal n

/-- The `sensor_per_node` limits of `RATE_LIMITS`. -/
def warningLimit : Nat := 50
def blockLimit : Nat := 100

/-- `MAX_PAYLOAD_SIZE`. -/
def maxPayloadSize : Nat := 4096

structure IDSEngine where
  alertCounter : Nat
  logged : List IDSAlert

namespace IDSEngine

def init : IDSEngine := ⟨0, []⟩

/-- What a rule says about a message. -/
structure Finding where
  ruleId : IDSRuleID
  severity : AlertSeverity
  description : Str
  evidence : List (Str × Value)
  action : SecurityAction

/-- `_create_alert`. -/
def createAlert (ids : IDSEngine) (sourceNode : Str) (finding : Finding) (now : Nat) :
    IDSAlert × IDSEngine :=
  let ids := { ids with alertCounter := ids.alertCounter + 1 }
  ({ alertId := str "IDS-" ++ decimal now ++ str "-" ++ fiveDigits ids.alertCounter
     ruleId := finding.ruleId.value
     severity := finding.severity.value
     sourceNode := sourceNode
     description := finding.description
     evidence := finding.evidence
     actionTaken := finding.action.value }, ids)

/-- One alert for each finding, in order. -/
def createAlerts (ids : IDSEngine) (sourceNode : Str) (now : Nat) :
    List Finding → List IDSAlert × IDSEngine
  | [] => ([], ids)
  | finding :: findings =>
    let (alert, ids) := ids.createAlert sourceNode finding now
    let (alerts, ids) := ids.createAlerts sourceNode now findings
    (alert :: alerts, ids)

/-- `_log_alert` for each alert. -/
def logAlerts (ids : IDSEngine) (alerts : List IDSAlert) : IDSEngine :=
  { ids with logged := ids.logged ++ alerts }

structure Message where
  sourceNode : Str
  keyExpr : Str
  payloadSize : Nat
  macValid : Bool := true
  freshnessValid : Bool := true
  crcValid : Bool := true

/-- A float without a fraction. -/
def wholeFloat (n : Nat) : Value :=
  let literal := Nat.toDigits 10 n ++ ['.', '0']
  if valid : isFloat literal = true then .float ⟨literal, .inr valid⟩ else .null

/-- The finding of a rule that holds. -/
def rule (holds : Bool) (finding : Finding) : List Finding := if holds then [finding] else []

/-- The rate is that of a window of one second, a whole number. -/
def rateFindings (rate : Nat) : List Finding :=
  if rate > blockLimit then
    [⟨.ids002, .high, str "Message rate exceeded block threshold: " ++ decimal rate ++ str " msg/s",
      [(str "rate", wholeFloat rate), (str "threshold", .int blockLimit)], .blocked⟩]
  else if rate > warningLimit then
    [⟨.ids002, .medium,
      str "Message rate exceeded warning threshold: " ++ decimal rate ++ str " msg/s",
      [(str "rate", wholeFloat rate), (str "threshold", .int warningLimit)], .rateLimited⟩]
  else []

/-- The rules of `check_message` in the order in which it tries them. -/
def findings (message : Message) (rate : Nat) (anomalies : List Str) : List Finding :=
  let keyEvidence := [(str "key_expr", Value.str message.keyExpr)]
  rule (!message.macValid)
    ⟨.ids003, .critical, str "MAC verification failure", keyEvidence, .blocked⟩ ++
  rule (!message.freshnessValid && message.macValid)
    ⟨.ids004, .high, str "Replay detected (freshness check failed)", keyEvidence, .blocked⟩ ++
  rateFindings rate ++
  rule (message.payloadSize > maxPayloadSize)
    ⟨.ids006, .medium, str "Abnormal payload size: " ++ decimal message.payloadSize ++ str "B > " ++
      decimal maxPayloadSize ++ str "B", [(str "payload_size", .int message.payloadSize)], .blocked⟩ ++
  rule (contains message.keyExpr (str "master/") && !startsWith message.sourceNode (str "master"))
    ⟨.ids007, .critical, str "Slave publishing to master key expression: " ++ message.keyExpr,
      keyEvidence, .blocked⟩ ++
  rule (!message.crcValid && !message.macValid)
    ⟨.ids010, .critical, str "CRC and MAC simultaneous failure", keyEvidence, .blocked⟩ ++
  anomalies.map fun anomaly => ⟨.ids009, .low, anomaly, [], .logged⟩

/-- `check_message`. -/
def checkMessage (ids : IDSEngine) (message : Message) (rate : Nat) (anomalies : List Str)
    (now : Nat) : List IDSAlert × IDSEngine :=
  let (alerts, ids) := ids.createAlerts message.sourceNode now (findings message rate anomalies)
  (alerts, ids.logAlerts alerts)

end IDSEngine

/-- `_key_expr_matches`. -/
def keyExprMatches (keyExpr pattern : Str) : Bool :=
  if pattern = keyExpr then true
  else if endsWith pattern (str "/**") then startsWith keyExpr (dropEnd pattern 3)
  else if endsWith pattern (str "/*") then
    let stem := dropEnd pattern 2
    if segments keyExpr = segments stem + 1 then startsWith keyExpr (stem ++ [slash]) else false
  else false

/-- `check_acl`. -/
def IDSEngine.checkAcl (ids : IDSEngine) (sourceNode keyExpr : Str) (allowedKeyExprs : List Str)
    (now : Nat) : List IDSAlert × IDSEngine :=
  let authorized := allowedKeyExprs.any fun pattern => keyExprMatches keyExpr pattern
  if authorized then ([], ids)
  else
    let (alerts, ids) := ids.createAlerts sourceNode now [
      ⟨.ids001, .critical, str "Unauthorized publish to " ++ keyExpr,
        [(str "key_expr", .str keyExpr), (str "allowed", .list (allowedKeyExprs.map .str))],
        .blocked⟩]
    (alerts, ids.logAlerts alerts)

/-! ## Alerts -/

namespace IDSEngine

/-- The alerts carry the rules of the findings. -/
theorem createAlerts_ruleIds (ids : IDSEngine) (sourceNode : Str) (now : Nat)
    (findings : List Finding) :
    (ids.createAlerts sourceNode now findings).1.map IDSAlert.ruleId =
      findings.map fun finding => finding.ruleId.value := by
  induction findings generalizing ids with
  | nil => rfl
  | cons finding findings ih =>
    rw [createAlerts, List.map_cons, List.map_cons, ih]
    rfl

/-- A rule has an alert when it has a finding. -/
theorem exists_alert_iff (ids : IDSEngine) (message : Message) (rate : Nat) (anomalies : List Str)
    (now : Nat) (ruleId : IDSRuleID) :
    (∃ alert ∈ (ids.checkMessage message rate anomalies now).1, alert.ruleId = ruleId.value) ↔
      ∃ finding ∈ findings message rate anomalies, finding.ruleId = ruleId := by
  have hvalue : ∀ a b : IDSRuleID, a.value = b.value ↔ a = b := by
    intro a b
    cases a <;> cases b <;> decide
  have hmap := createAlerts_ruleIds ids message.sourceNode now (findings message rate anomalies)
  calc
    _ ↔ ruleId.value ∈ (ids.checkMessage message rate anomalies now).1.map IDSAlert.ruleId := by
      rw [List.mem_map]
    _ ↔ ruleId.value ∈ (findings message rate anomalies).map fun finding => finding.ruleId.value := by
      rw [← hmap]
      rfl
    _ ↔ _ := by simp only [List.mem_map, hvalue]

@[simp] theorem mem_rule (holds : Bool) (finding finding' : Finding) :
    finding' ∈ rule holds finding ↔ holds = true ∧ finding' = finding := by
  cases holds <;> simp [rule]

theorem mem_rateFindings {rate : Nat} {finding : Finding} (h : finding ∈ rateFindings rate) :
    finding.ruleId = .ids002 := by
  rw [rateFindings] at h
  split at h
  · rw [List.mem_singleton.mp h]
  · split at h
    · rw [List.mem_singleton.mp h]
    · exact absurd h List.not_mem_nil

/-- The rule about slaves that publish to a master key looks at the node and the key only. -/
theorem ids007_iff (message : Message) (rate : Nat) (anomalies : List Str) :
    (∃ finding ∈ findings message rate anomalies, finding.ruleId = .ids007) ↔
      str "master/" <:+: message.keyExpr ∧ ¬ str "master" <+: message.sourceNode := by
  have hrate : ¬ ∃ finding ∈ rateFindings rate, finding.ruleId = .ids007 := by
    rintro ⟨finding, hmem, heq⟩
    rw [mem_rateFindings hmem] at heq
    exact absurd heq (by decide)
  simp only [findings, List.mem_append, or_and_right, exists_or, hrate, mem_rule, and_assoc,
    exists_eq_left, exists_and_left]
  simp

end IDSEngine

end Genoh.MasterIds
