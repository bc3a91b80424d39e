import Genoh.MasterLogs
import Genoh.Sha256

/-!
# Master security log

`master/security_log.py` with the events of `common/security_types.py`. The fields of an event are
JSON documents, as reading a file may put any into them. The time of an event is passed in.
-/
namespace Genoh.MasterSecurityLog

open Genoh.Bytes Genoh.Json Genoh.Strings Genoh.TextFile Genoh.MasterLogs

/-! ## Events -/

structure SecurityEvent where
  seq : Value
  severity : Value
  category : Value
  event : Value
  sourceNode : Value
  sourceIp : Value
  targetKeyExpr : Value
  action : Value
  idsRule : Value
  chainHash : Value
  details : Value
  tsMs : Value

def SecurityEvent.toDict (e : SecurityEvent) : Members := [
  (str "seq", e.seq),
  (str "ts_ms", e.tsMs),
  (str "severity", e.severity),
  (str "category", e.category),
  (str "event", e.event),
  (str "source", .dict [(str "node_id", e.sourceNode), (str "ip", e.sourceIp)]),
  (str "target", .dict [(str "key_expr", e.targetKeyExpr)]),
  (str "action", e.action),
  (str "ids_rule", e.idsRule),
  (str "chain_hash", e.chainHash),
  (str "details", e.details)]

/-- `SecurityEvent.from_dict`; a missing time is the time of reading. -/
def fromDict (nowMs : Nat) (data : Value) : Except LogError SecurityEvent := do
  let data ← asDict data
  let seq ← item data (str "seq")
  let severity ← item data (str "severity")
  let event ← item data (str "event")
  let source ← asDict (getOr data (str "source") (.dict []))
  let target ← asDict (getOr data (str "target") (.dict []))
  return {
    seq := seq
    severity := severity
    category := getOr data (str "category") (.str [])
    event := event
    sourceNode := getOr source (str "node_id") (.str [])
    sourceIp := getOr source (str "ip") (.str [])
    targetKeyExpr := getOr target (str "key_expr") (.str [])
    action := getOr data (str "action") (.str [])
    idsRule := getOr data (str "ids_rule") (.str [])
    chainHash := getOr data (str "chain_hash") (.str [])
    details := getOr data (str "details") (.dict [])
    tsMs := getOr data (str "ts_ms") (.int nowMs) }

/-! ## The chain hash -/

def genesisHash : List Char := List.replicate 64 '0'

/-- `digest.hex()`. -/
def hexdigest (digest : List Byte) : List Char :=
  digest.flatMap fun b => [Nat.digitChar (b.toNat / 16), Nat.digitChar (b.toNat % 16)]

/-- `hashlib.sha256(text.encode("utf-8")).hexdigest()`. -/
def sha256Hex (text : List Char) : List Char := hexdigest (Sha256.hash (encode text))

/-- The content of an event that is hashed. -/
def content (seq severity event sourceNode : Value) : List Char := written [
  (str "seq", seq),
  (str "severity", severity),
  (str "event", event),
  (str "source_node", sourceNode)]

/-! ## The log -/

structure SecurityLog where
  seq : Value := .int 0
  lastChainHash : Value := .str (ofText genesisHash)

/-- `_recover_state`, in a new log on a file. -/
def recoverState (file : File) : Except LogError SecurityLog :=
  (recoverEntry file).map fun
    | none => {}
    | some data => {
        seq := getOr data (str "seq") (.int 0)
        lastChainHash := getOr data (str "chain_hash") (.str (ofText genesisHash)) }

/-- The arguments of `log_event`, enumerations by their values. -/
structure SecurityCall where
  severity : Str
  event : Str
  category : Str := str "SECURITY"
  sourceNode : Str := []
  sourceIp : Str := []
  targetKeyExpr : Str := []
  action : Str := []
  idsRule : Str := []
  details : Details := some []

/-- `self._last_chain_hash + content` as far as its encoding. -/
def chainInput (lastChainHash : Value) (content : List Char) : Except LogError (List Char) :=
  match lastChainHash with
  | .str last =>
    match toText? last with
    | some last => .ok (last ++ content)
    | none => .error .unicodeEncodeError
  | _ => .error .typeError

/-- `log_event`: how it ends, the log and the file. -/
def logEvent (log : SecurityLog) (file : File) (call : SecurityCall) (nowMs : Nat) (disk : Disk) :
    Outcome SecurityEvent × SecurityLog × File :=
  match increment log.seq with
  | .error error => (.raised error, log, file)
  | .ok seq =>
    let log := { log with seq := seq }
    let content := content seq (.str call.severity) (.str call.event) (.str call.sourceNode)
    match chainInput log.lastChainHash content with
    | .error error => (.raised error, log, file)
    | .ok input =>
      let chainHash : Value := .str (ofText (sha256Hex input))
      match call.details with
      | none => (.raised .typeError, log, file)
      | some details =>
        let entry : SecurityEvent := {
          seq := seq
          severity := .str call.severity
          category := .str call.category
          event := .str call.event
          sourceNode := .str call.sourceNode
          sourceIp := .str call.sourceIp
          targetKeyExpr := .str call.targetKeyExpr
          action := .str call.action
          idsRule := .str call.idsRule
          chainHash := chainHash
          details := .dict details
          tsMs := .int nowMs }
        let file := writeEntry file entry.toDict disk
        match disk with
        | .refuses => (.raised .osError, log, file)
        | .crashes _ => (.crashed, log, file)
        | .writes => (.returned entry, { log with lastChainHash := chainHash }, file)

/-! ## Verification -/

/-- The fields of an entry that `verify_chain` puts into the content. -/
structure ChainFields where
  seq : Value
  severity : Value
  event : Value
  sourceNode : Value

/-- What `verify_chain` takes from an entry: the stored hash and the fields. -/
def chainEntry (data : Value) : Except LogError (Value × ChainFields) := do
  let data ← asDict data
  let stored := getOr data (str "chain_hash") (.str [])
  let seq ← item data (str "seq")
  let severity ← item data (str "severity")
  let event ← item data (str "event")
  let source ← asDict (getOr data (str "source") (.dict []))
  return (stored, ⟨seq, severity, event, getOr source (str "node_id") (.str [])⟩)

def ChainFields.content (fields : ChainFields) : List Char :=
  MasterSecurityLog.content fields.seq fields.severity fields.event fields.sourceNode

/-- `value == s`. -/
def isStr : Value → Str → Bool
  | .str value, s => value = s
  | _, _ => false

/-- The loop of `verify_chain`. -/
def verifyLines : List Char → List (List Char) → Except LogError Bool
  | _, [] => .ok true
  | prevHash, line :: lines =>
    match readEntry chainEntry line with
    | .ok (stored, fields) =>
      let expected := sha256Hex (prevHash ++ fields.content)
      if isStr stored (ofText expected) then verifyLines expected lines else .ok false
    | .error .jsonDecodeError => .ok false
    | .error .keyError => .ok false
    | .error error => .error error

/-- `verify_chain`. It looks at nothing of the log but the file. -/
def SecurityLog.verifyChain (_ : SecurityLog) (file : File) : Except LogError Bool :=
  match readAllLines file with
  | .ok lines => verifyLines genesisHash lines
  | .error error => .error error

/-- The strings that the loop hashes. -/
def hashedTexts : List Char → List (List Char) → List (List Char)
  | _, [] => []
  | prevHash, line :: lines =>
    match readEntry chainEntry line with
    | .ok (stored, fields) =>
      let expected := sha256Hex (prevHash ++ fields.content)
      (prevHash ++ fields.content) ::
        if isStr stored (ofText expected) then hashedTexts expected lines else []
    | .error _ => []

/-! ## Events in the file -/

/-- The event that is read where this one was written. -/
def SecurityEvent.reread (e : SecurityEvent) : SecurityEvent where
  seq := Json.reread e.seq
  severity := Json.reread e.severity
  category := Json.reread e.category
  event := Json.reread e.event
  sourceNode := Json.reread e.sourceNode
  sourceIp := Json.reread e.sourceIp
  targetKeyExpr := Json.reread e.targetKeyExpr
  action := Json.reread e.action
  idsRule := Json.reread e.idsRule
  chainHash := Json.reread e.chainHash
  details := Json.reread e.details
  tsMs := Json.reread e.tsMs

theorem nodup_toDict (e : SecurityEvent) : (e.toDict.map Prod.fst).Nodup := by
  simp only [SecurityEvent.toDict, List.map_cons, List.map_nil]
  decide +kernel

theorem stored_toDict (e : SecurityEvent) : stored e.toDict = e.reread.toDict := by
  rw [stored, dictOf_of_nodup]
  · rfl
  · exact nodup_toDict e.reread

@[simp] theorem fromDict_toDict (e : SecurityEvent) (nowMs : Nat) :
    fromDict nowMs (.dict e.toDict) = .ok e := rfl

@[simp] theorem chainEntry_toDict (e : SecurityEvent) : chainEntry (.dict e.toDict) =
    .ok (e.chainHash, ⟨e.seq, e.severity, e.event, e.sourceNode⟩) := rfl

@[simp] theorem isStr_str (s t : Str) : isStr (.str s) t = true ↔ s = t := by simp [isStr]

theorem isStr_iff (value : Value) (t : Str) : isStr value t = true ↔ value = .str t := by
  cases value <;> simp [isStr]

theorem chainInput_ofText (hash content : List Char) :
    chainInput (.str (ofText hash)) content = .ok (hash ++ content) := by
  rw [chainInput, toText?_ofText]

theorem sha256Hex_length (text : List Char) : (sha256Hex text).length = 64 := by
  simp [sha256Hex, hexdigest, Sha256.hash_length]

end Genoh.MasterSecurityLog
