import Genoh.Hmac
import Genoh.MasterPayloads
import Genoh.OrderedDict

/-!
# Master key manager

`key_manager.py`: HKDF over HMAC-SHA-256, and the keys derived from the master key with the
vehicle id as salt, with their cache and their rotation.
-/
namespace Genoh.MasterKeys

open Genoh.Bytes Genoh.Hmac Genoh.OrderedDict
open Genoh.MasterPayloads (utf8)

/-- `KEY_LENGTH`. -/
def keyLength : Nat := 32

inductive KeyError where
  | runtimeError (message : String)
  | valueError (message : String)
  deriving DecidableEq, Repr

/-! ## Derivation -/

/-- The extraction of `hkdf_sha256`; an empty salt stands for zeros. -/
def extract (ikm salt : List Byte) : List Byte :=
  hmacSha256 (if salt = [] then List.replicate 32 0 else salt) ikm

/-- The loop of `hkdf_sha256` with `turns` values left for its counter byte, which counts from 1;
behind 255 it is no byte. -/
def expand (prk info : List Byte) (length : Nat) :
    Nat → List Byte → List Byte → Except KeyError (List Byte)
  | 0, _, output =>
    if output.length < length then .error (.valueError "bytes must be in range(0, 256)")
    else .ok (output.take length)
  | turns + 1, t, output =>
    if output.length < length then
      let t := hmacSha256 prk (t ++ info ++ [BitVec.ofNat 8 (255 - turns)])
      expand prk info length turns t (output ++ t)
    else .ok (output.take length)

def hkdfSha256 (ikm salt info : List Byte) (length : Nat) : Except KeyError (List Byte) :=
  expand (extract ikm salt) info length 255 [] []

@[simp] theorem extract_length (ikm salt : List Byte) : (extract ikm salt).length = 32 :=
  hmacSha256_length _ _

theorem expand_turn (prk info : List Byte) {length : Nat} (turns : Nat) (t : List Byte)
    {output : List Byte} (h : output.length < length) :
    expand prk info length (turns + 1) t output =
      expand prk info length turns (hmacSha256 prk (t ++ info ++ [BitVec.ofNat 8 (255 - turns)]))
        (output ++ hmacSha256 prk (t ++ info ++ [BitVec.ofNat 8 (255 - turns)])) := by
  rw [expand, if_pos h]

theorem expand_done (prk info : List Byte) {length : Nat} (turns : Nat) (t : List Byte)
    {output : List Byte} (h : length ≤ output.length) :
    expand prk info length turns t output = .ok (output.take length) := by
  cases turns with
  | zero => rw [expand, if_neg (by omega)]
  | succ turns => rw [expand, if_neg (by omega)]

/-- A key of the default length takes one turn of the loop. -/
theorem hkdfSha256_key (ikm salt info : List Byte) :
    hkdfSha256 ikm salt info keyLength = .ok (hmacSha256 (extract ikm salt) (info ++ [1])) := by
  have hfirst : ([] : List Byte).length < keyLength := by decide
  have hone : BitVec.ofNat 8 (255 - 254) = (1 : Byte) := rfl
  have hlen : (hmacSha256 (extract ikm salt) (info ++ [1])).length = keyLength :=
    hmacSha256_length _ _
  rw [hkdfSha256, expand_turn _ _ 254 _ hfirst, List.nil_append, List.nil_append, hone,
    expand_done _ _ _ _ (Nat.le_of_eq hlen.symm), List.take_of_length_le (Nat.le_of_eq hlen)]

/-! ## The manager -/

structure KeyMetadata where
  keyId : String
  createdMs : Nat := 0
  rotatedMs : Nat := 0
  usageCount : Nat := 0
  deriving DecidableEq, Repr

structure KeyManager where
  vehicleId : List Byte
  masterKey : Option (List Byte) := none
  derivedKeys : Dict String (List Byte) := Dict.empty
  metadata : Dict String KeyMetadata := Dict.empty

namespace KeyManager

def init (vehicleId : String) : KeyManager := { vehicleId := utf8 vehicleId }

/-- `load_master_key` from an existing file with these contents. -/
def loadMasterKey (km : KeyManager) (contents : List Byte) : KeyManager :=
  { km with masterKey := some (contents.take keyLength) }

/-- The master key that passes `if not self._master_key`. -/
def loaded (km : KeyManager) : Option (List Byte) := km.masterKey.filter (· ≠ [])

/-- `meta.usage_count += 1`, where there is an entry. -/
def countUse (km : KeyManager) (keyId : String) : KeyManager :=
  match km.metadata.get? keyId with
  | none => km
  | some entry =>
    { km with metadata := km.metadata.set keyId { entry with usageCount := entry.usageCount + 1 } }

/-- Put a derived key and its entry in the tables. -/
def store (km : KeyManager) (key : List Byte) (entry : KeyMetadata) : KeyManager :=
  { km with
    derivedKeys := km.derivedKeys.set entry.keyId key
    metadata := km.metadata.set entry.keyId entry }

def nodeKeyId (nodeId : String) : String := "node_" ++ nodeId

def notLoaded : String := "Master key not loaded. Call load_master_key() first."

/-- `derive_node_key`; `nowMs` is the clock where a new entry is made. -/
def deriveNodeKey (km : KeyManager) (nodeId : String) (nowMs : Nat) :
    Except KeyError (List Byte) × KeyManager :=
  let keyId := nodeKeyId nodeId
  match km.loaded with
  | none => (.error (.runtimeError notLoaded), km)
  | some masterKey =>
    match km.derivedKeys.get? keyId with
    | some key => (.ok key, km.countUse keyId)
    | none =>
      match hkdfSha256 masterKey km.vehicleId (utf8 keyId) keyLength with
      | .error error => (.error error, km)
      | .ok derived =>
        (.ok derived, km.store derived { keyId := keyId, createdMs := nowMs, usageCount := 1 })

/-- `derive_broadcast_key`, which counts no use. -/
def deriveBroadcastKey (km : KeyManager) (nowMs : Nat) :
    Except KeyError (List Byte) × KeyManager :=
  let keyId := "broadcast"
  match km.loaded with
  | none => (.error (.runtimeError notLoaded), km)
  | some masterKey =>
    match km.derivedKeys.get? keyId with
    | some key => (.ok key, km)
    | none =>
      match hkdfSha256 masterKey km.vehicleId (utf8 keyId) keyLength with
      | .error error => (.error error, km)
      | .ok derived => (.ok derived, km.store derived { keyId := keyId, createdMs := nowMs })

/-- `get_node_key`: a cached key is given out without a master key too. -/
def getNodeKey (km : KeyManager) (nodeId : String) (nowMs : Nat) :
    Except KeyError (List Byte) × KeyManager :=
  match km.derivedKeys.get? (nodeKeyId nodeId) with
  | some key => (.ok key, km.countUse (nodeKeyId nodeId))
  | none => km.deriveNodeKey nodeId nowMs

/-- The salt of a rotation, with `time.time_ns()` behind the vehicle id. -/
def rotationSalt (vehicleId : List Byte) (timeNs : Nat) : List Byte :=
  vehicleId ++ utf8 (toString timeNs)

/-- `rotate_key`. The old key is gone before the master key is looked for. -/
def rotateKey (km : KeyManager) (nodeId : String) (timeNs createdMs rotatedMs : Nat) :
    Except KeyError (List Byte) × KeyManager :=
  let keyId := nodeKeyId nodeId
  let km := { km with
    derivedKeys := km.derivedKeys.erase keyId
    metadata := km.metadata.erase keyId }
  match km.loaded with
  | none => (.error (.runtimeError "Master key not loaded."), km)
  | some masterKey =>
    match hkdfSha256 masterKey (rotationSalt km.vehicleId timeNs) (utf8 keyId) keyLength with
    | .error error => (.error error, km)
    | .ok derived =>
      (.ok derived, km.store derived
        { keyId := keyId, createdMs := createdMs, rotatedMs := rotatedMs })

/-! ### Calls in any order -/

inductive Call where
  | derive (nodeId : String) (nowMs : Nat)
  | get (nodeId : String) (nowMs : Nat)
  | broadcast (nowMs : Nat)
  | rotate (nodeId : String) (timeNs createdMs rotatedMs : Nat)
  deriving DecidableEq, Repr

def call (km : KeyManager) : Call → KeyManager
  | .derive nodeId nowMs => (km.deriveNodeKey nodeId nowMs).2
  | .get nodeId nowMs => (km.getNodeKey nodeId nowMs).2
  | .broadcast nowMs => (km.deriveBroadcastKey nowMs).2
  | .rotate nodeId timeNs createdMs rotatedMs =>
    (km.rotateKey nodeId timeNs createdMs rotatedMs).2

/-- What a call does to the salt that every node has. -/
def turnSalt (vehicleId : List Byte) (salts : String → List Byte) : Call → String → List Byte
  | .rotate nodeId timeNs _ _ => Function.update salts nodeId (rotationSalt vehicleId timeNs)
  | .derive _ _ => salts
  | .get _ _ => salts
  | .broadcast _ => salts

/-- The key of a node under a salt. -/
def nodeKey (mk salt : List Byte) (nodeId : String) : List Byte :=
  hmacSha256 (extract mk salt) (utf8 (nodeKeyId nodeId) ++ [1])

/-- The manager answers with the keys under these salts. A key that is not in the table is still
under the vehicle id. -/
structure Serves (mk vehicleId : List Byte) (salts : String → List Byte) (km : KeyManager) :
    Prop where
  loaded : km.loaded = some mk
  vehicle : km.vehicleId = vehicleId
  keys : ∀ nodeId, km.derivedKeys.get? (nodeKeyId nodeId) = some (nodeKey mk (salts nodeId) nodeId) ∨
    km.derivedKeys.get? (nodeKeyId nodeId) = none ∧ salts nodeId = vehicleId

theorem nodeKeyId_inj {a b : String} (h : nodeKeyId a = nodeKeyId b) : a = b := by
  have hlist := congrArg String.toList h
  rw [nodeKeyId, nodeKeyId, String.toList_append, String.toList_append] at hlist
  exact String.toList_inj.mp (List.append_cancel_left hlist)

theorem nodeKeyId_ne_broadcast (nodeId : String) : nodeKeyId nodeId ≠ "broadcast" := by
  intro h
  have hlist := congrArg String.toList h
  rw [nodeKeyId, String.toList_append] at hlist
  exact absurd (congrArg List.head? hlist) (by simp)

section Calls

variable {mk vehicleId : List Byte} {salts : String → List Byte} {km : KeyManager}

theorem serves_init (name : String) (h : mk.length = keyLength) :
    Serves mk (utf8 name) (fun _ => utf8 name) ((init name).loadMasterKey mk) where
  loaded := by
    have hne : mk ≠ [] := by
      rintro rfl
      exact absurd h (by decide)
    rw [KeyManager.loaded, loadMasterKey, List.take_of_length_le (Nat.le_of_eq h)]
    simp [hne]
  vehicle := rfl
  keys _ := .inr ⟨rfl, rfl⟩

theorem Serves.countUse (h : Serves mk vehicleId salts km) (keyId : String) :
    Serves mk vehicleId salts (km.countUse keyId) := by
  rw [KeyManager.countUse]
  split
  · exact h
  · exact ⟨h.loaded, h.vehicle, h.keys⟩

theorem Serves.derive (h : Serves mk vehicleId salts km) (nodeId : String) (nowMs : Nat) :
    (km.deriveNodeKey nodeId nowMs).1 = .ok (nodeKey mk (salts nodeId) nodeId) ∧
      Serves mk vehicleId salts (km.deriveNodeKey nodeId nowMs).2 := by
  obtain hcached | ⟨hnone, hsalt⟩ := h.keys nodeId
  · simp only [deriveNodeKey, h.loaded, hcached]
    exact ⟨trivial, h.countUse _⟩
  · simp only [deriveNodeKey, h.loaded, hnone, hkdfSha256_key, h.vehicle]
    constructor
    · rw [nodeKey, hsalt]
    · constructor
      · exact h.loaded
      · exact h.vehicle
      · intro other
        rw [store, Dict.get?_set]
        by_cases hother : nodeKeyId other = nodeKeyId nodeId
        · rw [if_pos hother, nodeKeyId_inj hother, nodeKey, hsalt]
          exact .inl rfl
        · rw [if_neg hother]
          exact h.keys other

theorem Serves.get (h : Serves mk vehicleId salts km) (nodeId : String) (nowMs : Nat) :
    (km.getNodeKey nodeId nowMs).1 = .ok (nodeKey mk (salts nodeId) nodeId) ∧
      Serves mk vehicleId salts (km.getNodeKey nodeId nowMs).2 := by
  obtain hcached | ⟨hnone, -⟩ := h.keys nodeId
  · simp only [getNodeKey, hcached]
    exact ⟨trivial, h.countUse _⟩
  · simp only [getNodeKey, hnone]
    exact h.derive nodeId nowMs

theorem Serves.broadcast (h : Serves mk vehicleId salts km) (nowMs : Nat) :
    Serves mk vehicleId salts (km.deriveBroadcastKey nowMs).2 := by
  simp only [deriveBroadcastKey, h.loaded, hkdfSha256_key]
  split
  · exact h
  · constructor
    · exact h.loaded
    · exact h.vehicle
    · intro nodeId
      rw [store, Dict.get?_set_of_ne _ _ _ _ (nodeKeyId_ne_broadcast nodeId)]
      exact h.keys nodeId

theorem Serves.rotate (h : Serves mk vehicleId salts km) (nodeId : String)
    (timeNs createdMs rotatedMs : Nat) :
    (km.rotateKey nodeId timeNs createdMs rotatedMs).1 =
        .ok (nodeKey mk (rotationSalt vehicleId timeNs) nodeId) ∧
      Serves mk vehicleId (Function.update salts nodeId (rotationSalt vehicleId timeNs))
        (km.rotateKey nodeId timeNs createdMs rotatedMs).2 := by
  have hloaded : km.masterKey.filter (· ≠ []) = some mk := h.loaded
  simp only [rotateKey, KeyManager.loaded, hloaded, hkdfSha256_key, h.vehicle]
  constructor
  · rfl
  · constructor
    · exact hloaded
    · rfl
    · intro other
      rw [store, Dict.get?_set]
      by_cases hother : nodeKeyId other = nodeKeyId nodeId
      · rw [if_pos hother, nodeKeyId_inj hother, Function.update_self]
        exact .inl rfl
      · have hne : other ≠ nodeId := fun heq => hother (congrArg nodeKeyId heq)
        rw [if_neg hother, Dict.get?_erase, if_neg hother, Function.update_of_ne hne]
        exact h.keys other

/-- The manager is the table of salts, whatever the order of the calls. -/
theorem Serves.call (h : Serves mk vehicleId salts km) (c : Call) :
    Serves mk vehicleId (turnSalt vehicleId salts c) (km.call c) := by
  cases c with
  | derive nodeId nowMs => exact (h.derive nodeId nowMs).2
  | get nodeId nowMs => exact (h.get nodeId nowMs).2
  | broadcast nowMs => exact h.broadcast nowMs
  | rotate nodeId timeNs createdMs rotatedMs => exact (h.rotate nodeId timeNs createdMs rotatedMs).2

end Calls

end KeyManager

end Genoh.MasterKeys
