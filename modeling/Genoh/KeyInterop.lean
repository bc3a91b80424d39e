import Genoh.FirmwareKey
import Genoh.MasterKeys
import Genoh.Run
import Genoh.Sha256Window

/-!
# Node keys on both sides

The key that the master derives for a node and the key that the node derives for itself, from one
master key and through the same rotations.
-/
namespace Genoh.KeyInterop

open Genoh.Bytes Genoh.FirmwareKey Genoh.Hmac Genoh.Run
open Genoh.FirmwareSecOC (Key secocTestKey)
open Genoh.MasterKeys (extract)
open Genoh.MasterKeys.KeyManager
open Genoh.MasterPayloads (utf8)

/-- A text as C gets it, up to its first NUL. -/
def cString (text : String) : List Byte := (utf8 text).takeWhile (· ≠ 0)

/-- The key managers of the master and of one node. -/
structure Deployment where
  master : MasterKeys.KeyManager
  node : FirmwareKey.KeyManager

/-- Both sides with one master key. -/
def start (mk : Key) (vehicleId nodeId : String) : Deployment where
  master := (MasterKeys.KeyManager.init vehicleId).loadMasterKey mk.val
  node := keyInit mk (cString nodeId)

/-- The call rotates the key of this node. -/
def rotates (nodeId : String) : Call → Bool
  | .rotate other _ _ _ => decide (other = nodeId)
  | .derive _ _ => false
  | .get _ _ => false
  | .broadcast _ => false

/-- A call on the master, for this node or another. The node rotates along. -/
def step (nodeId : String) (d : Deployment) (c : Call) : Deployment where
  master := d.master.call c
  node := if rotates nodeId c then keyRotate d.node else d.node

/-- `derive_node_key` gives the key that the node has. -/
def SameKey (nodeId : String) (d : Deployment) : Prop :=
  ∀ nowMs, (d.master.deriveNodeKey nodeId nowMs).1 = .ok (keyGetNodeKey d.node).val

/-! ## The two derivations -/

/-- The salts behind these calls. -/
def saltsAfter (vehicleId : String) (calls : List Call) : String → List Byte :=
  run (turnSalt (utf8 vehicleId)) (fun _ => utf8 vehicleId) calls

/-- The node's epoch behind these calls. -/
def epochAfter (nodeId : String) (calls : List Call) : BitVec 16 :=
  1 + BitVec.ofNat 16 (calls.countP (rotates nodeId))

/-- What the master authenticates with the extracted key. -/
def masterText (nodeId : String) : List Byte := utf8 (nodeKeyId nodeId) ++ [1]

/-- What the node authenticates with the master key. -/
def nodeText (nodeId : String) (epoch : BitVec 16) : List Byte :=
  deriveInput epoch ((cString nodeId).take (nodeIdSize - 1))

/-- SHA-256 collides on the two texts that the outer hashes read, or, where the extracted key is the
master key itself, on those of the inner hashes. -/
def DigestsCollide (mk salt : List Byte) (nodeId : String) (epoch : BitVec 16) : Prop :=
  Collide Sha256.hash (outerText Sha256.hash 64 (extract mk salt) (masterText nodeId))
      (outerText Sha256.hash 64 mk (nodeText nodeId epoch)) ∨
    extract mk salt = mk ∧
      Collide Sha256.hash (innerText Sha256.hash 64 (extract mk salt) (masterText nodeId))
        (innerText Sha256.hash 64 mk (nodeText nodeId epoch))

/-- One text begins with `node_`, the other with `epoch:`. -/
theorem masterText_ne_nodeText (nodeId : String) (epoch : BitVec 16) :
    masterText nodeId ≠ nodeText nodeId epoch := by
  intro h
  have hmaster : (masterText nodeId).head? = some 0x6e := by
    rw [masterText, nodeKeyId, MasterPayloads.utf8_append]
    rfl
  have hnode : (nodeText nodeId epoch).head? = some 0x65 := by
    rw [nodeText, deriveInput]
    rfl
  rw [h, hnode] at hmaster
  exact absurd hmaster (by decide)

theorem nodeKey_eq_iff (mk : Key) (salt : List Byte) (nodeId : String) (epoch : BitVec 16) :
    nodeKey mk.val salt nodeId = hmacSha256 mk.val (nodeText nodeId epoch) ↔
      DigestsCollide mk.val salt nodeId epoch := by
  have hlen := MasterKeys.extract_length mk.val salt
  have hsize : (extract mk.val salt).length ≤ 64 := by omega
  have hsame : mk.val.length = (extract mk.val salt).length := by rw [hlen, mk.property]
  have hiff := @hmac_eq_iff Sha256.hash 64 (extract mk.val salt) mk.val (masterText nodeId)
    (nodeText nodeId epoch) hsize hsame
  rw [or_iff_left (masterText_ne_nodeText nodeId epoch)] at hiff
  exact hiff

/-- HMAC in a form that evaluates. -/
theorem hmacSha256_window (key msg : List Byte) :
    hmacSha256 key msg = hmac Sha256.windowHash 64 key msg := by
  rw [Sha256.windowHash_eq, hmacSha256]

/-! ## Runs -/

/-- Both sides as the calls leave them. -/
structure Matched (mk : Key) (vehicleId nodeId : String) (past : List Call) (d : Deployment) :
    Prop where
  master : Serves mk.val (utf8 vehicleId) (saltsAfter vehicleId past) d.master
  node : InEpoch mk (cString nodeId) (epochAfter nodeId past) d.node

theorem matched_start (mk : Key) (vehicleId nodeId : String) :
    Matched mk vehicleId nodeId [] (start mk vehicleId nodeId) where
  master := serves_init vehicleId mk.property
  node := keyInit_inEpoch mk (cString nodeId)

theorem Matched.step {mk : Key} {vehicleId nodeId : String} {past : List Call} {d : Deployment}
    (h : Matched mk vehicleId nodeId past d) (c : Call) :
    Matched mk vehicleId nodeId (past ++ [c]) (step nodeId d c) := by
  constructor
  · rw [saltsAfter, run_concat]
    exact h.master.call c
  · rw [epochAfter, List.countP_append, List.countP_singleton, KeyInterop.step]
    by_cases hrotates : rotates nodeId c = true
    · rw [if_pos hrotates, if_pos hrotates, BitVec.ofNat_add, ← BitVec.add_assoc]
      exact h.node.rotate
    · rw [if_neg hrotates, if_neg hrotates]
      exact h.node

theorem run_matched (mk : Key) (vehicleId nodeId : String) (calls : List Call) :
    Matched mk vehicleId nodeId calls (run (step nodeId) (start mk vehicleId nodeId) calls) :=
  run_invariant_history (H := fun _ => True) (matched_start mk vehicleId nodeId)
    (fun _ _ _ => trivial) (fun _ c _ h => h.step c) calls trivial

theorem Matched.sameKey_iff {mk : Key} {vehicleId nodeId : String} {past : List Call}
    {d : Deployment} (h : Matched mk vehicleId nodeId past d) :
    SameKey nodeId d ↔ nodeKey mk.val (saltsAfter vehicleId past nodeId) nodeId =
      hmacSha256 mk.val (nodeText nodeId (epochAfter nodeId past)) := by
  have hnode : (keyGetNodeKey d.node).val =
      hmacSha256 mk.val (nodeText nodeId (epochAfter nodeId past)) :=
    h.node.nodeKey
  rw [← hnode]
  constructor
  · intro hsame
    have hzero := hsame 0
    rw [(h.master.derive nodeId 0).1] at hzero
    exact Except.ok.inj hzero
  · intro hkey nowMs
    rw [(h.master.derive nodeId nowMs).1, hkey]

/-- The two sides have one key for a node, before and after any rotations, only where SHA-256
collides. -/
theorem same_key_iff_digests_collide (mk : Key) (vehicleId nodeId : String) (calls : List Call) :
    (∀ past, past <+: calls →
      SameKey nodeId (run (step nodeId) (start mk vehicleId nodeId) past)) ↔
    ∀ past, past <+: calls →
      DigestsCollide mk.val (saltsAfter vehicleId past nodeId) nodeId (epochAfter nodeId past) := by
  apply forall_congr'
  intro past
  rw [(run_matched mk vehicleId nodeId past).sameKey_iff, nodeKey_eq_iff]

/-- Before any rotation, for the node that the firmware is built for. -/
theorem front_left_keys_differ :
    ¬ SameKey "front_left/1" (start secocTestKey "sim-vehicle-001" "front_left/1") := by
  have hdiffer : nodeKey secocTestKey.val (utf8 "sim-vehicle-001") "front_left/1" ≠
      hmacSha256 secocTestKey.val (nodeText "front_left/1" 1) := by
    rw [nodeKey, extract, hmacSha256_window, hmacSha256_window, hmacSha256_window]
    decide +kernel
  rw [(matched_start secocTestKey "sim-vehicle-001" "front_left/1").sameKey_iff]
  exact hdiffer

end Genoh.KeyInterop
