import Genoh.FirmwareHash

/-!
# Firmware key manager

The node key of `key_manager.c`, derived from the master key, the epoch and the node id.
A string is its bytes before the terminating NUL.
-/
namespace Genoh.FirmwareKey

open Genoh.Bytes Genoh.FirmwareSecOC

/-- The ASCII bytes of a text. -/
def ascii (s : String) : List Byte := s.toList.map fun c => BitVec.ofNat 8 c.toNat

/-- `%u`. -/
def decimal (n : Nat) : List Byte := (Nat.toDigits 10 n).map fun c => BitVec.ofNat 8 c.toNat

/-- `node_id` is an array of 16 characters. -/
def nodeIdSize : Nat := 16

/-- `key_manager_t`; the derived input fits its 48-byte buffer because the node id is short. -/
structure KeyManager where
  masterKey : Key
  nodeKey : Key
  epoch : BitVec 16
  nodeId : List Byte
  short : nodeId.length < nodeIdSize

/-- The string that `derive_node_key` hashes. -/
def deriveInput (epoch : BitVec 16) (nodeId : List Byte) : List Byte :=
  ascii "epoch:" ++ decimal epoch.toNat ++ ascii ":" ++ nodeId

theorem hmac_length (key data : List Byte) : (hmacSha256 key data).length = 32 := by
  rw [FirmwareHash.hmacSha256_eq, Hmac.hmacSha256_length]

/-- `derive_node_key`. -/
def deriveNodeKey (km : KeyManager) : KeyManager :=
  { km with nodeKey := ⟨hmacSha256 km.masterKey.val (deriveInput km.epoch km.nodeId),
      hmac_length _ _⟩ }

/-- `key_init`; a longer node id is cut at 15 characters. -/
def keyInit (masterKey : Key) (nodeId : List Byte) : KeyManager :=
  deriveNodeKey
    { masterKey := masterKey
      nodeKey := masterKey
      epoch := 1
      nodeId := nodeId.take (nodeIdSize - 1)
      short := by
        rw [List.length_take]
        have : nodeIdSize = 16 := rfl
        omega }

/-- `key_rotate`. -/
def keyRotate (km : KeyManager) : KeyManager := deriveNodeKey { km with epoch := km.epoch + 1 }

/-- `key_get_node_key`. -/
def keyGetNodeKey (km : KeyManager) : Key := km.nodeKey

/-- `key_get_epoch`. -/
def keyGetEpoch (km : KeyManager) : BitVec 16 := km.epoch

theorem deriveNodeKey_key (km : KeyManager) : (keyGetNodeKey (deriveNodeKey km)).val =
    Hmac.hmacSha256 km.masterKey.val (deriveInput km.epoch km.nodeId) := by
  rw [keyGetNodeKey, deriveNodeKey]
  exact FirmwareHash.hmacSha256_eq _ _

/-- The key manager of `key_init(master_key, node_id)` in a later epoch. -/
structure InEpoch (mk : Key) (id : List Byte) (now : BitVec 16) (km : KeyManager) : Prop where
  masterKey : km.masterKey = mk
  nodeId : km.nodeId = id.take (nodeIdSize - 1)
  epoch : keyGetEpoch km = now
  nodeKey : (keyGetNodeKey km).val =
    Hmac.hmacSha256 mk.val (deriveInput now (id.take (nodeIdSize - 1)))

theorem keyInit_inEpoch (mk : Key) (id : List Byte) : InEpoch mk id 1 (keyInit mk id) := by
  constructor
  · rfl
  · rfl
  · rfl
  · rw [keyInit, deriveNodeKey_key]

theorem InEpoch.rotate {mk : Key} {id : List Byte} {now : BitVec 16} {km : KeyManager}
    (h : InEpoch mk id now km) : InEpoch mk id (now + 1) (keyRotate km) := by
  obtain ⟨rfl, hid, rfl, -⟩ := h
  constructor
  · rfl
  · exact hid
  · rfl
  · rw [← hid]
    exact deriveNodeKey_key { km with epoch := km.epoch + 1 }

end Genoh.FirmwareKey
