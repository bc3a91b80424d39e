import Genoh.KeyInterop

/-!
# Loading master keys

`load_master_key` leaves the derived keys where they are. Runs of loads and calls, with what every
cached key was derived from.
-/
namespace Genoh.KeyReload

open Genoh.Bytes Genoh.Hmac Genoh.OrderedDict Genoh.Run
open Genoh.MasterKeys Genoh.MasterKeys.KeyManager
open Genoh.MasterPayloads (utf8)

/-! ## Derived keys -/

/-- What HKDF hashes of a key id. -/
def infoText (keyId : String) : List Byte := utf8 keyId ++ [1]

/-- The key that HKDF derives for a key id. -/
def derivedKey (mk salt : List Byte) (keyId : String) : List Byte :=
  hmacSha256 (extract mk salt) (infoText keyId)

/-- The salt as a key of the extraction. -/
def saltKey (salt : List Byte) : List Byte := if salt = [] then List.replicate 32 0 else salt

/-- Two master keys and salts give one key for a key id: they are the same, the salts as blocks of
HMAC, or SHA-256 collides on texts that are hashed. -/
def SameDerivation (mk salt mk' salt' : List Byte) (keyId : String) : Prop :=
  Collide Sha256.hash (outerText Sha256.hash 64 (extract mk salt) (infoText keyId))
      (outerText Sha256.hash 64 (extract mk' salt') (infoText keyId)) ∨
    Collide Sha256.hash (outerText Sha256.hash 64 (saltKey salt) mk)
        (outerText Sha256.hash 64 (saltKey salt') mk') ∨
      blockKey Sha256.hash 64 (saltKey salt) = blockKey Sha256.hash 64 (saltKey salt') ∧
        (Collide Sha256.hash (innerText Sha256.hash 64 (saltKey salt) mk)
            (innerText Sha256.hash 64 (saltKey salt') mk') ∨
          mk = mk')

theorem hkdfSha256_derivedKey (mk salt : List Byte) (keyId : String) :
    hkdfSha256 mk salt (utf8 keyId) keyLength = .ok (derivedKey mk salt keyId) :=
  hkdfSha256_key mk salt (utf8 keyId)

theorem derivedKey_eq_iff (mk salt mk' salt' : List Byte) (keyId : String) :
    derivedKey mk salt keyId = derivedKey mk' salt' keyId ↔
      SameDerivation mk salt mk' salt' keyId := by
  have hhash : ∀ text, (Sha256.hash text).length ≤ 64 := by
    intro text
    rw [Sha256.hash_length]
    decide
  have hsize : (extract mk salt).length ≤ 64 := by
    rw [extract_length]
    decide
  have hlength : (extract mk' salt').length = (extract mk salt).length := by
    rw [extract_length, extract_length]
  have hblocks : (blockKey Sha256.hash 64 (saltKey salt)).length =
      (blockKey Sha256.hash 64 (saltKey salt')).length := by
    rw [blockKey_length_of_bounded _ _ hhash, blockKey_length_of_bounded _ _ hhash]
  have hextract : extract mk salt = extract mk' salt' ↔ _ :=
    hmac_eq_iff_blocks Sha256.hash 64 hblocks
  have hkeys : derivedKey mk salt keyId = derivedKey mk' salt' keyId ↔ _ :=
    hmac_eq_iff Sha256.hash 64 hsize hlength
  rw [hkeys, SameDerivation]
  apply or_congr_right
  exact (and_iff_left (.inr rfl)).trans hextract

/-! ## Calls -/

def keyIdOf : Call → String
  | .derive nodeId _ => nodeKeyId nodeId
  | .get nodeId _ => nodeKeyId nodeId
  | .broadcast _ => "broadcast"
  | .rotate nodeId _ _ _ => nodeKeyId nodeId

/-- What the call returns. -/
def answer (km : KeyManager) : Call → Except KeyError (List Byte)
  | .derive nodeId nowMs => (km.deriveNodeKey nodeId nowMs).1
  | .get nodeId nowMs => (km.getNodeKey nodeId nowMs).1
  | .broadcast nowMs => (km.deriveBroadcastKey nowMs).1
  | .rotate nodeId timeNs createdMs rotatedMs => (km.rotateKey nodeId timeNs createdMs rotatedMs).1

def rotates : Call → Bool
  | .rotate _ _ _ _ => true
  | _ => false

/-- The call raises without a master key even if the key is cached. -/
def asksMaster : Call → Bool
  | .get _ _ => false
  | _ => true

theorem countUse_tables (km : KeyManager) (keyId : String) :
    (km.countUse keyId).derivedKeys = km.derivedKeys ∧
      (km.countUse keyId).masterKey = km.masterKey ∧
      (km.countUse keyId).vehicleId = km.vehicleId := by
  rw [countUse]
  split <;> exact ⟨rfl, rfl, rfl⟩

/-- What a call other than a rotation does: it answers with the cached key or refuses to, or it
derives one and caches it, if there is a master key. -/
inductive Lookup (km : KeyManager) (c : Call) : Prop where
  | cached (key : List Byte) (hget : km.derivedKeys.get? (keyIdOf c) = some key)
      (hmaster : asksMaster c = true → km.loaded ≠ none) (hanswer : answer km c = .ok key)
      (hkeys : (km.call c).derivedKeys = km.derivedKeys)
  | refused (error : KeyError) (hmaster : km.loaded = none)
      (hget : km.derivedKeys.get? (keyIdOf c) = none ∨ asksMaster c = true)
      (hanswer : answer km c = .error error) (hkeys : (km.call c).derivedKeys = km.derivedKeys)
  | derived (mk : List Byte) (hmaster : km.loaded = some mk)
      (hget : km.derivedKeys.get? (keyIdOf c) = none)
      (hanswer : answer km c = .ok (derivedKey mk km.vehicleId (keyIdOf c)))
      (hkeys : (km.call c).derivedKeys =
        km.derivedKeys.set (keyIdOf c) (derivedKey mk km.vehicleId (keyIdOf c)))

theorem derive_lookup (km : KeyManager) (nodeId : String) (nowMs : Nat) :
    Lookup km (.derive nodeId nowMs) := by
  cases hmaster : km.loaded with
  | none =>
    apply Lookup.refused (.runtimeError notLoaded) hmaster (.inr rfl)
    · simp only [answer, deriveNodeKey, hmaster]
    · simp only [call, deriveNodeKey, hmaster]
  | some mk =>
    cases hget : km.derivedKeys.get? (nodeKeyId nodeId) with
    | some key =>
      apply Lookup.cached key hget
      · rw [hmaster]
        exact fun _ h => absurd h (Option.some_ne_none mk)
      · simp only [answer, deriveNodeKey, hmaster, hget]
      · simp only [call, deriveNodeKey, hmaster, hget]
        exact (countUse_tables km _).1
    | none =>
      have hnone : km.derivedKeys.get? (keyIdOf (.derive nodeId nowMs)) = none := hget
      apply Lookup.derived mk hmaster hnone
      · simp only [answer, deriveNodeKey, hmaster, hget, hkdfSha256_derivedKey]
        rfl
      · simp only [call, deriveNodeKey, hmaster, hget, hkdfSha256_derivedKey]
        rfl

theorem get_lookup (km : KeyManager) (nodeId : String) (nowMs : Nat) :
    Lookup km (.get nodeId nowMs) := by
  cases hget : km.derivedKeys.get? (nodeKeyId nodeId) with
  | some key =>
    apply Lookup.cached key hget
    · intro h
      cases h
    · simp only [answer, getNodeKey, hget]
    · simp only [call, getNodeKey, hget]
      exact (countUse_tables km _).1
  | none =>
    have hnone : km.derivedKeys.get? (keyIdOf (.get nodeId nowMs)) = none := hget
    have hsame : km.getNodeKey nodeId nowMs = km.deriveNodeKey nodeId nowMs := by
      simp only [getNodeKey, hget]
    cases derive_lookup km nodeId nowMs with
    | cached key hget' =>
      change km.derivedKeys.get? (nodeKeyId nodeId) = some key at hget'
      rw [hget] at hget'
      cases hget'
    | refused error hmaster _ hanswer hkeys =>
      apply Lookup.refused error hmaster (.inl hnone)
      · rw [answer, hsame]
        exact hanswer
      · rw [call, hsame]
        exact hkeys
    | derived mk hmaster _ hanswer hkeys =>
      apply Lookup.derived mk hmaster hnone
      · rw [answer, hsame]
        exact hanswer
      · rw [call, hsame]
        exact hkeys

theorem broadcast_lookup (km : KeyManager) (nowMs : Nat) : Lookup km (.broadcast nowMs) := by
  cases hmaster : km.loaded with
  | none =>
    apply Lookup.refused (.runtimeError notLoaded) hmaster (.inr rfl)
    · simp only [answer, deriveBroadcastKey, hmaster]
    · simp only [call, deriveBroadcastKey, hmaster]
  | some mk =>
    cases hget : km.derivedKeys.get? "broadcast" with
    | some key =>
      apply Lookup.cached key hget
      · rw [hmaster]
        exact fun _ h => absurd h (Option.some_ne_none mk)
      · simp only [answer, deriveBroadcastKey, hmaster, hget]
      · simp only [call, deriveBroadcastKey, hmaster, hget]
    | none =>
      have hnone : km.derivedKeys.get? (keyIdOf (.broadcast nowMs)) = none := hget
      apply Lookup.derived mk hmaster hnone
      · simp only [answer, deriveBroadcastKey, hmaster, hget, hkdfSha256_derivedKey]
        rfl
      · simp only [call, deriveBroadcastKey, hmaster, hget, hkdfSha256_derivedKey]
        rfl

theorem call_lookup (km : KeyManager) {c : Call} (h : rotates c = false) : Lookup km c := by
  cases c with
  | derive nodeId nowMs => exact derive_lookup km nodeId nowMs
  | get nodeId nowMs => exact get_lookup km nodeId nowMs
  | broadcast nowMs => exact broadcast_lookup km nowMs
  | rotate nodeId timeNs createdMs rotatedMs => cases h

/-- No call touches the master key or the vehicle id. -/
theorem call_master (km : KeyManager) (c : Call) :
    (km.call c).masterKey = km.masterKey ∧ (km.call c).vehicleId = km.vehicleId := by
  have hderive : ∀ nodeId nowMs, (km.deriveNodeKey nodeId nowMs).2.masterKey = km.masterKey ∧
      (km.deriveNodeKey nodeId nowMs).2.vehicleId = km.vehicleId := by
    intro nodeId nowMs
    unfold deriveNodeKey
    dsimp only
    repeat' split
    · exact ⟨rfl, rfl⟩
    · exact (countUse_tables km _).2
    · exact ⟨rfl, rfl⟩
    · exact ⟨rfl, rfl⟩
  cases c with
  | derive nodeId nowMs => exact hderive nodeId nowMs
  | get nodeId nowMs =>
    rw [call, getNodeKey]
    split
    · exact (countUse_tables km _).2
    · exact hderive nodeId nowMs
  | broadcast nowMs =>
    rw [call, deriveBroadcastKey]
    repeat' split
    all_goals exact ⟨rfl, rfl⟩
  | rotate nodeId timeNs createdMs rotatedMs =>
    rw [call, rotateKey]
    dsimp only
    repeat' split
    all_goals exact ⟨rfl, rfl⟩

/-- A rotation leaves the other keys, and caches a key under its own salt or none. -/
theorem rotate_get? (km : KeyManager) (nodeId : String) (timeNs createdMs rotatedMs : Nat) :
    (∀ other, other ≠ nodeKeyId nodeId →
      (km.call (.rotate nodeId timeNs createdMs rotatedMs)).derivedKeys.get? other =
        km.derivedKeys.get? other) ∧
      ∀ key, (km.call (.rotate nodeId timeNs createdMs rotatedMs)).derivedKeys.get?
          (nodeKeyId nodeId) = some key →
        ∃ mk, km.loaded = some mk ∧
          key = derivedKey mk (rotationSalt km.vehicleId timeNs) (nodeKeyId nodeId) := by
  rw [call, rotateKey]
  simp only [KeyManager.loaded, hkdfSha256_derivedKey]
  cases hmaster : km.masterKey.filter (· ≠ []) with
  | none =>
    constructor
    · intro other hother
      exact (Dict.get?_erase _ _ _).trans (if_neg hother)
    · intro key hkey
      have hnone := (Dict.get?_erase km.derivedKeys (nodeKeyId nodeId) (nodeKeyId nodeId)).trans
        (if_pos rfl)
      exact absurd (hnone.symm.trans hkey) (by simp)
  | some mk =>
    constructor
    · intro other hother
      exact (Dict.get?_set_of_ne _ _ _ _ hother).trans
        ((Dict.get?_erase _ _ _).trans (if_neg hother))
    · intro key hkey
      refine ⟨mk, rfl, ?_⟩
      exact Option.some.inj (hkey.symm.trans (Dict.get?_set_self _ _ _))

/-! ## Runs -/

/-- A load finds these contents in the file, or makes them where there is no file. -/
inductive Event where
  | load (contents : List Byte)
  | call (c : Call)

/-- The manager, the master key and the salt that the cached key of a key id was derived from,
whether the id was rotated since the latest load, and the key given out for it since the latest load
or rotation. -/
structure Watched where
  km : KeyManager
  origin : String → List Byte × List Byte
  rotated : String → Bool
  given : String → Option (List Byte)

/-- The master key that is loaded, empty before the first load. -/
def Watched.master (w : Watched) : List Byte := w.km.masterKey.getD []

def rotationOf (km : KeyManager) : Call → List Byte
  | .rotate _ timeNs _ _ => rotationSalt km.vehicleId timeNs
  | _ => km.vehicleId

def step (w : Watched) : Event → Watched
  | .load contents => ⟨w.km.loadMasterKey contents, w.origin, fun _ => false, fun _ => none⟩
  | .call c =>
    let keyId := keyIdOf c
    let kept := (w.km.derivedKeys.get? keyId).isSome && !rotates c
    { km := w.km.call c
      origin := if kept then w.origin
        else Function.update w.origin keyId (w.master, rotationOf w.km c)
      rotated := if rotates c then Function.update w.rotated keyId true else w.rotated
      given := if rotates c then Function.update w.given keyId none
        else match answer w.km c with
          | .ok key => Function.update w.given keyId (some key)
          | .error _ => w.given }

def start (vehicleId : String) : Watched :=
  ⟨KeyManager.init vehicleId, fun _ => ([], []), fun _ => false, fun _ => none⟩

/-- A key that is given out is the one of the loaded master key if its id was not rotated since the
load, and the one given out before. -/
def Coherent (w : Watched) : Event → Prop
  | .load _ => True
  | .call c => rotates c = false → ∀ key, answer w.km c = .ok key →
      (w.rotated (keyIdOf c) = false → ∃ mk, w.km.masterKey = some mk ∧
        hkdfSha256 mk w.km.vehicleId (utf8 (keyIdOf c)) keyLength = .ok key) ∧
      ∀ earlier, w.given (keyIdOf c) = some earlier → earlier = key

/-- The call gives out a cached key, not rotated since the load, that comes from another master key
or salt. -/
def GivesForeign (w : Watched) : Event → Prop
  | .load _ => False
  | .call c => rotates c = false ∧ w.rotated (keyIdOf c) = false ∧
      (w.km.derivedKeys.get? (keyIdOf c)).isSome = true ∧
      (asksMaster c = true → w.km.loaded ≠ none) ∧
      ¬ SameDerivation w.master w.km.vehicleId (w.origin (keyIdOf c)).1 (w.origin (keyIdOf c)).2
        (keyIdOf c)

/-- Every cached key has its origin, what was given out is still cached, and nothing is before the
first load. -/
structure Traced (w : Watched) : Prop where
  keys : ∀ keyId key, w.km.derivedKeys.get? keyId = some key →
    key = derivedKey (w.origin keyId).1 (w.origin keyId).2 keyId
  given : ∀ keyId key, w.given keyId = some key → w.km.derivedKeys.get? keyId = some key
  unloaded : w.km.masterKey = none → ∀ keyId, w.km.derivedKeys.get? keyId = none

theorem loaded_master {w : Watched} {mk : List Byte} (h : w.km.loaded = some mk) :
    w.km.masterKey = some mk ∧ w.master = mk := by
  rw [KeyManager.loaded, Option.filter_eq_some_iff] at h
  exact ⟨h.1, by rw [Watched.master, h.1, Option.getD_some]⟩

theorem start_traced (vehicleId : String) : Traced (start vehicleId) where
  keys := by
    intro keyId key h
    cases h
  given := by
    intro keyId key h
    cases h
  unloaded := fun _ _ => rfl

theorem load_traced {w : Watched} (contents : List Byte) (h : Traced w) :
    Traced (step w (.load contents)) where
  keys := h.keys
  given := by
    intro keyId key hgiven
    cases hgiven
  unloaded := by
    intro hnone
    cases hnone

/-- A call concerns its own key id. -/
theorem step_other (w : Watched) (c : Call) {other : String} (h : other ≠ keyIdOf c) :
    (step w (.call c)).km.derivedKeys.get? other = w.km.derivedKeys.get? other ∧
      (step w (.call c)).origin other = w.origin other ∧
      (step w (.call c)).given other = w.given other := by
  have horigin : (step w (.call c)).origin other = w.origin other := by
    rw [step]
    dsimp only
    split
    · rfl
    · exact Function.update_of_ne h _ _
  have hgiven : (step w (.call c)).given other = w.given other := by
    rw [step]
    dsimp only
    split
    · exact Function.update_of_ne h _ _
    · cases answer w.km c with
      | ok key => exact Function.update_of_ne h _ _
      | error error => rfl
  refine ⟨?_, horigin, hgiven⟩
  change (w.km.call c).derivedKeys.get? other = _
  by_cases hrotates : rotates c = true
  · cases c with
    | rotate nodeId timeNs createdMs rotatedMs =>
      exact (rotate_get? w.km nodeId timeNs createdMs rotatedMs).1 other h
    | derive | get | broadcast => cases hrotates
  · cases call_lookup w.km (Bool.eq_false_of_not_eq_true hrotates) with
    | cached key _ _ _ hkeys => rw [hkeys]
    | refused error _ _ _ hkeys => rw [hkeys]
    | derived mk _ _ _ hkeys => rw [hkeys, Dict.get?_set_of_ne _ _ _ _ h]

/-- What a call has to leave of its own key id: a cached key has its origin, and that only with a
master key, and the key given out is the cached one. -/
structure TracedAt (w : Watched) (keyId : String) : Prop where
  keys : ∀ key, w.km.derivedKeys.get? keyId = some key →
    w.km.masterKey ≠ none ∧ key = derivedKey (w.origin keyId).1 (w.origin keyId).2 keyId
  given : ∀ key, w.given keyId = some key → w.km.derivedKeys.get? keyId = some key

theorem rotate_own (w : Watched) (nodeId : String) (timeNs createdMs rotatedMs : Nat) :
    TracedAt (step w (.call (.rotate nodeId timeNs createdMs rotatedMs))) (nodeKeyId nodeId) := by
  have hmaster := (call_master w.km (.rotate nodeId timeNs createdMs rotatedMs)).1
  have horigin : (step w (.call (.rotate nodeId timeNs createdMs rotatedMs))).origin
      (nodeKeyId nodeId) = (w.master, rotationSalt w.km.vehicleId timeNs) := by
    simp only [step, rotates, Bool.not_true, Bool.and_false, Bool.false_eq_true, if_false]
    exact Function.update_self _ _ _
  constructor
  · intro key hkey
    obtain ⟨mk, hloaded, hderived⟩ :=
      (rotate_get? w.km nodeId timeNs createdMs rotatedMs).2 key hkey
    obtain ⟨hsome, hmk⟩ := loaded_master hloaded
    rw [horigin, hmk]
    refine ⟨?_, hderived⟩
    exact fun hnone => absurd (hsome.symm.trans (hmaster.symm.trans hnone)) (by simp)
  · intro key hkey
    have hnone : (step w (.call (.rotate nodeId timeNs createdMs rotatedMs))).given
        (nodeKeyId nodeId) = none := Function.update_self _ _ _
    exact absurd (hnone.symm.trans hkey) (by simp)

section Lookups

variable {w : Watched} {c : Call} {key : List Byte}

/-- A key that was cached keeps its origin. -/
theorem step_origin_cached (hrotates : rotates c = false)
    (hget : w.km.derivedKeys.get? (keyIdOf c) = some key) : (step w (.call c)).origin = w.origin := by
  simp only [step, hrotates, hget, Option.isSome_some, Bool.not_false, Bool.and_true, if_true]

/-- The key that a call answers with is the one given out, which has to be the cached one. -/
theorem step_given_answered (hrotates : rotates c = false) (hanswer : answer w.km c = .ok key)
    (hcached : (step w (.call c)).km.derivedKeys.get? (keyIdOf c) = some key) :
    ∀ key', (step w (.call c)).given (keyIdOf c) = some key' →
      (step w (.call c)).km.derivedKeys.get? (keyIdOf c) = some key' := by
  have hgiven : (step w (.call c)).given (keyIdOf c) = some key := by
    simp only [step, hrotates, hanswer, Bool.false_eq_true, if_false]
    exact Function.update_self _ _ _
  intro key' hkey'
  rw [hcached, ← hgiven]
  exact hkey'

/-- What was cached before a call is as it has to be behind it. -/
theorem step_keys_cached (hrotates : rotates c = false) (h : Traced w)
    (hget : w.km.derivedKeys.get? (keyIdOf c) = some key) :
    (step w (.call c)).km.masterKey ≠ none ∧
      key = derivedKey ((step w (.call c)).origin (keyIdOf c)).1
        ((step w (.call c)).origin (keyIdOf c)).2 (keyIdOf c) := by
  have hmaster : (step w (.call c)).km.masterKey = w.km.masterKey := (call_master w.km c).1
  rw [hmaster, step_origin_cached hrotates hget]
  refine ⟨fun hnone => ?_, h.keys _ key hget⟩
  exact absurd ((h.unloaded hnone (keyIdOf c)).symm.trans hget) (by simp)

theorem lookup_own (hrotates : rotates c = false) (h : Traced w) :
    TracedAt (step w (.call c)) (keyIdOf c) := by
  cases call_lookup w.km hrotates with
  | cached key hget hasks hanswer hkeys =>
    have hsame : (step w (.call c)).km.derivedKeys.get? (keyIdOf c) = some key := by
      change (w.km.call c).derivedKeys.get? (keyIdOf c) = some key
      rw [hkeys, hget]
    constructor
    · intro key' hkey'
      obtain rfl := Option.some.inj (hsame.symm.trans hkey')
      exact step_keys_cached hrotates h hget
    · exact step_given_answered hrotates hanswer hsame
  | refused error hnone hget hanswer hkeys =>
    have hgiven : (step w (.call c)).given = w.given := by
      simp only [step, hrotates, hanswer, Bool.false_eq_true, if_false]
    have hsame : (step w (.call c)).km.derivedKeys = w.km.derivedKeys := hkeys
    constructor
    · intro key hkey
      rw [hsame] at hkey
      exact step_keys_cached hrotates h hkey
    · intro key hkey
      rw [hgiven] at hkey
      rw [hsame]
      exact h.given _ key hkey
  | derived mk hmk hget hanswer hkeys =>
    have hmaster : (step w (.call c)).km.masterKey = w.km.masterKey := (call_master w.km c).1
    have hrotation : rotationOf w.km c = w.km.vehicleId := by
      cases c with
      | derive | get | broadcast => rfl
      | rotate => cases hrotates
    obtain ⟨hsome, hmaster'⟩ := loaded_master hmk
    have horigin : (step w (.call c)).origin (keyIdOf c) = (mk, w.km.vehicleId) := by
      simp only [step, hrotates, hget, Option.isSome_none, Bool.false_and, Bool.false_eq_true,
        if_false, hmaster', hrotation]
      exact Function.update_self _ _ _
    have hnew : (step w (.call c)).km.derivedKeys.get? (keyIdOf c) =
        some (derivedKey mk w.km.vehicleId (keyIdOf c)) := by
      change (w.km.call c).derivedKeys.get? (keyIdOf c) = _
      rw [hkeys, Dict.get?_set_self]
    constructor
    · intro key hkey
      rw [hmaster, horigin]
      refine ⟨?_, Option.some.inj (hkey.symm.trans hnew)⟩
      exact fun hnone => absurd (hsome.symm.trans hnone) (by simp)
    · exact step_given_answered hrotates hanswer hnew

end Lookups

theorem call_traced {w : Watched} (c : Call) (h : Traced w) : Traced (step w (.call c)) := by
  have hown : TracedAt (step w (.call c)) (keyIdOf c) := by
    cases hrotates : rotates c with
    | true =>
      cases c with
      | derive | get | broadcast => cases hrotates
      | rotate nodeId timeNs createdMs rotatedMs => exact rotate_own w nodeId _ _ _
    | false => exact lookup_own hrotates h
  constructor
  · intro keyId key hkey
    by_cases hid : keyId = keyIdOf c
    · subst hid
      exact (hown.keys key hkey).2
    · obtain ⟨hget, horigin, -⟩ := step_other w c hid
      rw [horigin]
      exact h.keys keyId key (hget.symm.trans hkey)
  · intro keyId key hkey
    by_cases hid : keyId = keyIdOf c
    · subst hid
      exact hown.given key hkey
    · obtain ⟨hget, -, hgiven⟩ := step_other w c hid
      rw [hget]
      exact h.given keyId key (hgiven.symm.trans hkey)
  · intro hnone keyId
    by_cases hid : keyId = keyIdOf c
    · subst hid
      cases hget : (step w (.call c)).km.derivedKeys.get? (keyIdOf c) with
      | none => rfl
      | some key => exact absurd hnone (hown.keys key hget).1
    · rw [(step_other w c hid).1]
      exact h.unloaded ((call_master w.km c).1.symm.trans hnone) keyId

theorem step_traced (w : Watched) (e : Event) (h : Traced w) : Traced (step w e) := by
  cases e with
  | load contents => exact load_traced contents h
  | call c => exact call_traced c h

/-! ## The keys given out -/

/-- A cached key is the one of the loaded master key just when it was derived the same. -/
theorem cached_belongs_iff {w : Watched} {keyId : String} {key : List Byte} (h : Traced w)
    (hget : w.km.derivedKeys.get? keyId = some key) :
    (∃ mk, w.km.masterKey = some mk ∧
        hkdfSha256 mk w.km.vehicleId (utf8 keyId) keyLength = .ok key) ↔
      SameDerivation w.master w.km.vehicleId (w.origin keyId).1 (w.origin keyId).2 keyId := by
  rw [← derivedKey_eq_iff, ← h.keys keyId key hget, Watched.master]
  cases hmaster : w.km.masterKey with
  | none => exact absurd ((h.unloaded hmaster keyId).symm.trans hget) (by simp)
  | some mk =>
    rw [Option.getD_some]
    constructor
    · rintro ⟨mk', hsame, hkey⟩
      rw [← Option.some.inj hsame, hkdfSha256_derivedKey] at hkey
      exact Except.ok.inj hkey
    · intro hkey
      exact ⟨mk, rfl, by rw [hkdfSha256_derivedKey, hkey]⟩

theorem coherent_iff (w : Watched) (e : Event) (h : Traced w) :
    Coherent w e ↔ ¬ GivesForeign w e := by
  cases e with
  | load contents => exact iff_of_true trivial id
  | call c =>
    rw [Coherent, GivesForeign]
    cases hrotates : rotates c with
    | true => simp
    | false =>
      cases call_lookup w.km hrotates with
      | cached key hget hasks hanswer _ =>
        have hbelongs := cached_belongs_iff h hget
        constructor
        · rintro hcoherent ⟨-, hrotated, -, -, hforeign⟩
          exact hforeign (hbelongs.mp ((hcoherent rfl key hanswer).1 hrotated))
        · intro hnot _ key' hkey'
          obtain rfl := Except.ok.inj (hanswer.symm.trans hkey')
          constructor
          · intro hrotated
            by_contra hforeign
            exact hnot ⟨rfl, hrotated, by rw [hget, Option.isSome_some], hasks,
              fun hsame => hforeign (hbelongs.mpr hsame)⟩
          · intro earlier hearlier
            exact Option.some.inj ((h.given _ _ hearlier).symm.trans hget)
      | refused error hnone hget hanswer _ =>
        apply iff_of_true
        · intro _ key hkey
          rw [hanswer] at hkey
          cases hkey
        · rintro ⟨-, -, hcached, hasks, -⟩
          obtain hmissing | hneeds := hget
          · rw [hmissing] at hcached
            cases hcached
          · exact hasks hneeds hnone
      | derived mk hmk hget hanswer _ =>
        apply iff_of_true
        · intro _ key hkey
          obtain rfl := Except.ok.inj (hanswer.symm.trans hkey)
          constructor
          · exact fun _ => ⟨mk, (loaded_master hmk).1, hkdfSha256_derivedKey _ _ _⟩
          · intro earlier hearlier
            exact absurd (hget.symm.trans (h.given _ _ hearlier)) (by simp)
        · rintro ⟨-, -, hcached, -, -⟩
          rw [hget] at hcached
          cases hcached

/-- Over every run of loads and calls a key given out belongs to the loaded master key, unless its id
was rotated since the load, and is the one given out before exactly as long as no cached key is given
out that was derived from another master key or salt. -/
theorem keys_coherent_iff (vehicleId : String) (events : List Event) :
    Always step (start vehicleId) Coherent events ↔
      Always step (start vehicleId) (fun w e => ¬ GivesForeign w e) events :=
  always_congr (start_traced vehicleId) step_traced coherent_iff events

/-- A node key that is derived before another master key is loaded and asked for behind it. -/
theorem reload_gives_foreign (vehicleId : String) {mk mk' : List Byte} (nodeId : String)
    (hmk : mk.take keyLength ≠ []) (hmk' : mk'.take keyLength ≠ [])
    (hdiffer : derivedKey (mk.take keyLength) (utf8 vehicleId) (nodeKeyId nodeId) ≠
      derivedKey (mk'.take keyLength) (utf8 vehicleId) (nodeKeyId nodeId)) :
    ¬ Always step (start vehicleId) Coherent
      [.load mk, .call (.derive nodeId 0), .load mk', .call (.derive nodeId 1)] := by
  intro h
  have hloads : ∀ (km : KeyManager) (contents : List Byte), contents.take keyLength ≠ [] →
      (km.loadMasterKey contents).loaded = some (contents.take keyLength) := by
    intro km contents hne
    rw [KeyManager.loaded, loadMasterKey]
    simp [hne]
  have hlast := h [.load mk, .call (.derive nodeId 0), .load mk'] (.call (.derive nodeId 1)) [] rfl
  have hcached : (((init vehicleId).loadMasterKey mk).deriveNodeKey nodeId 0).2.derivedKeys.get?
      (nodeKeyId nodeId) =
        some (derivedKey (mk.take keyLength) (utf8 vehicleId) (nodeKeyId nodeId)) := by
    cases derive_lookup ((init vehicleId).loadMasterKey mk) nodeId 0 with
    | cached key hget => cases hget
    | refused error hnone => exact absurd (hnone.symm.trans (hloads _ mk hmk)) (by simp)
    | derived mk'' hmk'' _ _ hkeys =>
      have hsame := Option.some.inj (hmk''.symm.trans (hloads _ mk hmk))
      change (((init vehicleId).loadMasterKey mk).call (.derive nodeId 0)).derivedKeys.get? _ = _
      rw [hkeys, hsame]
      exact Dict.get?_set_self _ _ _
  have hanswer : answer (run step (start vehicleId)
      [.load mk, .call (.derive nodeId 0), .load mk']).km (.derive nodeId 1) =
        .ok (derivedKey (mk.take keyLength) (utf8 vehicleId) (nodeKeyId nodeId)) := by
    change (((((init vehicleId).loadMasterKey mk).deriveNodeKey nodeId 0).2.loadMasterKey
      mk').deriveNodeKey nodeId 1).1 = _
    generalize (((init vehicleId).loadMasterKey mk).deriveNodeKey nodeId 0).2 = km at hcached ⊢
    have hsame : (km.loadMasterKey mk').derivedKeys.get? (nodeKeyId nodeId) = _ := hcached
    simp only [deriveNodeKey, hloads _ _ hmk', hsame]
  obtain ⟨mk'', hmk'', hkey⟩ := (hlast rfl _ hanswer).1 rfl
  obtain rfl := Option.some.inj hmk''
  have hvehicle : (run step (start vehicleId)
      [.load mk, .call (.derive nodeId 0), .load mk']).km.vehicleId = utf8 vehicleId :=
    (call_master ((init vehicleId).loadMasterKey mk) (.derive nodeId 0)).2
  rw [hvehicle, keyIdOf, hkdfSha256_derivedKey] at hkey
  exact hdiffer (Except.ok.inj hkey).symm

/-- A key of the first master key is given out under the second. -/
theorem old_key_given : ¬ Always step (start "sim-vehicle-001") Coherent
    [.load (List.replicate 32 1), .call (.derive "1" 0), .load (List.replicate 32 2),
      .call (.derive "1" 1)] := by
  have hdiffer : derivedKey (List.replicate 32 1) (utf8 "sim-vehicle-001") "node_1" ≠
      derivedKey (List.replicate 32 2) (utf8 "sim-vehicle-001") "node_1" := by
    rw [derivedKey, derivedKey, extract, extract, KeyInterop.hmacSha256_window,
      KeyInterop.hmacSha256_window, KeyInterop.hmacSha256_window, KeyInterop.hmacSha256_window]
    decide +kernel
  exact reload_gives_foreign "sim-vehicle-001" "1" (by decide) (by decide) hdiffer

end Genoh.KeyReload
