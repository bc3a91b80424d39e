import Genoh.Hmac

/-!
# The SecOC wire format

Data, then eight freshness bytes (a 48-bit timestamp and a 16-bit counter), then
the first sixteen bytes of the HMAC-SHA-256 of both.
-/
namespace Genoh.SecOCWire

open Genoh.Bytes

def freshness (ts counter : Nat) : List Byte := beBytes 6 ts ++ beBytes 2 counter

def mac (key data : List Byte) (ts counter : Nat) : List Byte :=
  (Hmac.hmacSha256 key (data ++ freshness ts counter)).take 16

/-- The protected message. -/
def secured (key data : List Byte) (ts counter : Nat) : List Byte :=
  data ++ (freshness ts counter ++ mac key data ts counter)

/-- Everything in front of the 24-byte trailer. -/
def body (raw : List Byte) : List Byte := raw.take (raw.length - 24)

def timestamp (raw : List Byte) : Nat := field raw (raw.length - 24) 6

def counter (raw : List Byte) : Nat := field raw (raw.length - 18) 2

/-- The last sixteen bytes are the MAC of what is in front of them. -/
def MacHolds (key raw : List Byte) : Prop :=
  raw.drop (raw.length - 16) = mac key (body raw) (timestamp raw) (counter raw)

instance (key raw : List Byte) : Decidable (MacHolds key raw) := inferInstanceAs (Decidable (_ = _))

@[simp] theorem freshness_length (ts counter : Nat) : (freshness ts counter).length = 8 := by
  simp [freshness]

@[simp] theorem mac_length (key data : List Byte) (ts counter : Nat) :
    (mac key data ts counter).length = 16 := by simp [mac]

@[simp] theorem secured_length (key data : List Byte) (ts counter : Nat) :
    (secured key data ts counter).length = data.length + 24 := by simp [secured]

section Parse

variable (key data : List Byte) (ts ctr : Nat)

@[simp] theorem secured_body : body (secured key data ts ctr) = data := by
  rw [body, secured_length, Nat.add_sub_cancel]
  exact List.take_left' rfl

/-- A field of the trailer does not depend on the data in front of it. -/
theorem field_secured (i n : Nat) :
    field (secured key data ts ctr) (data.length + i) n =
      field (freshness ts ctr ++ mac key data ts ctr) i n := by
  rw [field, field, secured, List.drop_append, List.drop_of_length_le (by omega)]
  simp

theorem secured_timestamp (h : ts < 256 ^ 6) : timestamp (secured key data ts ctr) = ts := by
  have hfield := field_secured key data ts ctr 0 6
  rw [timestamp, secured_length, show data.length + 24 - 24 = data.length + 0 by omega, hfield,
    freshness, List.append_assoc]
  exact field_head 6 ts _ h

theorem secured_counter (h : ctr < 256 ^ 2) : counter (secured key data ts ctr) = ctr := by
  have hfield := field_secured key data ts ctr 6 2
  rw [counter, secured_length, show data.length + 24 - 18 = data.length + 6 by omega, hfield,
    freshness, List.append_assoc, field_skip 6 _ _ _ _ (by decide)]
  exact field_head 2 ctr _ h

theorem secured_macHolds (ht : ts < 256 ^ 6) (hc : ctr < 256 ^ 2) :
    MacHolds key (secured key data ts ctr) := by
  rw [MacHolds, secured_body, secured_timestamp key data ts ctr ht,
    secured_counter key data ts ctr hc, secured_length, secured, ← List.append_assoc]
  exact List.drop_left' (by simp)

end Parse

theorem timestamp_lt (raw : List Byte) : timestamp raw < 256 ^ 6 := field_lt _ _ _

theorem counter_lt (raw : List Byte) : counter raw < 256 ^ 2 := field_lt _ _ _

/-- The freshness bytes spell the timestamp and the counter. -/
theorem freshness_bytes (raw : List Byte) (h : 24 ≤ raw.length) :
    (raw.drop (raw.length - 24)).take 8 = freshness (timestamp raw) (counter raw) := by
  have hnext : raw.length - 18 = raw.length - 24 + 6 := by omega
  rw [freshness, timestamp, counter, beBytes_field _ _ _ (by omega),
    beBytes_field _ _ _ (by omega), show (8 : Nat) = 6 + 2 by rfl, List.take_add, List.drop_drop,
    hnext]

end Genoh.SecOCWire
