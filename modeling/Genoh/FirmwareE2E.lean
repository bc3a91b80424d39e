import Genoh.Crc

/-!
# Firmware end-to-end protection

The node's side of the E2E layer, function by function from `e2e_protection.c`:
the table-driven CRC-32, the 11-byte header, the encoder, the decoder and the
sequence checker. A buffer with its length is a list of bytes; a function that
may return 0 for "nothing written" returns an option.
-/
namespace Genoh.FirmwareE2E

open Genoh.Bytes

/-! ## CRC-32 -/

/-- One turn of the inner loop of `crc32_init_table`. -/
def crc32Turn (c : BitVec 32) : BitVec 32 :=
  if c &&& 1 ≠ 0 then (c >>> 1) ^^^ 0xEDB88320 else c >>> 1

def crc32InitTable : List (BitVec 32) :=
  (List.range 256).map fun i => crc32Turn^[8] (BitVec.ofNat 32 i)

/-- The two static variables of the CRC: once `ready` is set the table is filled. -/
structure Crc32Static where
  table : List (BitVec 32)
  ready : Bool
  filled : ready = true → table = crc32InitTable

/-- Static storage at boot. -/
def Crc32Static.boot : Crc32Static where
  table := List.replicate 256 0
  ready := false
  filled := nofun

/-- The table is filled on the first call only. -/
def Crc32Static.prepare (s : Crc32Static) : Crc32Static :=
  if s.ready then s else ⟨crc32InitTable, true, fun _ => rfl⟩

def crc32Lookup (table : List (BitVec 32)) (crc : BitVec 32) (b : Byte) : BitVec 32 :=
  table.getD ((crc ^^^ b.setWidth 32) &&& 0xFF).toNat 0 ^^^ (crc >>> 8)

/-- One call of `e2e_crc32`, with the static variables before and after it. -/
def e2eCrc32Call (s : Crc32Static) (data : List Byte) : BitVec 32 × Crc32Static :=
  let s := s.prepare
  (data.foldl (crc32Lookup s.table) 0xFFFFFFFF ^^^ 0xFFFFFFFF, s)

/-- The value `e2e_crc32` returns; it does not depend on earlier calls (`e2eCrc32Call_value`). -/
def e2eCrc32 (data : List Byte) : BitVec 32 := (e2eCrc32Call Crc32Static.boot data).1

/-! ## Big-endian helpers -/

def putBe16 (v : BitVec 16) : List Byte := [(v >>> 8).setWidth 8, v.setWidth 8]

def putBe32 (v : BitVec 32) : List Byte :=
  [(v >>> 24).setWidth 8, (v >>> 16).setWidth 8, (v >>> 8).setWidth 8, v.setWidth 8]

def getBe16 (p : List Byte) : BitVec 16 :=
  ((p.getD 0 0).setWidth 16 <<< 8) ||| (p.getD 1 0).setWidth 16

def getBe32 (p : List Byte) : BitVec 32 :=
  ((p.getD 0 0).setWidth 32 <<< 24) ||| ((p.getD 1 0).setWidth 32 <<< 16) |||
    ((p.getD 2 0).setWidth 32 <<< 8) ||| (p.getD 3 0).setWidth 32

/-! ## Messages -/

def e2eHeaderSize : Nat := 11
def dataIdSteering : BitVec 16 := 0x1010
def dataIdHeadlight : BitVec 16 := 0x2010
def dataIdHazard : BitVec 16 := 0x2011
def e2eAsildMaxGap : BitVec 16 := 1

/-- `e2e_status_t`. -/
inductive E2eStatus where
  | ok | errCrc | errSeqRepeated | errSeqGap | errTooShort | errLengthMismatch
  deriving DecidableEq, Repr

/-- `e2e_header_t`. -/
structure E2eHeader where
  dataId : BitVec 16
  sequenceCounter : BitVec 16
  aliveCounter : BitVec 8
  length : BitVec 16
  crc32 : BitVec 32
  deriving DecidableEq, Repr

/-- `e2e_counter_state_t`. -/
structure E2eCounterState where
  seq : BitVec 16
  alive : BitVec 8
  deriving DecidableEq, Repr

/-- `crc_input` holds the seven header bytes and at most 512 payload bytes. -/
def crcInputSize : Nat := 7 + 512

/-- The first seven header bytes. -/
def hdrFields (dataId seq : BitVec 16) (alive : BitVec 8) (length : BitVec 16) : List Byte :=
  putBe16 dataId ++ putBe16 seq ++ [alive] ++ putBe16 length

/-- `e2e_encode`: the bytes written to `out_buf`, none for the return value 0. The counter
has already moved when the payload turns out not to fit the CRC buffer. -/
def e2eEncode (payload : List Byte) (dataId : BitVec 16) (counter : E2eCounterState)
    (outBufSize : Nat) : Option (List Byte) × E2eCounterState :=
  let total := e2eHeaderSize + payload.length
  if outBufSize < total then (none, counter)
  else
    let seq := counter.seq
    let alive := counter.alive
    let counter : E2eCounterState := ⟨counter.seq + 1, counter.alive + 1⟩
    let fields := hdrFields dataId seq alive (BitVec.ofNat 16 payload.length)
    if 7 + payload.length > crcInputSize then (none, counter)
    else (some (fields ++ putBe32 (e2eCrc32 (fields ++ payload)) ++ payload), counter)

/-- The header fields as `e2e_decode` reads them from the buffer. -/
def parseHeader (buf : List Byte) : E2eHeader where
  dataId := getBe16 buf
  sequenceCounter := getBe16 (buf.drop 2)
  aliveCounter := buf.getD 4 0
  length := getBe16 (buf.drop 5)
  crc32 := getBe32 (buf.drop 7)

/-- `e2e_decode`: status, header and payload. The caller's header stays as it was when
the buffer is too short for one, and is filled in on every other path. -/
def e2eDecode (buf : List Byte) (header : E2eHeader) : E2eStatus × E2eHeader × List Byte :=
  if buf.length < e2eHeaderSize then (.errTooShort, header, [])
  else
    let header := parseHeader buf
    if e2eHeaderSize + header.length.toNat ≠ buf.length then (.errLengthMismatch, header, [])
    else if 7 + header.length.toNat > crcInputSize then (.errTooShort, header, [])
    else
      let payload := (buf.drop e2eHeaderSize).take header.length.toNat
      if e2eCrc32 (buf.take 7 ++ payload) ≠ header.crc32 then (.errCrc, header, [])
      else (.ok, header, payload)

/-! ## Sequence checker -/

/-- `e2e_seq_checker_t`; `lastSeq` is -1 until a first message has been seen. -/
structure E2eSeqChecker where
  lastSeq : Int
  maxGap : BitVec 16
  validCount : BitVec 16
  initCount : BitVec 16
  deriving DecidableEq, Repr

def e2eSeqCheckerInit (maxGap : BitVec 16) : E2eSeqChecker := ⟨-1, maxGap, 0, 3⟩

/-- `e2e_seq_check`. A gap is rejected, but the rejected number becomes the last one. -/
def e2eSeqCheck (chk : E2eSeqChecker) (seq : BitVec 16) : E2eStatus × E2eSeqChecker :=
  if chk.lastSeq < 0 then (.ok, { chk with lastSeq := seq.toNat, validCount := 1 })
  else
    let delta := seq - BitVec.ofInt 16 chk.lastSeq
    if delta = 0 then (.errSeqRepeated, chk)
    else if delta ≤ chk.maxGap then
      (.ok, { chk with lastSeq := seq.toNat, validCount := chk.validCount + 1 })
    else (.errSeqGap, { chk with lastSeq := seq.toNat, validCount := 0 })

/-! ## The table-driven CRC -/

theorem crc32Turn_eq (c : BitVec 32) : crc32Turn c = Crc.shift 0xEDB88320 c := by
  have hbit : c &&& 1 ≠ 0 ↔ c.getLsbD 0 = true := by
    rw [show (1 : BitVec 32) = 1#32 by rfl, BitVec.and_one_eq_setWidth_ofBool_getLsbD]
    cases c.getLsbD 0 <;> decide
  simp only [crc32Turn, Crc.shift, hbit]

theorem crc32InitTable_getD (i : Nat) (h : i < 256) :
    crc32InitTable.getD i 0 = (Crc.shift 0xEDB88320)^[8] (BitVec.ofNat 32 i) := by
  have hturn : crc32Turn = Crc.shift 0xEDB88320 := funext crc32Turn_eq
  simp [crc32InitTable, hturn, h, List.getD]

theorem crc32Lookup_eq (crc : BitVec 32) (b : Byte) :
    crc32Lookup crc32InitTable crc b = Crc.crcByte 0xEDB88320 crc b := by
  have hlow : ((crc ^^^ b.setWidth 32) &&& 0xFF).toNat < 256 := by
    rw [BitVec.toNat_and]
    exact Nat.lt_of_le_of_lt Nat.and_le_right (by decide)
  rw [crc32Lookup, crc32InitTable_getD _ hlow, BitVec.ofNat_toNat, BitVec.setWidth_eq,
    Crc.crcByte_table]
  rfl

@[simp] theorem prepare_table (s : Crc32Static) : s.prepare.table = crc32InitTable := by
  unfold Crc32Static.prepare
  split
  · exact s.filled (by assumption)
  · rfl

/-- Every call computes the bitwise CRC-32, whether or not it is the one that fills the table. -/
theorem e2eCrc32Call_value (s : Crc32Static) (data : List Byte) :
    (e2eCrc32Call s data).1 = Crc.crc32 data := by
  have hfold : ∀ crc : BitVec 32, data.foldl (crc32Lookup crc32InitTable) crc =
      data.foldl (Crc.crcByte 0xEDB88320) crc := by
    induction data with
    | nil => intro crc; rfl
    | cons b data ih =>
      intro crc
      rw [List.foldl_cons, List.foldl_cons, crc32Lookup_eq, ih]
  simp only [e2eCrc32Call, prepare_table, hfold]
  rfl

theorem e2eCrc32_eq (data : List Byte) : e2eCrc32 data = Crc.crc32 data :=
  e2eCrc32Call_value Crc32Static.boot data

/-! ## Big-endian helpers as base-256 digits -/

theorem setWidth_ushiftRight_eq {w : Nat} (v : BitVec w) (k : Nat) :
    (v >>> k).setWidth 8 = BitVec.ofNat 8 (v.toNat / 2 ^ k) := by
  apply BitVec.eq_of_toNat_eq
  simp [Nat.shiftRight_eq_div_pow]

theorem putBe16_eq (v : BitVec 16) : putBe16 v = beBytes 2 v.toNat := by
  simp only [putBe16, beBytes, setWidth_ushiftRight_eq, List.nil_append, List.cons_append]
  rfl

theorem putBe32_eq (v : BitVec 32) : putBe32 v = beBytes 4 v.toNat := by
  simp only [putBe32, beBytes, setWidth_ushiftRight_eq, List.nil_append, List.cons_append,
    Nat.div_div_eq_div_mul]
  rfl

/-- Shifting a number up and adding a byte into the free octet. -/
theorem shiftLeft_or_byte {w : Nat} (v : BitVec w) (b : Byte) (h : 256 * v.toNat + b.toNat < 2 ^ w) :
    ((v <<< 8) ||| b.setWidth w).toNat = 256 * v.toNat + b.toNat := by
  have hb : b.toNat < 2 ^ 8 := b.isLt
  have hv : v.toNat <<< 8 = 256 * v.toNat := by rw [Nat.shiftLeft_eq, Nat.mul_comm]
  rw [BitVec.toNat_or, BitVec.toNat_shiftLeft, BitVec.toNat_setWidth, hv,
    Nat.mod_eq_of_lt (by omega), Nat.mod_eq_of_lt (by omega), ← hv,
    ← Nat.shiftLeft_add_eq_or_of_lt hb, hv]

theorem getBe16_eq (p : List Byte) (h : 2 ≤ p.length) :
    (getBe16 p).toNat = ofBeBytes (p.take 2) := by
  match p, h with
  | a :: b :: rest, _ =>
    have ha : a.toNat < 256 := a.isLt
    have hb : b.toNat < 256 := b.isLt
    have haw : (a.setWidth 16).toNat = a.toNat := by simp; omega
    have hlt : 256 * (a.setWidth 16).toNat + b.toNat < 2 ^ 16 := by rw [haw]; omega
    have hget : getBe16 (a :: b :: rest) = (a.setWidth 16 <<< 8) ||| b.setWidth 16 := rfl
    rw [hget, shiftLeft_or_byte _ _ hlt, haw]
    simp [ofBeBytes]

theorem getBe32_eq (p : List Byte) (h : 4 ≤ p.length) :
    (getBe32 p).toNat = ofBeBytes (p.take 4) := by
  match p, h with
  | a :: b :: c :: d :: rest, _ =>
    have ha : a.toNat < 256 := a.isLt
    have hb : b.toNat < 256 := b.isLt
    have hc : c.toNat < 256 := c.isLt
    have hd : d.toNat < 256 := d.isLt
    have haw : (a.setWidth 32).toNat = a.toNat := by simp; omega
    have h1 := shiftLeft_or_byte (a.setWidth 32) b (by omega)
    have h2 := shiftLeft_or_byte (a.setWidth 32 <<< 8 ||| b.setWidth 32) c (by omega)
    have h3 := shiftLeft_or_byte ((a.setWidth 32 <<< 8 ||| b.setWidth 32) <<< 8 ||| c.setWidth 32) d
      (by omega)
    have hget : getBe32 (a :: b :: c :: d :: rest) =
        ((a.setWidth 32 <<< 8 ||| b.setWidth 32) <<< 8 ||| c.setWidth 32) <<< 8 ||| d.setWidth 32 := by
      simp only [getBe32, BitVec.shiftLeft_or_distrib, ← BitVec.shiftLeft_add]
      rfl
    rw [hget, h3, h2, h1, haw]
    simp [ofBeBytes]

end Genoh.FirmwareE2E
