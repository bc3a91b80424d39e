import Genoh.E2EInterop
import Genoh.MasterSupervisor
import Genoh.Run

/-!
# Fault-free sensor streams

Nodes send over their own keys, each with the counter that belongs to the key, and every
key carries its messages in order to one supervisor. The deliveries of different keys
interleave freely. The sender counts by key and the receiver by data id.
-/
namespace Genoh.SensorStreams

open Genoh.Bytes Genoh.Run Genoh.OrderedDict Genoh.E2EWire Genoh.MasterE2E Genoh.MasterSupervisor

/-! ## Sender -/

/-- `_get_counter`. -/
def getCounter (counters : Dict String SequenceCounterState) (keyExpr : String) :
    SequenceCounterState := (counters.get? keyExpr).getD {}

/-- `encode_e2e` on the serialised payload. -/
def encodeE2e (payload : List Byte) (keyExpr : String) (counter : SequenceCounterState) :
    Except PyError (List Byte) × SequenceCounterState :=
  match resolveDataId keyExpr with
  | .error error => (.error error, counter)
  | .ok dataId => e2eEncode dataId payload counter

/-! ## Bus -/

/-- The counters of the senders, the messages under way on each key and the receiver. -/
structure Bus where
  counters : Dict String SequenceCounterState
  inFlight : String → List (List Byte)
  sup : E2ESupervisor

inductive Event where
  | send (keyExpr : String) (payload : List Byte)
  | deliver (keyExpr : String) (now : ℚ)

def send (bus : Bus) (keyExpr : String) (payload : List Byte) : Bus :=
  let sent := encodeE2e payload keyExpr (getCounter bus.counters keyExpr)
  { bus with
    counters := bus.counters.set keyExpr sent.2
    inFlight := Function.update bus.inFlight keyExpr
      (bus.inFlight keyExpr ++ sent.1.toOption.toList) }

/-- The oldest message of the key reaches the supervisor. -/
def deliver (bus : Bus) (keyExpr : String) (now : ℚ) : Bus :=
  match bus.inFlight keyExpr with
  | [] => bus
  | wire :: rest =>
    let bus := { bus with inFlight := Function.update bus.inFlight keyExpr rest }
    match e2eDecode wire with
    | .error _ => bus
    | .ok (header, payload) => { bus with sup := (onMessageReceived bus.sup header payload now).1 }

def step (bus : Bus) : Event → Bus
  | .send keyExpr payload => send bus keyExpr payload
  | .deliver keyExpr now => deliver bus keyExpr now

/-- The arguments of `register_channel`. -/
structure Registration where
  dataId : Nat
  deadlineMs : Int
  maxSeqGap : Nat

def register (registrations : List Registration) (now : ℚ) : E2ESupervisor :=
  registrations.foldl (fun sup r => registerChannel sup r.dataId r.deadlineMs r.maxSeqGap now)
    E2ESupervisor.init

def start (registrations : List Registration) (now : ℚ) : Bus :=
  ⟨Dict.empty, fun _ => [], register registrations now⟩

/-! ## Alarms -/

/-- A delivered message is in sequence, its channel ends neither INVALID nor ERROR, and no
fault is reported. -/
def Unalarmed (sup : E2ESupervisor) (wire : List Byte) (now : ℚ) : Prop :=
  ∃ header payload ch, e2eDecode wire = .ok (header, payload) ∧
    sup.channels.get? header.dataId = some ch ∧
    ((ch.seqChecker.check header.sequenceCounter).1 = .init ∨
      (ch.seqChecker.check header.sequenceCounter).1 = .ok) ∧
    (∀ faultType source details,
      Call.notifyFault faultType source details ∉ (onMessageReceived sup header payload now).2.1) ∧
    ∃ status, (onMessageReceived sup header payload now).2.2 = .returned status ∧
      status ≠ .invalid ∧ status ≠ .error

def NoAlarm (bus : Bus) (e : Event) : Prop :=
  ∀ keyExpr now, e = .deliver keyExpr now → ∀ wire ∈ (bus.inFlight keyExpr).head?,
    Unalarmed bus.sup wire now

/-- The traffic of a set of keys, with payloads that the length field can express. -/
def OnKeys (keys : Finset String) : Event → Prop
  | .send keyExpr payload => keyExpr ∈ keys ∧ payload.length < 65536
  | .deliver keyExpr _ => keyExpr ∈ keys

/-- No two keys share a data id. -/
def DistinctIds (keys : Finset String) : Prop :=
  ∀ key₁ ∈ keys, ∀ key₂ ∈ keys, ∀ dataId, resolveDataId key₁ = .ok dataId →
    resolveDataId key₂ = .ok dataId → key₁ = key₂

/-! ## Registrations -/

theorem register_fresh (registrations : List Registration) (now : ℚ) (dataId : Nat)
    (h : dataId ∈ registrations.map (·.dataId)) :
    ∃ ch, (register registrations now).channels.get? dataId = some ch ∧ HasSeen ch.seqChecker 0 := by
  induction registrations using List.reverseRecOn with
  | nil => cases h
  | append_singleton registrations r ih =>
    have hlast : (register (registrations ++ [r]) now).channels.get? dataId =
        if dataId = r.dataId then some (newChannel r.dataId r.deadlineMs r.maxSeqGap now)
        else (register registrations now).channels.get? dataId := by
      rw [register, List.foldl_append]
      exact Dict.get?_set _ _ _ _
    rw [hlast]
    split
    · exact ⟨_, rfl, rfl⟩
    · rename_i hne
      rw [List.map_append, List.mem_append] at h
      exact ih (h.resolve_right (by simpa using hne))

/-! ## One key -/

/-- Messages numbered from `n` on. -/
def stream (dataId : Nat) : Nat → List (List Byte) → List (List Byte)
  | _, [] => []
  | n, payload :: payloads => frame dataId (n % 65536) (n % 256) payload :: stream dataId (n + 1) payloads

theorem stream_concat (dataId n : Nat) (payloads : List (List Byte)) (payload : List Byte) :
    stream dataId n (payloads ++ [payload]) = stream dataId n payloads ++
      [frame dataId ((n + payloads.length) % 65536) ((n + payloads.length) % 256) payload] := by
  induction payloads generalizing n with
  | nil => rfl
  | cons p payloads ih =>
    have hlen : n + 1 + payloads.length = n + (p :: payloads).length := by
      rw [List.length_cons]
      omega
    rw [List.cons_append, stream, ih, hlen, stream, List.cons_append]

/-- The key's messages under way are the stream from the first one its channel has not seen
up to the sender's counter. -/
structure Carried (bus : Bus) (keyExpr : String) (dataId : Nat) : Prop where
  carries : ∃ n payloads ch, bus.inFlight keyExpr = stream dataId n payloads ∧
    getCounter bus.counters keyExpr =
      ⟨(n + payloads.length) % 65536, (n + payloads.length) % 256⟩ ∧
    bus.sup.channels.get? dataId = some ch ∧ HasSeen ch.seqChecker n

theorem getCounter_set (counters : Dict String SequenceCounterState) (keyExpr key : String)
    (counter : SequenceCounterState) :
    getCounter (counters.set keyExpr counter) key =
      if key = keyExpr then counter else getCounter counters key := by
  rw [getCounter, Dict.get?_set]
  split <;> rfl

/-- A key that no one sends on and whose channel no one reaches is carried as before. -/
theorem Carried.frame {bus bus' : Bus} {keyExpr : String} {dataId : Nat}
    (h : Carried bus keyExpr dataId) (hflight : bus'.inFlight keyExpr = bus.inFlight keyExpr)
    (hcounter : getCounter bus'.counters keyExpr = getCounter bus.counters keyExpr)
    (hchannel : bus'.sup.channels.get? dataId = bus.sup.channels.get? dataId) :
    Carried bus' keyExpr dataId := by
  obtain ⟨n, payloads, ch, hstream, hcount, hch, hseen⟩ := h.carries
  exact ⟨n, payloads, ch, hflight.trans hstream, hcounter.trans hcount, hchannel.trans hch, hseen⟩

/-- What one send does, for a key with a data id. -/
theorem send_eq (bus : Bus) (keyExpr : String) (payload : List Byte) (dataId seq alive : Nat)
    (hid : resolveDataId keyExpr = .ok dataId) (hcounter : getCounter bus.counters keyExpr = ⟨seq, alive⟩)
    (hseq : seq < 65536) (halive : alive < 256) (hlen : payload.length < 65536) :
    send bus keyExpr payload =
      { bus with
        counters := bus.counters.set keyExpr ⟨(seq + 1) % 65536, (alive + 1) % 256⟩
        inFlight := Function.update bus.inFlight keyExpr
          (bus.inFlight keyExpr ++ [frame dataId seq alive payload]) } := by
  have hsent : encodeE2e payload keyExpr ⟨seq, alive⟩ =
      (.ok (frame dataId seq alive payload), ⟨(seq + 1) % 65536, (alive + 1) % 256⟩) := by
    rw [encodeE2e, hid]
    exact E2EInterop.master_encode dataId payload ⟨seq, alive⟩ (resolveDataId_lt hid) hseq halive hlen
  simp only [send, hcounter, hsent]
  rfl

theorem send_carried (bus : Bus) (keyExpr : String) (payload : List Byte) (dataId : Nat)
    (hid : resolveDataId keyExpr = .ok dataId) (hlen : payload.length < 65536)
    (h : Carried bus keyExpr dataId) : Carried (send bus keyExpr payload) keyExpr dataId := by
  obtain ⟨n, payloads, ch, hstream, hcount, hch, hseen⟩ := h.carries
  have hsend := send_eq bus keyExpr payload dataId _ _ hid hcount (Nat.mod_lt _ (by decide))
    (Nat.mod_lt _ (by decide)) hlen
  refine ⟨n, payloads ++ [payload], ch, ?_, ?_, ?_, hseen⟩
  · rw [hsend]
    simp only [Function.update_self]
    rw [hstream, stream_concat]
  · rw [hsend]
    simp only [getCounter_set, if_true, List.length_append, List.length_singleton]
    congr 1 <;> omega
  · rw [hsend]
    exact hch

/-- What a delivery does: the oldest message is in order, and its channel counts on. -/
theorem deliver_carried (bus : Bus) (keyExpr : String) (now : ℚ) (dataId n : Nat)
    (payload : List Byte) (payloads : List (List Byte)) (ch : E2EChannelState)
    (hid : dataId < 65536) (hstream : bus.inFlight keyExpr = stream dataId n (payload :: payloads))
    (hch : bus.sup.channels.get? dataId = some ch) (hseen : HasSeen ch.seqChecker n) :
    ∃ ch', deliver bus keyExpr now =
        { bus with
          inFlight := Function.update bus.inFlight keyExpr (stream dataId (n + 1) payloads)
          sup := ⟨bus.sup.channels.set dataId ch'⟩ } ∧
      HasSeen ch'.seqChecker (n + 1) ∧
      Unalarmed bus.sup (frame dataId (n % 65536) (n % 256) payload) now := by
  obtain ⟨header, hdecode, hdataId, hseq, -, hverify⟩ :=
    E2EInterop.master_decode_frame dataId (n % 65536) (n % 256) payload hid
      (Nat.mod_lt _ (by decide)) (Nat.mod_lt _ (by decide))
  obtain ⟨hseen', hquiet⟩ := receiveOn_next ch header payload now n hseen hseq hverify
  have hreceived : onMessageReceived bus.sup header payload now =
      (⟨bus.sup.channels.set dataId (receiveOn ch header payload now).1⟩, [], .returned .valid) := by
    simp only [onMessageReceived, hdataId, hch, hquiet]
  refine ⟨(receiveOn ch header payload now).1, ?_, hseen', header, payload, ch, hdecode, ?_, ?_, ?_, ?_⟩
  · simp only [deliver, hstream, stream, hdecode, hreceived]
  · rw [hdataId]
    exact hch
  · rw [hseq]
    exact (check_next ch.seqChecker n hseen).1
  · rw [hreceived]
    exact fun _ _ _ => List.not_mem_nil
  · rw [hreceived]
    exact ⟨.valid, rfl, by decide, by decide⟩

/-! ## All keys -/

/-- Every key with a data id is carried, and nothing is under way on the others. -/
def AllCarried (keys : Finset String) (bus : Bus) : Prop :=
  ∀ keyExpr ∈ keys, match resolveDataId keyExpr with
    | .ok dataId => Carried bus keyExpr dataId
    | .error _ => bus.inFlight keyExpr = []

theorem AllCarried.carried {keys : Finset String} {bus : Bus} (h : AllCarried keys bus)
    {keyExpr : String} (hkey : keyExpr ∈ keys) {dataId : Nat}
    (hid : resolveDataId keyExpr = .ok dataId) : Carried bus keyExpr dataId := by
  have hcarried := h keyExpr hkey
  rwa [hid] at hcarried

/-- A key that neither a send nor a delivery concerns stays as it is. -/
theorem AllCarried.frame {keys : Finset String} {bus bus' : Bus} (h : AllCarried keys bus)
    {key : String} (hkey : key ∈ keys) (hflight : bus'.inFlight key = bus.inFlight key)
    (hcounter : getCounter bus'.counters key = getCounter bus.counters key)
    (hchannel : ∀ dataId, resolveDataId key = .ok dataId →
      bus'.sup.channels.get? dataId = bus.sup.channels.get? dataId) :
    match resolveDataId key with
    | .ok dataId => Carried bus' key dataId
    | .error _ => bus'.inFlight key = [] := by
  cases hid : resolveDataId key with
  | error error =>
    have hidle : bus.inFlight key = [] := by simpa only [hid] using h key hkey
    exact hflight.trans hidle
  | ok dataId => exact (h.carried hkey hid).frame hflight hcounter (hchannel dataId hid)

theorem start_allCarried (keys : Finset String) (registrations : List Registration) (now : ℚ)
    (hregistered : ∀ keyExpr ∈ keys, ∀ dataId, resolveDataId keyExpr = .ok dataId →
      dataId ∈ registrations.map (·.dataId)) :
    AllCarried keys (start registrations now) := by
  intro keyExpr hkey
  cases hid : resolveDataId keyExpr with
  | error error => rfl
  | ok dataId =>
    obtain ⟨ch, hch, hseen⟩ :=
      register_fresh registrations now dataId (hregistered keyExpr hkey dataId hid)
    exact ⟨0, [], ch, rfl, rfl, hch, hseen⟩

theorem send_allCarried (keys : Finset String) (bus : Bus) (keyExpr : String)
    (payload : List Byte) (hlen : payload.length < 65536) (h : AllCarried keys bus) :
    AllCarried keys (send bus keyExpr payload) := by
  intro key hkey
  by_cases hsame : key = keyExpr
  · subst hsame
    cases hid : resolveDataId key with
    | error error =>
      have hidle : bus.inFlight key = [] := by simpa only [hid] using h key hkey
      simp [send, encodeE2e, hid, hidle, Except.toOption]
    | ok dataId => exact send_carried bus key payload dataId hid hlen (h.carried hkey hid)
  · have hcounter : getCounter (send bus keyExpr payload).counters key =
        getCounter bus.counters key := by
      rw [send, getCounter_set, if_neg hsame]
    exact h.frame hkey (Function.update_of_ne hsame _ _) hcounter fun _ _ => rfl

/-- A delivery on one key leaves the others alone because their channels are others. -/
theorem deliver_allCarried (keys : Finset String) (hids : DistinctIds keys) (bus : Bus)
    (keyExpr : String) (now : ℚ) (hon : keyExpr ∈ keys) (h : AllCarried keys bus) :
    AllCarried keys (deliver bus keyExpr now) ∧ NoAlarm bus (.deliver keyExpr now) := by
  have hnone : bus.inFlight keyExpr = [] →
      AllCarried keys (deliver bus keyExpr now) ∧ NoAlarm bus (.deliver keyExpr now) := by
    intro hempty
    refine ⟨by rwa [show deliver bus keyExpr now = bus by simp only [deliver, hempty]], ?_⟩
    rintro _ _ ⟨⟩ wire hwire
    simp [hempty] at hwire
  cases hid : resolveDataId keyExpr with
  | error error => exact hnone (by simpa only [hid] using h keyExpr hon)
  | ok dataId =>
    obtain ⟨n, payloads, ch, hstream, hcount, hch, hseen⟩ := (h.carried hon hid).carries
    cases payloads with
    | nil => exact hnone hstream
    | cons payload payloads =>
      obtain ⟨ch', hdeliver, hseen', hquiet⟩ := deliver_carried bus keyExpr now dataId n payload
        payloads ch (resolveDataId_lt hid) hstream hch hseen
      refine ⟨fun key hkey => ?_, ?_⟩
      · rw [hdeliver]
        by_cases hsame : key = keyExpr
        · subst hsame
          rw [hid]
          have hlen : n + (payload :: payloads).length = n + 1 + payloads.length := by
            rw [List.length_cons]
            omega
          rw [hlen] at hcount
          exact ⟨n + 1, payloads, ch', Function.update_self _ _ _, hcount,
            Dict.get?_set_self _ _ _, hseen'⟩
        · refine h.frame hkey (Function.update_of_ne hsame _ _) rfl fun dataId' hid' => ?_
          have hother : dataId' ≠ dataId := by
            rintro rfl
            exact hsame (hids key hkey keyExpr hon _ hid' hid)
          exact Dict.get?_set_of_ne _ _ _ _ hother
      · rintro _ _ ⟨⟩ wire hwire
        simp only [hstream, stream, List.head?_cons, Option.mem_some_iff] at hwire
        rw [← hwire]
        exact hquiet

/-- Keys with data ids of their own never raise an alarm. -/
theorem no_alarm_of_distinct (keys : Finset String) (registrations : List Registration) (now : ℚ)
    (hregistered : ∀ keyExpr ∈ keys, ∀ dataId, resolveDataId keyExpr = .ok dataId →
      dataId ∈ registrations.map (·.dataId)) (hids : DistinctIds keys) (events : List Event)
    (hon : ∀ e ∈ events, OnKeys keys e) : Always step (start registrations now) NoAlarm events := by
  have keep : ∀ bus e, OnKeys keys e → AllCarried keys bus → AllCarried keys (step bus e) := by
    intro bus e he h
    cases e with
    | send keyExpr payload => exact send_allCarried keys bus keyExpr payload he.2 h
    | deliver keyExpr time => exact (deliver_allCarried keys hids bus keyExpr time he h).1
  have give : ∀ bus e, OnKeys keys e → AllCarried keys bus → NoAlarm bus e := by
    intro bus e he h
    cases e with
    | send keyExpr payload => exact nofun
    | deliver keyExpr time => exact (deliver_allCarried keys hids bus keyExpr time he h).2
  exact always_of_invariant (start_allCarried keys registrations now hregistered) keep give events hon

/-! ## Two keys with one data id -/

/-- Both keys send their first message, and the first key's is delivered. -/
def firstMessages (key₁ key₂ : String) : List Event :=
  [.send key₁ [], .send key₂ [], .deliver key₁ 0]

/-- A number that the channel has just seen is an alarm. -/
theorem repeated_alarms (sup : E2ESupervisor) (dataId seq alive : Nat) (payload : List Byte)
    (now : ℚ) (ch : E2EChannelState) (hid : dataId < 65536) (hseq : seq < 65536) (halive : alive < 256)
    (hch : sup.channels.get? dataId = some ch) (hlast : ch.seqChecker.lastSeq = some seq) :
    ¬ Unalarmed sup (frame dataId seq alive payload) now := by
  rintro ⟨header', payload', ch', hdecode', hch', hverdict, -⟩
  obtain ⟨header, hdecode, hdataId, hheader, -, -⟩ :=
    E2EInterop.master_decode_frame dataId seq alive payload hid hseq halive
  rw [hdecode] at hdecode'
  cases hdecode'
  rw [hdataId, hch] at hch'
  cases hch'
  simp [hheader, SequenceChecker.check, hlast] at hverdict

/-- The second key's first message repeats the number its channel has just seen. -/
theorem shared_id_alarms (registrations : List Registration) (now : ℚ) (key₁ key₂ : String)
    (dataId : Nat) (hne : key₁ ≠ key₂) (hid₁ : resolveDataId key₁ = .ok dataId)
    (hid₂ : resolveDataId key₂ = .ok dataId) (hregistered : dataId ∈ registrations.map (·.dataId)) :
    ¬ NoAlarm (run step (start registrations now) (firstMessages key₁ key₂)) (.deliver key₂ 0) := by
  obtain ⟨ch, hch, hseen⟩ := register_fresh registrations now dataId hregistered
  have hsend₁ := send_eq (start registrations now) key₁ [] dataId 0 0 hid₁ rfl
    (by decide) (by decide) (by decide)
  have hcount : getCounter (send (start registrations now) key₁ []).counters key₂ = ⟨0, 0⟩ := by
    rw [send, getCounter_set, if_neg hne.symm]
    rfl
  have hsend₂ := send_eq _ key₂ [] dataId 0 0 hid₂ hcount (by decide) (by decide) (by decide)
  have hflight : ∀ key, key = key₁ ∨ key = key₂ →
      (send (send (start registrations now) key₁ []) key₂ []).inFlight key =
        stream dataId 0 [[]] := by
    rintro key (rfl | rfl)
    · rw [hsend₂, hsend₁]
      simp [Function.update_of_ne hne, start, stream]
    · rw [hsend₂, hsend₁]
      simp [Function.update_of_ne hne.symm, start, stream]
  obtain ⟨ch', hdeliver, hseen', -⟩ := deliver_carried
    (send (send (start registrations now) key₁ []) key₂ []) key₁ 0 dataId 0 [] [] ch
    (resolveDataId_lt hid₁) (hflight key₁ (.inl rfl)) hch hseen
  intro hquiet
  have hwire := hquiet key₂ 0 rfl (frame dataId 0 0 []) (by
    simp only [firstMessages, run_cons, run_nil, step, hdeliver]
    rw [Function.update_of_ne hne.symm, hflight key₂ (.inr rfl)]
    rfl)
  refine repeated_alarms _ dataId 0 0 [] 0 ch' (resolveDataId_lt hid₁) (by decide) (by decide)
    ?_ hseen' hwire
  simp only [firstMessages, run_cons, run_nil, step, hdeliver]
  exact Dict.get?_set_self _ _ _

/-- `firstMessages` is traffic of the two keys. -/
theorem firstMessages_onKeys (keys : Finset String) (key₁ key₂ : String) (hkey₁ : key₁ ∈ keys)
    (hkey₂ : key₂ ∈ keys) : ∀ e ∈ firstMessages key₁ key₂ ++ [.deliver key₂ 0], OnKeys keys e := by
  intro e he
  simp only [firstMessages, List.cons_append, List.nil_append, List.mem_cons, List.not_mem_nil,
    or_false] at he
  obtain rfl | rfl | rfl | rfl := he
  · exact ⟨hkey₁, by decide⟩
  · exact ⟨hkey₂, by decide⟩
  · exact hkey₁
  · exact hkey₂

/-- Two keys that share a data id have fault-free traffic that alarms. -/
theorem shared_id_not_always (keys : Finset String) (registrations : List Registration) (now : ℚ)
    (key₁ key₂ : String) (dataId : Nat) (hne : key₁ ≠ key₂) (hkey₁ : key₁ ∈ keys)
    (hkey₂ : key₂ ∈ keys) (hid₁ : resolveDataId key₁ = .ok dataId)
    (hid₂ : resolveDataId key₂ = .ok dataId) (hregistered : dataId ∈ registrations.map (·.dataId)) :
    ¬ ∀ events, (∀ e ∈ events, OnKeys keys e) →
      Always step (start registrations now) NoAlarm events := by
  intro hall
  have hquiet := hall _ (firstMessages_onKeys keys key₁ key₂ hkey₁ hkey₂) _ _ [] rfl
  exact shared_id_alarms registrations now key₁ key₂ dataId hne hid₁ hid₂ hregistered hquiet

/-! ## No false alarms -/

/-- Fault-free traffic of a set of registered keys never alarms, however it interleaves, just
when every key has a data id of its own. -/
theorem no_false_alarm_iff (keys : Finset String) (registrations : List Registration) (now : ℚ)
    (hregistered : ∀ keyExpr ∈ keys, ∀ dataId, resolveDataId keyExpr = .ok dataId →
      dataId ∈ registrations.map (·.dataId)) :
    (∀ events, (∀ e ∈ events, OnKeys keys e) →
      Always step (start registrations now) NoAlarm events) ↔ DistinctIds keys := by
  constructor
  · intro hall key₁ hkey₁ key₂ hkey₂ dataId hid₁ hid₂
    by_contra hne
    exact shared_id_not_always keys registrations now key₁ key₂ dataId hne hkey₁ hkey₂ hid₁ hid₂
      (hregistered key₁ hkey₁ dataId hid₁) hall
  · intro hids events hon
    exact no_alarm_of_distinct keys registrations now hregistered hids events hon

/-- The temperature sensors of two nodes in one zone. -/
def twoThermometers : Finset String :=
  {"vehicle/front_left/1/sensor/temperature", "vehicle/front_left/2/sensor/temperature"}

theorem twoThermometers_ids : ∀ keyExpr ∈ twoThermometers, resolveDataId keyExpr = .ok 0x1001 := by
  decide +kernel

theorem no_false_alarm_iff_two_thermometers :
    (∀ keyExpr ∈ twoThermometers, ∀ dataId, resolveDataId keyExpr = .ok dataId →
      dataId ∈ [(⟨0x1001, 5000, 3⟩ : Registration)].map (·.dataId)) ∧
    ((∀ events, (∀ e ∈ events, OnKeys twoThermometers e) →
      Always step (start [⟨0x1001, 5000, 3⟩] 0) NoAlarm events) ↔ DistinctIds twoThermometers) := by
  have hregistered : ∀ keyExpr ∈ twoThermometers, ∀ dataId, resolveDataId keyExpr = .ok dataId →
      dataId ∈ [(⟨0x1001, 5000, 3⟩ : Registration)].map (·.dataId) := by
    intro keyExpr hkey dataId hid
    rw [twoThermometers_ids keyExpr hkey] at hid
    cases hid
    decide
  exact ⟨hregistered, no_false_alarm_iff twoThermometers _ 0 hregistered⟩

/-- The second thermometer of a zone is taken for a replay of the first. -/
theorem two_thermometers_alarm :
    ¬ ∀ events, (∀ e ∈ events, OnKeys twoThermometers e) →
      Always step (start [⟨0x1001, 5000, 3⟩] 0) NoAlarm events := by
  have hkey₁ : "vehicle/front_left/1/sensor/temperature" ∈ twoThermometers := by decide
  have hkey₂ : "vehicle/front_left/2/sensor/temperature" ∈ twoThermometers := by decide
  exact shared_id_not_always twoThermometers _ 0 _ _ 0x1001 (by decide) hkey₁ hkey₂
    (twoThermometers_ids _ hkey₁) (twoThermometers_ids _ hkey₂) (by decide)

end Genoh.SensorStreams
