import Genoh.Bytes

/-!
# Reads and writes of the Harmony port

`_z_read_tcp`, `_z_read_exact_tcp` and `_z_send_tcp` of `harmony/network.c`, over any schedule of
what the native socket answers to one poll after the other. `size_t` has 32 bits.
-/
namespace Genoh.HarmonyStream

open Genoh.Bytes

/-! ## The native socket -/

/-- What has changed at a poll, and what the socket answers to it. -/
structure Round where
  arrives : List Byte
  connected : Bool
  space : BitVec 16
  deriving DecidableEq, Repr

/-- The number of polls so far, what has arrived and not been read, and what has been put. -/
structure Socket where
  time : Nat
  unread : List Byte
  sent : List Byte
  deriving DecidableEq, Repr

def sizeMax : Nat := 4294967295

/-- `(uint16_t)len`. -/
def toUint16 (len : Nat) : Nat := len % 65536

variable (rounds : Nat → Round)

def Socket.round (s : Socket) : Round := rounds s.time

/-- The socket after the poll. -/
def Socket.pass (s : Socket) : Socket :=
  { s with time := s.time + 1, unread := s.unread ++ (s.round rounds).arrives }

/-- `TCPIP_TCP_GetIsReady`. -/
def getIsReady (s : Socket) : Nat := min s.unread.length 65535

/-- What `TCPIP_TCP_ArrayGet` moves into the caller's buffer. -/
def Socket.arrayGet (s : Socket) (n : Nat) : List Byte × Socket :=
  (s.unread.take n, { s with unread := s.unread.drop n })

/-- `TCPIP_TCP_ArrayPut` from memory. -/
def Socket.arrayPut (s : Socket) (ptr : Nat → Byte) (n : Nat) : Socket :=
  { s with sent := s.sent ++ (List.range n).map ptr }

/-! ## Reading -/

/-- How a call that reads ends: its return value, the bytes it has written from `ptr` on, and the
socket. -/
structure Reading where
  result : Nat
  written : List Byte
  socket : Socket
  deriving DecidableEq, Repr

def readTries (len : Nat) : Nat → Socket → Reading
  | 0, s => ⟨sizeMax, [], s⟩
  | tries + 1, s =>
    let connected := (s.round rounds).connected
    let s := s.pass rounds
    let avail := getIsReady s
    if avail > 0 then
      let toRead := if avail < toUint16 len then avail else toUint16 len
      let got := s.arrayGet toRead
      ⟨toRead, got.1, got.2⟩
    else if connected = false then ⟨sizeMax, [], s⟩
    else readTries len tries s

/-- `_z_read_tcp`. -/
def zReadTcp (s : Socket) (len : Nat) : Reading := readTries rounds len 100 s

/-- The loop of `_z_read_exact_tcp`, for so many rounds at most. -/
def readExactLoop (len : Nat) : Nat → Nat → List Byte → Socket → Option Reading
  | 0, _, _, _ => none
  | turns + 1, n, written, s =>
    let rb := zReadTcp rounds s (len - n)
    if rb.result = sizeMax ∨ rb.result = 0 then
      some ⟨rb.result, written ++ rb.written, rb.socket⟩
    else
      let n := (n + rb.result) % 4294967296
      if n ≠ len then readExactLoop len turns n (written ++ rb.written) rb.socket
      else some ⟨n, written ++ rb.written, rb.socket⟩

/-- `_z_read_exact_tcp`: a round for every byte is enough. -/
def zReadExactTcp (s : Socket) (len : Nat) : Option Reading := readExactLoop rounds len len 0 [] s

/-! ## Writing -/

def sendTries (ptr : Nat → Byte) (len : Nat) : Nat → Socket → Nat × Socket
  | 0, s =>
    let space := (s.round rounds).space.toNat
    let s := s.pass rounds
    if space > 0 then (space, s.arrayPut ptr space) else (sizeMax, s)
  | tries + 1, s =>
    let space := (s.round rounds).space.toNat
    let s := s.pass rounds
    if space ≥ toUint16 len then (toUint16 len, s.arrayPut ptr (toUint16 len))
    else sendTries ptr len tries s

/-- `_z_send_tcp`. -/
def zSendTcp (s : Socket) (ptr : Nat → Byte) (len : Nat) : Nat × Socket :=
  let connected := (s.round rounds).connected
  let s := s.pass rounds
  if connected = false then (sizeMax, s) else sendTries rounds ptr len 50 s

/-! ## What is asked of them -/

/-- What arrives in the polls from one to another. -/
def arrivals (start stop : Nat) : List Byte :=
  (List.range' start (stop - start)).flatMap fun i => (rounds i).arrives

/-- The bytes are the next ones of the stream: with what is left unread they are what was unread
and what has arrived since. -/
structure Next (s : Socket) (bytes : List Byte) (s' : Socket) : Prop where
  later : s.time ≤ s'.time
  stream : s.unread ++ arrivals rounds s.time s'.time = bytes ++ s'.unread

/-- The state of the socket where a poll first shows data, if it does so within these polls and
before the connection is lost. -/
def firstData : Nat → Socket → Option Socket
  | 0, _ => none
  | tries + 1, s =>
    let connected := (s.round rounds).connected
    let s := s.pass rounds
    if s.unread ≠ [] then some s else if connected then firstData tries s else none

/-- A reader waits for data in vain. -/
def InVain (s : Socket) : Prop := firstData rounds 100 s = none

/-- One of the waits for so many bytes, taken in pieces of what is there, is in vain. -/
inductive RunsDry : Nat → Socket → Prop where
  | wait {n : Nat} {s : Socket} : 0 < n → InVain rounds s → RunsDry n s
  | piece {n : Nat} {s s' : Socket} : firstData rounds 100 s = some s' →
      0 < min (getIsReady s') (toUint16 n) →
        RunsDry (n - min (getIsReady s') (toUint16 n))
          (s'.arrayGet (min (getIsReady s') (toUint16 n))).2 → RunsDry n s

/-- The space stays short of the message, cut to 16 bits, for fifty polls, and is larger than the
whole of it at the next one. -/
def Overruns (s : Socket) (len : Nat) : Prop :=
  (rounds s.time).connected = true ∧
    (∀ i < 50, (rounds (s.time + 1 + i)).space.toNat < toUint16 len) ∧
      len < (rounds (s.time + 51)).space.toNat

/-- What is asked of the three calls. -/
structure Kept (s : Socket) (ptr : Nat → Byte) (len : Nat) : Prop where
  /-- `_z_read_exact_tcp` comes to an end, and returns `len` only with the next `len` bytes. -/
  exact : ∃ r, zReadExactTcp rounds s len = some r ∧
    (r.result = len → r.written.length = len ∧ Next rounds s r.written r.socket) ∧
      (r.result ≠ len → r.result = 0 ∨ r.result = sizeMax)
  read : (zReadTcp rounds s len).result ≠ 0 → (zReadTcp rounds s len).result ≠ sizeMax →
    (zReadTcp rounds s len).written.length = (zReadTcp rounds s len).result ∧
      Next rounds s (zReadTcp rounds s len).written (zReadTcp rounds s len).socket ∧
        1 ≤ (zReadTcp rounds s len).result ∧ (zReadTcp rounds s len).result ≤ len
  send : (zSendTcp rounds s ptr len).1 ≠ 0 → (zSendTcp rounds s ptr len).1 ≠ sizeMax →
    (zSendTcp rounds s ptr len).2.sent =
        s.sent ++ (List.range (zSendTcp rounds s ptr len).1).map ptr ∧
      1 ≤ (zSendTcp rounds s ptr len).1 ∧ (zSendTcp rounds s ptr len).1 ≤ len
  /-- `_z_read_tcp` returns zero where no data shows up. -/
  zero : (zReadTcp rounds s len).result = 0 → InVain rounds s

/-! ## The stream -/

theorem arrivals_append {start middle stop : Nat} (h : start ≤ middle) (h' : middle ≤ stop) :
    arrivals rounds start middle ++ arrivals rounds middle stop = arrivals rounds start stop := by
  obtain ⟨a, rfl⟩ := Nat.exists_eq_add_of_le h
  obtain ⟨b, rfl⟩ := Nat.exists_eq_add_of_le h'
  have hfirst : start + a - start = a := Nat.add_sub_cancel_left start a
  have hsecond : start + a + b - (start + a) = b := Nat.add_sub_cancel_left (start + a) b
  have hboth : start + a + b - start = a + b := by omega
  rw [arrivals, arrivals, arrivals, hfirst, hsecond, hboth, ← List.range'_append_1,
    List.flatMap_append]

theorem next_trans {s s' s'' : Socket} {bytes more : List Byte} (h : Next rounds s bytes s')
    (h' : Next rounds s' more s'') : Next rounds s (bytes ++ more) s'' := by
  constructor
  · exact h.later.trans h'.later
  · rw [← arrivals_append rounds h.later h'.later, ← List.append_assoc, h.stream, List.append_assoc,
      h'.stream, List.append_assoc]

theorem next_pass (s : Socket) : Next rounds s [] (s.pass rounds) := by
  constructor
  · exact Nat.le_succ s.time
  · have harrivals : arrivals rounds s.time (s.time + 1) = (rounds s.time).arrives := by
      rw [arrivals, Nat.add_sub_cancel_left]
      simp
    change s.unread ++ arrivals rounds s.time (s.time + 1) = s.unread ++ (rounds s.time).arrives
    rw [harrivals]

theorem next_arrayGet (s : Socket) (n : Nat) : Next rounds s (s.arrayGet n).1 (s.arrayGet n).2 := by
  constructor
  · exact Nat.le_refl s.time
  · have harrivals : arrivals rounds s.time s.time = [] := by
      rw [arrivals, Nat.sub_self]
      rfl
    change s.unread ++ arrivals rounds s.time s.time = s.unread.take n ++ s.unread.drop n
    rw [harrivals, List.append_nil, List.take_append_drop]

theorem firstData_next {tries : Nat} {s s' : Socket} (h : firstData rounds tries s = some s') :
    Next rounds s [] s' ∧ 0 < getIsReady s' := by
  induction tries generalizing s with
  | zero => cases h
  | succ tries ih =>
    rw [firstData] at h
    split at h
    · rename_i hunread
      obtain rfl := Option.some.inj h
      refine ⟨next_pass rounds s, ?_⟩
      have hlength := List.length_pos_iff.mpr hunread
      rw [getIsReady]
      omega
    · split at h
      · obtain ⟨hnext, hready⟩ := ih h
        exact ⟨next_trans rounds (next_pass rounds s) hnext, hready⟩
      · cases h

/-! ## What one call reads -/

/-- The part of what is there that a call for so many bytes takes. -/
def piece (s : Socket) (len : Nat) : Nat := min (getIsReady s) (toUint16 len)

theorem readTries_cases (len tries : Nat) (s : Socket) :
    (firstData rounds tries s = none ∧ (readTries rounds len tries s).result = sizeMax ∧
        (readTries rounds len tries s).written = []) ∨
      ∃ s', firstData rounds tries s = some s' ∧ readTries rounds len tries s =
        ⟨piece s' len, (s'.arrayGet (piece s' len)).1, (s'.arrayGet (piece s' len)).2⟩ := by
  induction tries generalizing s with
  | zero => exact .inl ⟨rfl, rfl, rfl⟩
  | succ tries ih =>
    rw [firstData, readTries]
    dsimp only
    by_cases hunread : (s.pass rounds).unread = []
    · have hready : ¬ getIsReady (s.pass rounds) > 0 := by simp [getIsReady, hunread]
      rw [if_neg (not_not.mpr hunread), if_neg hready]
      cases hconnected : (s.round rounds).connected with
      | false => exact .inl ⟨rfl, rfl, rfl⟩
      | true => exact ih (s.pass rounds)
    · have hlength := List.length_pos_iff.mpr hunread
      have hready : getIsReady (s.pass rounds) > 0 := by
        rw [getIsReady]
        omega
      have hpiece : (if getIsReady (s.pass rounds) < toUint16 len then getIsReady (s.pass rounds)
          else toUint16 len) = piece (s.pass rounds) len := by
        rw [piece]
        split <;> omega
      rw [if_pos hunread, if_pos hready, hpiece]
      exact .inr ⟨_, rfl, rfl⟩

theorem piece_le (s : Socket) (len : Nat) :
    piece s len ≤ s.unread.length ∧ piece s len ≤ len ∧ piece s len < 65536 := by
  have hmod := Nat.mod_le len 65536
  rw [piece, getIsReady, toUint16]
  omega

theorem arrayGet_piece_length (s : Socket) (len : Nat) :
    (s.arrayGet (piece s len)).1.length = piece s len := by
  rw [Socket.arrayGet, List.length_take, Nat.min_eq_left (piece_le s len).1]

theorem piece_eq_zero {s : Socket} (hready : 0 < getIsReady s) (len : Nat) :
    piece s len = 0 ↔ 65536 ∣ len := by
  rw [piece, toUint16, Nat.dvd_iff_mod_eq_zero]
  omega

theorem read_zero_iff (s : Socket) (len : Nat) :
    ((zReadTcp rounds s len).result = 0 → InVain rounds s) ↔ (65536 ∣ len → InVain rounds s) := by
  obtain ⟨hvain, -, -⟩ | ⟨s', hdata, hread⟩ := readTries_cases rounds len 100 s
  · exact iff_of_true (fun _ => hvain) fun _ => hvain
  · have hpiece := piece_eq_zero (firstData_next rounds hdata).2 len
    rw [zReadTcp, hread, hpiece]

theorem read_moves (s : Socket) (len : Nat) (hzero : (zReadTcp rounds s len).result ≠ 0)
    (hmax : (zReadTcp rounds s len).result ≠ sizeMax) :
    (zReadTcp rounds s len).written.length = (zReadTcp rounds s len).result ∧
      Next rounds s (zReadTcp rounds s len).written (zReadTcp rounds s len).socket ∧
        1 ≤ (zReadTcp rounds s len).result ∧ (zReadTcp rounds s len).result ≤ len := by
  rw [zReadTcp] at hzero hmax ⊢
  obtain ⟨-, hresult, -⟩ | ⟨s', hdata, hread⟩ := readTries_cases rounds len 100 s
  · exact absurd hresult hmax
  · rw [hread] at hzero ⊢
    have hnext := next_trans rounds (firstData_next rounds hdata).1
      (next_arrayGet rounds s' (piece s' len))
    exact ⟨arrayGet_piece_length s' len, hnext, Nat.one_le_iff_ne_zero.mpr hzero, (piece_le s' len).2.1⟩

/-! ## What one call sends -/

theorem sendTries_fits (ptr : Nat → Byte) (len : Nat) {tries : Nat} {s : Socket}
    (h : ∃ i < tries, toUint16 len ≤ (rounds (s.time + i)).space.toNat) :
    (sendTries rounds ptr len tries s).1 = toUint16 len ∧
      (sendTries rounds ptr len tries s).2.sent =
        s.sent ++ (List.range (toUint16 len)).map ptr := by
  induction tries generalizing s with
  | zero =>
    obtain ⟨i, hi, -⟩ := h
    exact absurd hi (Nat.not_lt_zero i)
  | succ tries ih =>
    rw [sendTries]
    by_cases hspace : (s.round rounds).space.toNat ≥ toUint16 len
    · rw [if_pos hspace]
      exact ⟨rfl, rfl⟩
    · rw [if_neg hspace]
      obtain ⟨i, hi, hfits⟩ := h
      cases i with
      | zero => exact absurd hfits hspace
      | succ i =>
        have htime : s.time + (i + 1) = (s.pass rounds).time + i := by
          change s.time + (i + 1) = s.time + 1 + i
          omega
        rw [htime] at hfits
        exact ih ⟨i, Nat.lt_of_succ_lt_succ hi, hfits⟩

theorem sendTries_short (ptr : Nat → Byte) (len : Nat) {tries : Nat} {s : Socket}
    (h : ∀ i < tries, (rounds (s.time + i)).space.toNat < toUint16 len) :
    ((rounds (s.time + tries)).space.toNat = 0 ∧
        (sendTries rounds ptr len tries s).1 = sizeMax) ∨
      ((sendTries rounds ptr len tries s).1 = (rounds (s.time + tries)).space.toNat ∧
        (sendTries rounds ptr len tries s).2.sent =
          s.sent ++ (List.range (rounds (s.time + tries)).space.toNat).map ptr) := by
  induction tries generalizing s with
  | zero =>
    rw [sendTries]
    by_cases hspace : (s.round rounds).space.toNat > 0
    · rw [if_pos hspace]
      exact .inr ⟨rfl, rfl⟩
    · rw [if_neg hspace]
      exact .inl ⟨Nat.eq_zero_of_not_pos hspace, rfl⟩
  | succ tries ih =>
    have hfirst : ¬ (s.round rounds).space.toNat ≥ toUint16 len :=
      Nat.not_le_of_lt (h 0 (Nat.succ_pos tries))
    have htime (i : Nat) : (s.pass rounds).time + i = s.time + (i + 1) := by
      change s.time + 1 + i = s.time + (i + 1)
      omega
    have hlater : ∀ i < tries, (rounds ((s.pass rounds).time + i)).space.toNat < toUint16 len := by
      intro i hi
      rw [htime i]
      exact h (i + 1) (Nat.succ_lt_succ hi)
    have hsent := ih hlater
    rw [htime tries] at hsent
    rw [sendTries]
    rw [if_neg hfirst]
    exact hsent

theorem send_iff (s : Socket) (ptr : Nat → Byte) (len : Nat) :
    ((zSendTcp rounds s ptr len).1 ≠ 0 → (zSendTcp rounds s ptr len).1 ≠ sizeMax →
      (zSendTcp rounds s ptr len).2.sent =
          s.sent ++ (List.range (zSendTcp rounds s ptr len).1).map ptr ∧
        1 ≤ (zSendTcp rounds s ptr len).1 ∧ (zSendTcp rounds s ptr len).1 ≤ len) ↔
      ¬ Overruns rounds s len := by
  rw [zSendTcp, Overruns]
  by_cases hconnected : (s.round rounds).connected = false
  · rw [if_pos hconnected]
    exact iff_of_true (fun _ hmax => absurd rfl hmax)
      fun h => Bool.false_ne_true (hconnected.symm.trans h.1)
  · rw [if_neg hconnected]
    rw [Bool.not_eq_false] at hconnected
    by_cases hshort : ∀ i < 50, (rounds (s.time + 1 + i)).space.toNat < toUint16 len
    · -- The last poll decides, and its answer is taken as it is.
      obtain ⟨hspace, hresult⟩ | ⟨hresult, hsent⟩ :=
        sendTries_short rounds ptr len (s := s.pass rounds) hshort
      · change (rounds (s.time + 51)).space.toNat = 0 at hspace
        rw [hresult]
        exact iff_of_true (fun _ hmax => absurd rfl hmax) fun h => by omega
      · change (sendTries rounds ptr len 50 (s.pass rounds)).1 =
          (rounds (s.time + 51)).space.toNat at hresult
        have hspace := (rounds (s.time + 51)).space.isLt
        rw [hresult, sizeMax]
        constructor
        · intro h hover
          have hle := (h (by omega) (by omega)).2.2
          omega
        · intro h hzero _
          have hle : ¬ len < (rounds (s.time + 51)).space.toNat := fun hlt => h ⟨hconnected, hshort, hlt⟩
          exact ⟨hsent, Nat.one_le_iff_ne_zero.mpr hzero, Nat.le_of_not_lt hle⟩
    · have hfits : ∃ i < 50, toUint16 len ≤ (rounds ((s.pass rounds).time + i)).space.toNat := by
        by_contra hnone
        apply hshort
        intro i hi
        exact Nat.lt_of_not_le fun hle => hnone ⟨i, hi, hle⟩
      obtain ⟨hresult, hsent⟩ := sendTries_fits rounds ptr len hfits
      rw [hresult]
      have hmod : toUint16 len ≤ len := Nat.mod_le len 65536
      exact iff_of_true (fun hzero _ => ⟨hsent, Nat.one_le_iff_ne_zero.mpr hzero, hmod⟩)
        fun h => hshort h.2.1

/-! ## The loop of the exact read -/

theorem not_runsDry_zero (s : Socket) : ¬ RunsDry rounds 0 s := by
  intro h
  cases h with
  | wait hpos _ => exact absurd hpos (Nat.lt_irrefl 0)
  | piece _ hpos _ =>
    rw [toUint16] at hpos
    omega

theorem runsDry_of_data {s s' : Socket} (hdata : firstData rounds 100 s = some s') (n : Nat) :
    RunsDry rounds n s ↔
      0 < piece s' n ∧ RunsDry rounds (n - piece s' n) (s'.arrayGet (piece s' n)).2 := by
  constructor
  · intro h
    cases h with
    | wait _ hvain =>
      rw [InVain, hdata] at hvain
      cases hvain
    | piece hdata' hpos hrest =>
      obtain rfl := Option.some.inj (hdata.symm.trans hdata')
      exact ⟨hpos, hrest⟩
  · intro h
    exact .piece hdata h.1 h.2

/-- How the loop ends when so many bytes are still asked for: its return value, the bytes it has
added and the socket. -/
inductive Ending (len missing : Nat) (s : Socket) : Nat → List Byte → Socket → Prop where
  | whole {bytes : List Byte} {s' : Socket} : bytes.length = missing → Next rounds s bytes s' →
      ¬ RunsDry rounds missing s → Ending len missing s len bytes s'
  | nothing {bytes : List Byte} {s' : Socket} :
      ¬ RunsDry rounds missing s → Ending len missing s 0 bytes s'
  | dry {bytes : List Byte} {s' : Socket} : bytes.length < missing →
      RunsDry rounds missing s → Ending len missing s sizeMax bytes s'

/-- A call that has moved something leaves the loop where it would have begun for the rest. -/
theorem ending_piece {len missing result : Nat} {s s₁ s' : Socket} {bytes : List Byte}
    (hdata : firstData rounds 100 s = some s₁) (hpos : 0 < piece s₁ missing)
    (h : Ending rounds len (missing - piece s₁ missing) (s₁.arrayGet (piece s₁ missing)).2
      result bytes s') :
    Ending rounds len missing s result ((s₁.arrayGet (piece s₁ missing)).1 ++ bytes) s' := by
  have hdry := runsDry_of_data rounds hdata missing
  have hgot := arrayGet_piece_length s₁ missing
  have hle := (piece_le s₁ missing).2.1
  cases h with
  | whole hlength hnext hnot =>
    have hstream := next_trans rounds (next_trans rounds (firstData_next rounds hdata).1
      (next_arrayGet rounds s₁ (piece s₁ missing))) hnext
    have hwhole : ((s₁.arrayGet (piece s₁ missing)).1 ++ bytes).length = missing := by
      rw [List.length_append, hgot, hlength]
      omega
    exact .whole hwhole hstream fun hd => hnot (hdry.mp hd).2
  | nothing hnot => exact .nothing fun hd => hnot (hdry.mp hd).2
  | dry hlength hd =>
    have hshort : ((s₁.arrayGet (piece s₁ missing)).1 ++ bytes).length < missing := by
      rw [List.length_append, hgot]
      omega
    exact .dry hshort (hdry.mpr ⟨hpos, hd⟩)

/-- The loop ends, by induction on the rounds that are left: each call that does not end it moves a
byte at least. -/
theorem readExactLoop_ending {len : Nat} (hlen : len ≤ sizeMax) {turns n : Nat}
    (written : List Byte) (s : Socket) (hn : n < len) (hturns : len - n ≤ turns) :
    ∃ result bytes s', readExactLoop rounds len turns n written s =
      some ⟨result, written ++ bytes, s'⟩ ∧ Ending rounds len (len - n) s result bytes s' := by
  induction turns generalizing n written s with
  | zero => omega
  | succ turns ih =>
    rw [readExactLoop, zReadTcp]
    dsimp only
    obtain ⟨hvain, hresult, hwritten⟩ | ⟨s₁, hdata, hread⟩ :=
      readTries_cases rounds (len - n) 100 s
    · rw [hresult, hwritten, if_pos (.inl rfl)]
      exact ⟨_, _, _, rfl, .dry (Nat.sub_pos_of_lt hn) (.wait (Nat.sub_pos_of_lt hn) hvain)⟩
    · rw [hread]
      dsimp only
      obtain ⟨-, hle, hsmall⟩ := piece_le s₁ (len - n)
      by_cases hzero : piece s₁ (len - n) = 0
      · rw [if_pos (.inr hzero), hzero]
        have hnot : ¬ RunsDry rounds (len - n) s := by
          intro hd
          have hpos := ((runsDry_of_data rounds hdata (len - n)).mp hd).1
          omega
        exact ⟨_, _, _, rfl, .nothing hnot⟩
      · have hgoes : ¬ (piece s₁ (len - n) = sizeMax ∨ piece s₁ (len - n) = 0) := by
          rw [sizeMax]
          omega
        have hsum : (n + piece s₁ (len - n)) % 4294967296 = n + piece s₁ (len - n) := by
          rw [sizeMax] at hlen
          omega
        have hmissing : len - (n + piece s₁ (len - n)) = len - n - piece s₁ (len - n) := by omega
        rw [if_neg hgoes, hsum]
        by_cases hall : n + piece s₁ (len - n) = len
        · rw [if_neg (not_not.mpr hall), hall]
          have hnone : len - n - piece s₁ (len - n) = 0 := by omega
          have hend : Ending rounds len (len - n - piece s₁ (len - n))
              (s₁.arrayGet (piece s₁ (len - n))).2 len []
              (s₁.arrayGet (piece s₁ (len - n))).2 := by
            rw [hnone]
            exact .whole rfl (next_arrayGet rounds _ 0) (not_runsDry_zero rounds _)
          have hpiece := ending_piece rounds hdata (Nat.pos_of_ne_zero hzero) hend
          rw [List.append_nil] at hpiece
          exact ⟨_, _, _, rfl, hpiece⟩
        · rw [if_pos hall]
          obtain ⟨result, bytes, s', hloop, hend⟩ :=
            ih (n := n + piece s₁ (len - n)) (written ++ (s₁.arrayGet (piece s₁ (len - n))).1)
              (s₁.arrayGet (piece s₁ (len - n))).2 (by omega) (by omega)
          rw [hmissing] at hend
          rw [List.append_assoc] at hloop
          exact ⟨result, _, s', hloop, ending_piece rounds hdata (Nat.pos_of_ne_zero hzero) hend⟩

theorem exact_iff {len : Nat} (hpos : 1 ≤ len) (hlen : len ≤ sizeMax) (s : Socket) :
    (∃ r, zReadExactTcp rounds s len = some r ∧
      (r.result = len → r.written.length = len ∧ Next rounds s r.written r.socket) ∧
        (r.result ≠ len → r.result = 0 ∨ r.result = sizeMax)) ↔
      (len = sizeMax → ¬ RunsDry rounds len s) := by
  obtain ⟨result, bytes, s', hloop, hend⟩ :=
    readExactLoop_ending rounds hlen [] s hpos (Nat.sub_le len 0)
  have hexact : zReadExactTcp rounds s len = some ⟨result, bytes, s'⟩ := hloop
  rw [hexact]
  constructor
  · rintro ⟨r, hr, hwhole, -⟩ heq hdry
    obtain rfl := Option.some.inj hr
    cases hend with
    | whole _ _ hnot => exact hnot hdry
    | nothing hnot => exact hnot hdry
    | dry hlength _ => exact absurd (hwhole heq.symm).1 (Nat.ne_of_lt hlength)
  · intro hnever
    cases hend with
    | whole hlength hnext _ => exact ⟨_, rfl, fun _ => ⟨hlength, hnext⟩, fun h => absurd rfl h⟩
    | nothing _ => exact ⟨_, rfl, fun h => absurd h (by dsimp only; omega), fun _ => .inl rfl⟩
    | dry _ hdry =>
      exact ⟨_, rfl, fun h => absurd hdry (hnever h.symm), fun _ => .inr rfl⟩

/-! ## The stream is kept -/

/-- What is asked of the calls holds of every one for which no data is ready where its length is a
multiple of 65536, whose space does not jump over the message at the last poll, and which does not
run out of data where its length is `SIZE_MAX`. -/
theorem stream_kept_iff (s : Socket) (ptr : Nat → Byte) {len : Nat} (hpos : 1 ≤ len)
    (hlen : len ≤ sizeMax) :
    Kept rounds s ptr len ↔ (65536 ∣ len → InVain rounds s) ∧ ¬ Overruns rounds s len ∧
      (len = sizeMax → ¬ RunsDry rounds len s) := by
  have hexact := exact_iff rounds hpos hlen s
  have hzero := read_zero_iff rounds s len
  have hsend := send_iff rounds s ptr len
  constructor
  · intro h
    exact ⟨hzero.mp h.zero, hsend.mp h.send, hexact.mp h.exact⟩
  · intro h
    exact ⟨hexact.mpr h.2.2, read_moves rounds s len, hsend.mpr h.2.1, hzero.mpr h.1⟩

/-- A byte at the third poll, and room for it. -/
theorem stream_kept_one_byte :
    Kept (fun i => ⟨if i = 2 then [7] else [], true, 100⟩) ⟨0, [], []⟩ (fun _ => 9) 1 :=
  (stream_kept_iff _ ⟨0, [], []⟩ (fun _ => 9) (Nat.le_refl 1) (by decide)).mpr
    ⟨fun h => by omega, fun h => absurd (h.2.1 0 (by decide)) (by decide), fun h => absurd h (by decide)⟩

/-- No room for fifty polls and for 200 bytes at the last one: the message has 100. -/
theorem stream_not_kept_overrun :
    ¬ ∀ (rounds : Nat → Round) (s : Socket) (ptr : Nat → Byte) (len : Nat), 1 ≤ len →
      len ≤ sizeMax → Kept rounds s ptr len := by
  intro h
  have hkept := h (fun i => ⟨[], true, if i = 51 then 200 else 0⟩) ⟨0, [], []⟩ (fun _ => 9) 100
    (by decide) (by decide)
  have hresult : (zSendTcp (fun i => ⟨[], true, if i = 51 then 200 else 0⟩) ⟨0, [], []⟩
      (fun _ => 9) 100).1 = 200 := by decide
  have hsend := hkept.send
  rw [hresult] at hsend
  have hle := (hsend (by decide) (by decide)).2.2
  omega

end Genoh.HarmonyStream
