import Genoh.Run
import Mathlib.Data.List.Basic
import Mathlib.Logic.Function.Basic

/-!
# The TCP sockets of the Harmony port

`_z_open_tcp`, `_z_close_tcp` and `_z_socket_close` over the table of native sockets. The Berkeley
table is whatever `closesocket` acts on.
-/
namespace Genoh.HarmonyTcp

open Genoh.Run

/-- `TCPIP_TCP_MAX_SOCKETS`. -/
def tcpSockets : Nat := 10

/-- An occupied entry of `TCBStubs`. After `TCPIP_TCP_Close` the stack may still have to end the
connection before the entry is free. -/
inductive Tcb where
  | opened
  | closing
  deriving DecidableEq, Repr

abbrev Stubs := Nat → Option Tcb

/-- The first empty slot, when there also is an ephemeral port and memory. -/
def clientOpen (stubs : Stubs) (available : Bool) : Option Nat :=
  if available then (List.range tcpSockets).find? fun h => (stubs h).isNone else none

/-- `TCP_SOCKET` and `SOCKET` are 16 bits wide. -/
def toSocket (sock : Int) : Int := sock.bmod 65536

/-- `TCPIP_TCP_Close`. -/
def tcpClose (stubs : Stubs) (hTCP : Int) : Stubs :=
  if 0 ≤ hTCP ∧ hTCP < tcpSockets ∧ (stubs hTCP.toNat).isSome then
    Function.update stubs hTCP.toNat (some .closing)
  else stubs

/-- The poll of `TCPIP_TCP_IsConnected`, one answer a round. `none` while it goes on. -/
def waitConnected (connectTout : UInt32) : UInt32 → List Bool → Option Bool
  | wait, [] => if wait < connectTout then none else some false
  | wait, isConnected :: answers =>
    if wait < connectTout then
      if isConnected then some true else waitConnected connectTout (wait + 50) answers
    else some false

def connectTout (tout : UInt32) : UInt32 := if tout < 10000 then 10000 else tout

/-- What `_z_open_tcp` is given and what it meets, up to its return. -/
structure Connect where
  tout : UInt32
  available : Bool
  answers : List Bool
  returns : (waitConnected (connectTout tout) 0 answers).isSome

def Connect.connected (k : Connect) : Bool :=
  (waitConnected (connectTout k.tout) 0 k.answers).get k.returns

/-- A call that closes a socket of one of the two tables. -/
inductive Close where
  | native (hTCP : Int)
  | berkeley (s : Int)
  deriving DecidableEq, Repr

/-- The `_socket` fields and the two tables. The closing calls are logged as a ghost. -/
structure Net (Conn Berkeley : Type*) where
  socket : Conn → Int
  stubs : Stubs
  berkeley : Berkeley
  closes : List Close

def resOk : Int := 0
def errGeneric : Int := -128

variable {Conn Berkeley : Type*} [DecidableEq Conn]

namespace Net

def nativeClose (n : Net Conn Berkeley) (hTCP : Int) : Net Conn Berkeley :=
  { n with stubs := tcpClose n.stubs hTCP, closes := n.closes ++ [.native hTCP] }

def setSocket (n : Net Conn Berkeley) (c : Conn) (sock : Int) : Net Conn Berkeley :=
  { n with socket := Function.update n.socket c sock }

/-- `_z_open_tcp`. -/
def zOpenTcp (n : Net Conn Berkeley) (c : Conn) (k : Connect) : Net Conn Berkeley × Int :=
  match clientOpen n.stubs k.available with
  | none => (n.setSocket c (-1), errGeneric)
  | some nativeSkt =>
    let n := { n with stubs := Function.update n.stubs nativeSkt (some .opened) }
    if k.connected then (n.setSocket c nativeSkt, resOk)
    else ((n.nativeClose nativeSkt).setSocket c (-1), errGeneric)

/-- `_zh_closesocket`. -/
def zhClosesocket (closesocket : Berkeley → Int → Berkeley) (n : Net Conn Berkeley) (sock : Int) :
    Net Conn Berkeley :=
  if 0 ≤ sock then
    { n with
      berkeley := closesocket n.berkeley (toSocket sock)
      closes := n.closes ++ [.berkeley (toSocket sock)] }
  else n

/-- `_z_close_tcp`. -/
def zCloseTcp (closesocket : Berkeley → Int → Berkeley) (n : Net Conn Berkeley) (c : Conn) :
    Net Conn Berkeley :=
  if 0 ≤ n.socket c then (n.zhClosesocket closesocket (n.socket c)).setSocket c (-1) else n

/-- `_z_socket_close`. -/
def zSocketClose (n : Net Conn Berkeley) (c : Conn) : Net Conn Berkeley :=
  (if 0 ≤ n.socket c then n.nativeClose (toSocket (n.socket c)) else n).setSocket c (-1)

/-- `_TcpSocketKill`, once the connection of a closed socket has ended. -/
def socketKill (n : Net Conn Berkeley) (h : Nat) : Net Conn Berkeley :=
  if n.stubs h = some .closing then { n with stubs := Function.update n.stubs h none } else n

end Net

inductive Call (Conn : Type*) where
  | openTcp (c : Conn) (k : Connect)
  | closeTcp (c : Conn)
  | socketClose (c : Conn)
  | socketKill (h : Nat)

def Net.step (closesocket : Berkeley → Int → Berkeley) (n : Net Conn Berkeley) :
    Call Conn → Net Conn Berkeley
  | .openTcp c k => (n.zOpenTcp c k).1
  | .closeTcp c => n.zCloseTcp closesocket c
  | .socketClose c => n.zSocketClose c
  | .socketKill h => n.socketKill h

/-- Who holds which native socket, and the native sockets that were to be closed so far: those of a
connection that was closed, and those whose connect timed out. -/
structure Ledger (Conn : Type*) where
  held : Conn → Option Nat
  owed : List Nat

namespace Ledger

def hold (l : Ledger Conn) (c : Conn) (h : Option Nat) : Ledger Conn :=
  { l with held := Function.update l.held c h }

def close (l : Ledger Conn) (c : Conn) : Ledger Conn :=
  { held := Function.update l.held c none, owed := l.owed ++ (l.held c).toList }

def step (n : Net Conn Berkeley) (l : Ledger Conn) : Call Conn → Ledger Conn
  | .openTcp c k =>
    let l := l.hold c (clientOpen n.stubs k.available)
    if k.connected then l else l.close c
  | .closeTcp c => l.close c
  | .socketClose c => l.close c
  | .socketKill _ => l

end Ledger

structure State (Conn Berkeley : Type*) where
  net : Net Conn Berkeley
  ledger : Ledger Conn

def step (closesocket : Berkeley → Int → Berkeley) (s : State Conn Berkeley) (e : Call Conn) :
    State Conn Berkeley :=
  { net := s.net.step closesocket e, ledger := s.ledger.step s.net e }

/-- No connection holds a socket yet. Its `_socket` may hold anything. -/
def boot (socket : Conn → Int) (berkeley : Berkeley) : State Conn Berkeley where
  net := { socket := socket, stubs := fun _ => none, berkeley := berkeley, closes := [] }
  ledger := { held := fun _ => none, owed := [] }

/-- The closing calls made are one `TCPIP_TCP_Close` for each native socket that was to be closed,
and what is open is held. -/
structure Paired (s : State Conn Berkeley) : Prop where
  closes : s.net.closes = s.ledger.owed.map fun h => .native h
  held : ∀ h, s.net.stubs h = some .opened → ∃ c, s.ledger.held c = some h

omit [DecidableEq Conn] in
/-- The call does not close an open connection by `_z_close_tcp`, open it again, or close a
connection that was never open through a `_socket` that looks like a handle. -/
def Kept (s : State Conn Berkeley) : Call Conn → Prop
  | .openTcp c _ => s.ledger.held c = none
  | .closeTcp c => s.net.socket c < 0
  | .socketClose c => s.ledger.held c = none → s.net.socket c < 0
  | .socketKill _ => True

/-! ### The native table -/

theorem clientOpen_eq_some {stubs : Stubs} {available : Bool} {h : Nat}
    (ho : clientOpen stubs available = some h) : h < tcpSockets ∧ stubs h = none := by
  cases available with
  | false => exact absurd ho (by simp [clientOpen])
  | true =>
    simp only [clientOpen, if_true, List.find?_range_eq_some, Option.isNone_iff_eq_none,
      List.mem_range] at ho
    exact ⟨ho.2.1, ho.1⟩

theorem toSocket_handle {h : Nat} (hlt : h < tcpSockets) : toSocket h = h := by
  have hsmall : h < 10 := hlt
  unfold toSocket
  exact Int.bmod_eq_of_le (by omega) (by omega)

theorem tcpClose_handle {stubs : Stubs} {h : Nat} (hlt : h < tcpSockets)
    (hopen : stubs h = some .opened) :
    tcpClose stubs h = Function.update stubs h (some .closing) := by
  have hint : (h : Int) < tcpSockets := by exact_mod_cast hlt
  simp [tcpClose, hint, hopen]

/-! ### The poll -/

/-! ### What the calls do to the state -/

@[simp] theorem Ledger.hold_none {l : Ledger Conn} {c : Conn} (hc : l.held c = none) :
    l.hold c none = l := by
  simp [Ledger.hold, ← hc]

theorem Ledger.close_none {l : Ledger Conn} {c : Conn} (hc : l.held c = none) :
    l.close c = l := by
  have hheld : Function.update l.held c none = l.held := by rw [← hc, Function.update_eq_self]
  simp [Ledger.close, hheld, hc]

/-- Connection `c` gets the native socket `h`. -/
def State.obtain (s : State Conn Berkeley) (c : Conn) (h : Nat) : State Conn Berkeley where
  net := { s.net with
    socket := Function.update s.net.socket c h
    stubs := Function.update s.net.stubs h (some .opened) }
  ledger := s.ledger.hold c (some h)

/-- Connection `c` gives the native socket `h` back. -/
def State.release (s : State Conn Berkeley) (c : Conn) (h : Nat) : State Conn Berkeley where
  net := (s.net.nativeClose h).setSocket c (-1)
  ledger := s.ledger.close c

/-- The `_socket` of connection `c` becomes -1, and nothing else changes. -/
def State.forget (s : State Conn Berkeley) (c : Conn) : State Conn Berkeley :=
  { s with net := s.net.setSocket c (-1) }

/-- A connection that holds a socket has it in its `_socket`, the socket is open, and no other
connection holds it. -/
structure Inv (s : State Conn Berkeley) : Prop where
  paired : Paired s
  socket : ∀ c h, s.ledger.held c = some h → s.net.socket c = h
  opened : ∀ c h, s.ledger.held c = some h → h < tcpSockets ∧ s.net.stubs h = some .opened
  distinct : ∀ c d h, s.ledger.held c = some h → s.ledger.held d = some h → c = d

omit [DecidableEq Conn] in
theorem Inv.boot (socket : Conn → Int) (berkeley : Berkeley) :
    Inv (boot socket berkeley : State Conn Berkeley) where
  paired := ⟨rfl, fun h ho => absurd ho (by simp [HarmonyTcp.boot])⟩
  socket c h hc := absurd hc (by simp [HarmonyTcp.boot])
  opened c h hc := absurd hc (by simp [HarmonyTcp.boot])
  distinct c d h hc := absurd hc (by simp [HarmonyTcp.boot])

theorem Inv.obtain {s : State Conn Berkeley} (hs : Inv s) {c : Conn} {h : Nat}
    (hlt : h < tcpSockets) (hfree : s.net.stubs h = none) (hc : s.ledger.held c = none) :
    Inv (s.obtain c h) := by
  have hother : ∀ d h', s.ledger.held d = some h' → d ≠ c ∧ h' ≠ h := by
    intro d h' hd
    constructor
    · rintro rfl
      exact absurd (hc.symm.trans hd) (by simp)
    · rintro rfl
      exact absurd (hfree.symm.trans (hs.opened d h' hd).2) (by simp)
  have hheld : ∀ d h', (s.obtain c h).ledger.held d = some h' →
      (d = c ∧ h' = h) ∨ (d ≠ c ∧ s.ledger.held d = some h') := by
    intro d h' hd
    by_cases hdc : d = c
    · left
      simpa [State.obtain, Ledger.hold, hdc, eq_comm] using hd
    · right
      simpa [State.obtain, Ledger.hold, hdc] using hd
  constructor
  · constructor
    · exact hs.paired.closes
    · intro h' ho
      by_cases hh : h' = h
      · exact ⟨c, by simp [State.obtain, Ledger.hold, hh]⟩
      · have ho' : s.net.stubs h' = some .opened := by simpa [State.obtain, hh] using ho
        obtain ⟨d, hd⟩ := hs.paired.held h' ho'
        exact ⟨d, by simpa [State.obtain, Ledger.hold, (hother d h' hd).1] using hd⟩
  · intro d h' hd
    rcases hheld d h' hd with ⟨rfl, rfl⟩ | ⟨hdc, hd⟩
    · simp [State.obtain]
    · simpa [State.obtain, hdc] using hs.socket d h' hd
  · intro d h' hd
    rcases hheld d h' hd with ⟨rfl, rfl⟩ | ⟨hdc, hd⟩
    · exact ⟨hlt, by simp [State.obtain]⟩
    · simpa [State.obtain, (hother d h' hd).2] using hs.opened d h' hd
  · intro d e h' hd he
    rcases hheld d h' hd with ⟨hdc, hdh⟩ | ⟨-, hd'⟩
    · rcases hheld e h' he with ⟨hec, -⟩ | ⟨-, he'⟩
      · exact hdc.trans hec.symm
      · exact absurd hdh (hother e h' he').2
    · rcases hheld e h' he with ⟨-, heh⟩ | ⟨-, he'⟩
      · exact absurd heh (hother d h' hd').2
      · exact hs.distinct d e h' hd' he'

theorem Inv.release {s : State Conn Berkeley} (hs : Inv s) {c : Conn} {h : Nat}
    (hc : s.ledger.held c = some h) : Inv (s.release c h) := by
  obtain ⟨hlt, hopen⟩ := hs.opened c h hc
  have hheld : ∀ d h', (s.release c h).ledger.held d = some h' →
      d ≠ c ∧ h' ≠ h ∧ s.ledger.held d = some h' := by
    intro d h' hd
    have hdc : d ≠ c := by
      rintro rfl
      exact absurd hd (by simp [State.release, Ledger.close])
    have hd' : s.ledger.held d = some h' := by
      simpa [State.release, Ledger.close, hdc] using hd
    refine ⟨hdc, ?_, hd'⟩
    rintro rfl
    exact hdc (hs.distinct d c h' hd' hc)
  have hstubs : (s.release c h).net.stubs = Function.update s.net.stubs h (some .closing) :=
    tcpClose_handle hlt hopen
  constructor
  · constructor
    · simp [State.release, Net.nativeClose, Net.setSocket, Ledger.close, hc, hs.paired.closes]
    · intro h' ho
      rw [hstubs] at ho
      have hh : h' ≠ h := by
        rintro rfl
        simp at ho
      rw [Function.update_of_ne hh] at ho
      obtain ⟨d, hd⟩ := hs.paired.held h' ho
      have hdc : d ≠ c := by
        rintro rfl
        exact hh (Option.some.inj (hd.symm.trans hc))
      exact ⟨d, by simpa [State.release, Ledger.close, hdc] using hd⟩
  · intro d h' hd
    obtain ⟨hdc, -, hd⟩ := hheld d h' hd
    simpa [State.release, Net.setSocket, Net.nativeClose, hdc] using hs.socket d h' hd
  · intro d h' hd
    obtain ⟨-, hh, hd⟩ := hheld d h' hd
    rw [hstubs, Function.update_of_ne hh]
    exact hs.opened d h' hd
  · intro d e h' hd he
    exact hs.distinct d e h' (hheld d h' hd).2.2 (hheld e h' he).2.2

theorem Inv.forget {s : State Conn Berkeley} (hs : Inv s) {c : Conn}
    (hc : s.ledger.held c = none) : Inv (s.forget c) where
  paired := ⟨hs.paired.closes, hs.paired.held⟩
  socket d h hd := by
    have hdc : d ≠ c := by
      rintro rfl
      exact absurd (hc.symm.trans hd) (by simp)
    simpa [State.forget, Net.setSocket, hdc] using hs.socket d h hd
  opened := hs.opened
  distinct := hs.distinct

/-! ### The calls -/

section Calls

variable {closesocket : Berkeley → Int → Berkeley} {s : State Conn Berkeley} {c : Conn}

theorem step_openTcp_refused {k : Connect} (hc : s.ledger.held c = none)
    (ho : clientOpen s.net.stubs k.available = none) :
    step closesocket s (.openTcp c k) = s.forget c := by
  simp [step, Net.step, Net.zOpenTcp, Ledger.step, State.forget, ho, hc, Ledger.close_none hc]

theorem step_openTcp_connected {k : Connect} {h : Nat} (hk : k.connected = true)
    (ho : clientOpen s.net.stubs k.available = some h) :
    step closesocket s (.openTcp c k) = s.obtain c h := by
  simp [step, Net.step, Net.zOpenTcp, Ledger.step, State.obtain, ho, hk, Net.setSocket]

/-- A connect that times out gives back what it obtained. -/
theorem step_openTcp_timeout {k : Connect} {h : Nat} (hk : k.connected = false)
    (ho : clientOpen s.net.stubs k.available = some h) :
    step closesocket s (.openTcp c k) = (s.obtain c h).release c h := by
  simp [step, Net.step, Net.zOpenTcp, Ledger.step, State.obtain, State.release, ho, hk,
    Net.setSocket, Net.nativeClose]

theorem step_closeTcp_closed (hs : Inv s) (hc : s.net.socket c < 0) :
    step closesocket s (.closeTcp c) = s := by
  have hheld : s.ledger.held c = none := by
    cases hh : s.ledger.held c with
    | none => rfl
    | some h => exact absurd (hs.socket c h hh) (by omega)
  simp [step, Net.step, Net.zCloseTcp, Ledger.step, Ledger.close_none hheld, Int.not_le.mpr hc]

theorem step_socketClose_closed (hheld : s.ledger.held c = none) (hc : s.net.socket c < 0) :
    step closesocket s (.socketClose c) = s.forget c := by
  simp [step, Net.step, Net.zSocketClose, Ledger.step, Ledger.close_none hheld, Int.not_le.mpr hc,
    State.forget]

theorem step_socketClose_open (hs : Inv s) {h : Nat} (hheld : s.ledger.held c = some h) :
    step closesocket s (.socketClose c) = s.release c h := by
  have hsock : s.net.socket c = h := hs.socket c h hheld
  have hcast : toSocket h = h := toSocket_handle (hs.opened c h hheld).1
  simp [step, Net.step, Net.zSocketClose, Ledger.step, State.release, hsock, hcast]

theorem inv_socketKill (hs : Inv s) (h : Nat) : Inv (step closesocket s (.socketKill h)) := by
  have hopened : ∀ h', (s.net.socketKill h).stubs h' = some .opened ↔ s.net.stubs h' = some .opened := by
    intro h'
    by_cases hclosing : s.net.stubs h = some .closing
    · by_cases hh : h' = h
      · simp [Net.socketKill, hclosing, hh]
      · simp [Net.socketKill, hclosing, hh]
    · simp [Net.socketKill, hclosing]
  have hrest : (s.net.socketKill h).closes = s.net.closes ∧
      (s.net.socketKill h).socket = s.net.socket := by
    unfold Net.socketKill
    split
    · exact ⟨rfl, rfl⟩
    · exact ⟨rfl, rfl⟩
  constructor
  · exact ⟨hrest.1.trans hs.paired.closes, fun h' ho => hs.paired.held h' ((hopened h').mp ho)⟩
  · intro d h' hd
    exact (congrFun hrest.2 d).trans (hs.socket d h' hd)
  · intro d h' hd
    exact ⟨(hs.opened d h' hd).1, (hopened h').mpr (hs.opened d h' hd).2⟩
  · exact hs.distinct

/-- A call that keeps to the condition keeps the invariant. -/
theorem inv_step (hs : Inv s) {e : Call Conn} (he : Kept s e) : Inv (step closesocket s e) := by
  cases e with
  | openTcp c k =>
    cases ho : clientOpen s.net.stubs k.available with
    | none =>
      rw [step_openTcp_refused he ho]
      exact hs.forget he
    | some h =>
      obtain ⟨hlt, hfree⟩ := clientOpen_eq_some ho
      have hobtain : Inv (s.obtain c h) := hs.obtain hlt hfree he
      cases hk : k.connected with
      | true => rwa [step_openTcp_connected hk ho]
      | false =>
        rw [step_openTcp_timeout hk ho]
        exact hobtain.release (by simp [State.obtain, Ledger.hold])
  | closeTcp c => rwa [step_closeTcp_closed hs he]
  | socketClose c =>
    cases hheld : s.ledger.held c with
    | none =>
      rw [step_socketClose_closed hheld (he hheld)]
      exact hs.forget hheld
    | some h =>
      rw [step_socketClose_open hs hheld]
      exact hs.release hheld
  | socketKill h => exact inv_socketKill hs h

theorem openTcp_held (k : Connect) : (step closesocket s (.openTcp c k)).ledger.held =
    Function.update s.ledger.held c
      (if k.connected then clientOpen s.net.stubs k.available else none) := by
  cases hk : k.connected with
  | true => simp [step, Ledger.step, Ledger.hold, hk]
  | false => simp [step, Ledger.step, Ledger.hold, Ledger.close, hk]

/-- An open leaves the sockets alone that are open already. -/
theorem openTcp_stubs (k : Connect) {other : Nat} (hopen : s.net.stubs other = some .opened) :
    (step closesocket s (.openTcp c k)).net.stubs other = some .opened := by
  cases ho : clientOpen s.net.stubs k.available with
  | none => simpa [step, Net.step, Net.zOpenTcp, Net.setSocket, ho] using hopen
  | some h =>
    obtain ⟨hlt, hfree⟩ := clientOpen_eq_some ho
    have hne : other ≠ h := by
      rintro rfl
      exact absurd (hfree.symm.trans hopen) (by simp)
    cases hk : k.connected with
    | true =>
      rw [step_openTcp_connected hk ho]
      simpa [State.obtain, hne] using hopen
    | false =>
      rw [step_openTcp_timeout hk ho]
      have hclose : tcpClose (s.obtain c h).net.stubs h =
          Function.update (s.obtain c h).net.stubs h (some .closing) :=
        tcpClose_handle hlt (by simp [State.obtain])
      have hstubs : ((s.obtain c h).release c h).net.stubs other = s.net.stubs other := by
        simp only [State.release, Net.setSocket, Net.nativeClose, hclose]
        simp [State.obtain, hne]
      exact hstubs.trans hopen

/-- A second open of an open connection loses the socket it holds. -/
theorem held_of_paired_openTcp (hs : Inv s) {k : Connect}
    (h : Paired (step closesocket s (.openTcp c k))) : s.ledger.held c = none := by
  cases hheld : s.ledger.held c with
  | none => rfl
  | some lost =>
    exfalso
    have hopen := (hs.opened c lost hheld).2
    obtain ⟨d, hd⟩ := h.held lost (openTcp_stubs k hopen)
    rw [openTcp_held] at hd
    by_cases hdc : d = c
    · rw [hdc, Function.update_self] at hd
      cases hk : k.connected with
      | true =>
        -- The stack hands out an empty slot only.
        rw [hk, if_pos rfl] at hd
        exact absurd ((clientOpen_eq_some hd).2.symm.trans hopen) (by simp)
      | false => exact absurd hd (by simp [hk])
    · rw [Function.update_of_ne hdc] at hd
      exact hdc (hs.distinct d c lost hd hheld)

/-- `_z_close_tcp` closes a Berkeley socket. -/
theorem socket_of_paired_closeTcp (h : Paired (step closesocket s (.closeTcp c))) :
    s.net.socket c < 0 := by
  by_contra hc
  have hlog : Close.berkeley (toSocket (s.net.socket c)) ∈
      (step closesocket s (.closeTcp c)).net.closes := by
    simp [step, Net.step, Net.zCloseTcp, Net.zhClosesocket, Net.setSocket, Int.not_lt.mp hc]
  rw [h.closes, List.mem_map] at hlog
  obtain ⟨h', -, hclose⟩ := hlog
  exact Close.noConfusion hclose

/-- `_z_socket_close` of a connection that holds nothing closes what is not its own. -/
theorem socket_of_paired_socketClose (hs : Inv s)
    (h : Paired (step closesocket s (.socketClose c))) (hheld : s.ledger.held c = none) :
    s.net.socket c < 0 := by
  by_contra hc
  have hlog := congrArg List.length h.closes
  simp [step, Net.step, Net.zSocketClose, Net.setSocket, Net.nativeClose, Ledger.step,
    Ledger.close_none hheld, Int.not_lt.mp hc, hs.paired.closes] at hlog

theorem paired_step_iff (hs : Inv s) (e : Call Conn) :
    Paired (step closesocket s e) ↔ Kept s e := by
  constructor
  · intro h
    cases e with
    | openTcp c k => exact held_of_paired_openTcp hs h
    | closeTcp c => exact socket_of_paired_closeTcp h
    | socketClose c => exact socket_of_paired_socketClose hs h
    | socketKill h => trivial
  · intro he
    exact (inv_step hs he).paired

end Calls

/-- All along a run every native socket is closed exactly once when its connection is, and nothing
else is, just when no open connection is closed by `_z_close_tcp` or opened again, and none that was
never open is closed through a `_socket` that looks like a handle. -/
theorem sockets_paired_iff (closesocket : Berkeley → Int → Berkeley) (socket : Conn → Int)
    (berkeley : Berkeley) (events : List (Call Conn)) :
    (∀ past, past <+: events → Paired (run (step closesocket) (boot socket berkeley) past)) ↔
      Always (step closesocket) (boot socket berkeley) Kept events := by
  apply prefixes_iff_always (I := fun _ s => Inv s) (P := fun _ s => Paired s)
  · exact Inv.boot socket berkeley
  · intro past hs
    exact hs.paired
  · intro past e hs
    rw [run_concat]
    exact paired_step_iff hs e
  · intro past e hs he
    rw [run_concat]
    exact inv_step hs he

/-- A connect that finds the link up at the first poll. -/
def promptConnect : Connect where
  tout := 0
  available := true
  answers := [true]
  returns := by decide

def closeBerkeley (table : Int → Bool) (s : Int) : Int → Bool := Function.update table s false

/-- After one connect and `_z_close_tcp`, the native socket 0 is open, no connection holds it, and
the Berkeley socket 0 is closed in its place. -/
theorem native_socket_leaks :
    let s := run (step closeBerkeley) (boot (fun _ : Nat => -1) fun _ => true)
      [.openTcp 0 promptConnect, .closeTcp 0]
    s.net.stubs 0 = some .opened ∧ s.ledger.held 0 = none ∧ s.ledger.owed = [0] ∧
      s.net.closes = [.berkeley 0] ∧ s.net.berkeley 0 = false ∧ ¬ Paired s := by
  refine ⟨by decide, by decide, by decide, by decide, by decide, fun h => ?_⟩
  exact absurd h.closes (by decide)

/-! ### Reconnects -/

section Reconnects

variable (closesocket : Berkeley → Int → Berkeley) (c : Conn) (k : Connect)

/-- The first `n` sockets of the table are open. -/
def firstOpened (n : Nat) : Stubs := fun h => if h < n then some .opened else none

theorem clientOpen_firstOpened (n : Nat) (hn : n ≤ tcpSockets) :
    clientOpen (firstOpened n) true = if n < tcpSockets then some n else none := by
  simp only [clientOpen, if_true]
  split
  · rename_i hlt
    rw [List.find?_range_eq_some]
    refine ⟨by simp [firstOpened], by simpa using hlt, fun h hh => ?_⟩
    simp [firstOpened, hh]
  · rename_i hge
    rw [List.find?_range_eq_none]
    intro h hh
    have hlt : h < n := by omega
    simp [firstOpened, hlt]

theorem openTcp_firstOpened {s : State Conn Berkeley} {n : Nat} (hn : n ≤ tcpSockets)
    (hk : k.connected = true) (ha : k.available = true) (hs : s.net.stubs = firstOpened n) :
    (step closesocket s (.openTcp c k)).net.stubs = firstOpened (min (n + 1) tcpSockets) := by
  have hopen : clientOpen s.net.stubs k.available = if n < tcpSockets then some n else none := by
    rw [hs, ha, clientOpen_firstOpened n hn]
  by_cases hlt : n < tcpSockets
  · rw [if_pos hlt] at hopen
    rw [step_openTcp_connected hk hopen, Nat.min_eq_left hlt]
    funext h
    by_cases hh : h = n
    · simp [State.obtain, firstOpened, hh]
    · have hiff : h < n ↔ h < n + 1 := by omega
      simp [State.obtain, firstOpened, hs, hh, hiff]
  · rw [if_neg hlt] at hopen
    have hfull : min (n + 1) tcpSockets = n := by omega
    rw [hfull]
    simpa [step, Net.step, Net.zOpenTcp, Net.setSocket, hopen] using hs

theorem closeTcp_stubs (s : State Conn Berkeley) :
    (step closesocket s (.closeTcp c)).net.stubs = s.net.stubs := by
  by_cases hc : 0 ≤ s.net.socket c
  · simp [step, Net.step, Net.zCloseTcp, Net.zhClosesocket, Net.setSocket, hc]
  · simp [step, Net.step, Net.zCloseTcp, hc]

/-- `n` times a connect and `_z_close_tcp`. -/
def reconnects : Nat → List (Call Conn)
  | 0 => []
  | n + 1 => reconnects n ++ [.openTcp c k, .closeTcp c]

theorem reconnects_leak (socket : Conn → Int) (berkeley : Berkeley) (hk : k.connected = true)
    (ha : k.available = true) (n : Nat) :
    (run (step closesocket) (boot socket berkeley) (reconnects c k n)).net.stubs =
      firstOpened (min n tcpSockets) := by
  induction n with
  | zero =>
    funext h
    simp [reconnects, boot, firstOpened]
  | succ n ih =>
    have hround := openTcp_firstOpened closesocket c k (Nat.min_le_right n tcpSockets) hk ha ih
    rw [reconnects, run_append, run_cons, run_cons, run_nil, closeTcp_stubs, hround]
    congr 1
    omega

end Reconnects

end Genoh.HarmonyTcp
