import Genoh.Bytes

/-!
# TCP endpoints of the Harmony port

`_z_create_endpoint_tcp` of `harmony/network.c`, and what `_z_open_tcp` reads from the endpoint. The
strings are without their NUL. `sscanf` and `atoi` convert as `strtoul` and `strtol` do, which stop
at the limits of their 32-bit types.
-/
namespace Genoh.TcpEndpoint

open Genoh.Bytes

/-! ## Numbers in strings -/

def isDigit (c : Byte) : Bool := 0x30 ≤ c && c ≤ 0x39

/-- The number that digits spell. -/
def decimal (digits : List Byte) : Nat := digits.foldl (fun v d => 10 * v + (d.toNat - 48)) 0

/-- A sign, and what stands behind it. -/
def takeSign : List Byte → Bool × List Byte
  | [] => (false, [])
  | c :: s => if c = 0x2D then (true, s) else if c = 0x2B then (false, s) else (false, c :: s)

/-- Sign, digits and rest behind white space; none without a digit. -/
def scanDigits (s : List Byte) : Option (Bool × List Byte × List Byte) :=
  let (negative, s) := takeSign (s.dropWhile fun c => isAsciiSpace c.toNat)
  let digits := s.takeWhile isDigit
  if digits = [] then none else some (negative, digits, s.dropWhile isDigit)

/-- `%u`: the value and the rest of the text. -/
def scanU (s : List Byte) : Option (BitVec 32 × List Byte) :=
  match scanDigits s with
  | none => none
  | some (negative, digits, rest) =>
    let value :=
      if decimal digits < 2 ^ 32 then
        if negative then -BitVec.ofNat 32 (decimal digits) else BitVec.ofNat 32 (decimal digits)
      else BitVec.allOnes 32
    some (value, rest)

/-- `atoi`. -/
def atoi (s : List Byte) : Int :=
  match scanDigits s with
  | none => 0
  | some (negative, digits, _) =>
    if negative then max (-(decimal digits : Int)) (-2 ^ 31) else min (decimal digits : Int) (2 ^ 31 - 1)

def dot : Byte := 0x2E

/-- The values that `sscanf` converts for so many `%u`, with a dot between any two. -/
def sscanfDotted : Nat → List Byte → List (BitVec 32)
  | 0, _ => []
  | n + 1, s =>
    match scanU s with
    | none => []
    | some (value, []) => [value]
    | some (value, c :: rest) => if c = dot then value :: sscanfDotted n rest else [value]

/-! ## Endpoints -/

def afInet : Nat := 2
def sockStream : Nat := 100
def ipprotoTcp : Nat := 6

/-- `struct sockaddr_in`, packed: 16 bytes. -/
structure SockaddrIn where
  sinFamily : Nat
  sinPort : BitVec 16
  sAddr : BitVec 32
  deriving DecidableEq, Repr

def sockaddrInSize : Nat := 16

structure AddrInfo where
  aiFamily : Nat
  aiSocktype : Nat
  aiProtocol : Nat
  aiAddrlen : Nat
  aiAddr : SockaddrIn
  deriving DecidableEq, Repr

def resOk : Int := 0
def errGeneric : Int := -128

def htons (x : BitVec 16) : BitVec 16 := (x <<< 8) ||| (x >>> 8)

/-- The address of the four values; zero, as `memset` left it, unless there are four. -/
def sAddrOf : List (BitVec 32) → BitVec 32
  | [a, b, c, d] => a ||| (b <<< 8) ||| (c <<< 16) ||| (d <<< 24)
  | _ => 0

/-- `_z_create_endpoint_tcp` on the `_iptcp` of the endpoint; the return behind the block that fills
in the address is never passed. -/
def zCreateEndpointTcp (iptcp : Option AddrInfo) (sAddress sPort : List Byte) (allocated : Bool) :
    Int × Option AddrInfo :=
  if allocated = false then (errGeneric, iptcp)
  else
    let sin : SockaddrIn := {
      sinFamily := afInet
      sinPort := htons (BitVec.ofInt 16 (atoi sPort))
      sAddr := sAddrOf (sscanfDotted 4 sAddress) }
    let ai : AddrInfo := {
      aiFamily := afInet
      aiSocktype := sockStream
      aiProtocol := ipprotoTcp
      aiAddrlen := sockaddrInSize
      aiAddr := sin }
    (resOk, some ai)

/-- The bytes `v` of an `IPV4_ADDR`. -/
def addrBytes (val : BitVec 32) : List Byte :=
  [val.setWidth 8, (val >>> 8).setWidth 8, (val >>> 16).setWidth 8, (val >>> 24).setWidth 8]

/-- The address and the port that `_z_open_tcp` hands to `TCPIP_TCP_ClientOpen`. -/
def openReads (ai : AddrInfo) : List Byte × BitVec 16 :=
  (addrBytes ai.aiAddr.sAddr, htons ai.aiAddr.sinPort)

/-! ## Addresses and ports -/

structure IsNumber (digits : List Byte) (value : Nat) : Prop where
  ne_nil : digits ≠ []
  all_digits : ∀ d ∈ digits, isDigit d = true
  value : decimal digits = value

/-- Four decimal octets with a dot between any two. -/
def IsAddress (s : List Byte) (a b c d : Nat) : Prop :=
  (∃ w x y z, s = w ++ dot :: (x ++ dot :: (y ++ dot :: z)) ∧
    IsNumber w a ∧ IsNumber x b ∧ IsNumber y c ∧ IsNumber z d) ∧
  a ≤ 255 ∧ b ≤ 255 ∧ c ≤ 255 ∧ d ≤ 255

def IsPort (s : List Byte) (n : Nat) : Prop := IsNumber s n ∧ 1 ≤ n ∧ n ≤ 65535

/-- What is asked of a call: an address with a port is stored as such, where there is memory, and
everything else is an error that stores nothing. -/
structure Meets (iptcp : Option AddrInfo) (sAddress sPort : List Byte) (allocated : Bool) : Prop where
  stores : allocated = true → ∀ a b c d n, IsAddress sAddress a b c d → IsPort sPort n →
    (zCreateEndpointTcp iptcp sAddress sPort allocated).1 = resOk ∧
      ∃ ai, (zCreateEndpointTcp iptcp sAddress sPort allocated).2 = some ai ∧
        (openReads ai).1.map BitVec.toNat = [a, b, c, d] ∧ (openReads ai).2.toNat = n
  fails : ¬ (allocated = true ∧
      (∃ a b c d, IsAddress sAddress a b c d) ∧ ∃ n, IsPort sPort n) →
    (zCreateEndpointTcp iptcp sAddress sPort allocated).1 ≠ resOk ∧
      (zCreateEndpointTcp iptcp sAddress sPort allocated).2 = iptcp

/-! ## Conversions -/

theorem digit_not_space {c : Byte} (h : isDigit c = true) : isAsciiSpace c.toNat = false := by
  revert h
  revert c
  decide

theorem digit_not_sign {c : Byte} (h : isDigit c = true) : c ≠ 0x2D ∧ c ≠ 0x2B := by
  revert h
  revert c
  decide

/-- Digits up to the end of the text or up to something else. -/
theorem scanDigits_number {digits : List Byte} {value : Nat} (h : IsNumber digits value)
    {rest : List Byte} (hrest : ∀ c ∈ rest.head?, isDigit c = false) :
    scanDigits (digits ++ rest) = some (false, digits, rest) := by
  have hstop : rest.takeWhile isDigit = [] ∧ rest.dropWhile isDigit = rest := by
    cases rest with
    | nil => exact ⟨rfl, rfl⟩
    | cons c rest =>
      have hc := hrest c rfl
      exact ⟨List.takeWhile_cons_of_neg (by simp [hc]), List.dropWhile_cons_of_neg (by simp [hc])⟩
  have htake : (digits ++ rest).takeWhile isDigit = digits := by
    rw [List.takeWhile_append_of_pos h.all_digits, hstop.1, List.append_nil]
  have hdrop : (digits ++ rest).dropWhile isDigit = rest := by
    rw [List.dropWhile_append_of_pos h.all_digits, hstop.2]
  have hfront : takeSign ((digits ++ rest).dropWhile fun c => isAsciiSpace c.toNat) = (false, digits ++ rest) := by
    cases hdigits : digits with
    | nil => exact absurd hdigits h.ne_nil
    | cons c ds =>
      have hc : isDigit c = true := h.all_digits c (by simp [hdigits])
      rw [List.cons_append, List.dropWhile_cons_of_neg (by simp [digit_not_space hc]), takeSign,
        if_neg (digit_not_sign hc).1, if_neg (digit_not_sign hc).2]
  simp only [scanDigits, hfront, htake, hdrop, if_neg h.ne_nil]

theorem scanU_number {digits : List Byte} {value : Nat} (h : IsNumber digits value)
    (hvalue : value ≤ 255) {rest : List Byte} (hrest : ∀ c ∈ rest.head?, isDigit c = false) :
    scanU (digits ++ rest) = some (BitVec.ofNat 32 value, rest) := by
  simp only [scanU, scanDigits_number h hrest, h.value]
  rw [if_pos (by omega)]
  rfl

theorem sscanfDotted_dot {digits : List Byte} {value : Nat} (h : IsNumber digits value)
    (hvalue : value ≤ 255) (n : Nat) (rest : List Byte) :
    sscanfDotted (n + 1) (digits ++ dot :: rest) = BitVec.ofNat 32 value :: sscanfDotted n rest := by
  have hdot : ∀ c ∈ (dot :: rest).head?, isDigit c = false := by
    intro c hc
    obtain rfl := Option.some.inj hc
    rfl
  simp only [sscanfDotted, scanU_number h hvalue hdot, if_true]

theorem sscanfDotted_last {digits : List Byte} {value : Nat} (h : IsNumber digits value)
    (hvalue : value ≤ 255) (n : Nat) : sscanfDotted (n + 1) digits = [BitVec.ofNat 32 value] := by
  have hend : ∀ c ∈ ([] : List Byte).head?, isDigit c = false := fun c hc => by cases hc
  have hscan := scanU_number h hvalue hend
  rw [List.append_nil] at hscan
  simp only [sscanfDotted, hscan]

theorem sscanfDotted_address {s : List Byte} {a b c d : Nat} (h : IsAddress s a b c d) :
    sscanfDotted 4 s =
      [BitVec.ofNat 32 a, BitVec.ofNat 32 b, BitVec.ofNat 32 c, BitVec.ofNat 32 d] := by
  obtain ⟨⟨w, x, y, z, rfl, hw, hx, hy, hz⟩, ha, hb, hc, hd⟩ := h
  rw [sscanfDotted_dot hw ha, sscanfDotted_dot hx hb, sscanfDotted_dot hy hc,
    sscanfDotted_last hz hd]

theorem atoi_number {digits : List Byte} {value : Nat} (h : IsNumber digits value)
    (hvalue : value ≤ 65535) : atoi digits = value := by
  have hend : ∀ c ∈ ([] : List Byte).head?, isDigit c = false := fun c hc => by cases hc
  have hscan := scanDigits_number h hend
  rw [List.append_nil] at hscan
  simp only [atoi, hscan, h.value, Bool.false_eq_true, if_false]
  omega

/-! ## Byte order -/

theorem htons_htons (x : BitVec 16) : htons (htons x) = x := by
  have hover : ∀ i, x.getLsbD (8 + (8 + i)) = false := fun i => BitVec.getLsbD_of_ge _ _ (by omega)
  ext i hi
  by_cases hlow : i < 8
  · have hback : 8 + i < 16 := by omega
    simp [htons, hlow, hback, hover]
  · have hhigh : i - 8 < 8 := by omega
    have hback : ¬ 8 + i < 16 := by omega
    have hsum : 8 + (i - 8) = i := by omega
    simp [htons, hlow, hhigh, hback, hsum, hover, BitVec.getLsbD_eq_getElem hi]

theorem addrBytes_or (a b c d : Byte) :
    addrBytes (a.setWidth 32 ||| (b.setWidth 32 <<< 8) ||| (c.setWidth 32 <<< 16) |||
      (d.setWidth 32 <<< 24)) = [a, b, c, d] := by
  have hover : ∀ (x : Byte) (i : Nat), 8 ≤ i → x.getLsbD i = false :=
    fun x i hi => BitVec.getLsbD_of_ge x i hi
  have hget : ∀ (x : Byte) (i : Nat) (hi : i < 8), x.getLsbD i = x[i] :=
    fun x i hi => BitVec.getLsbD_eq_getElem hi
  rw [addrBytes]
  congr 1
  · ext i hi
    simp
  congr 1
  · ext i hi
    have hplace : 8 + i < 16 ∧ 8 + i < 24 ∧ 8 + i < 32 ∧ i < 32 := by omega
    simp [hplace, hget b i hi]
  congr 1
  · ext i hi
    have hplace : ¬ 16 + i < 16 ∧ 16 + i < 24 ∧ 16 + i < 32 ∧ i < 32 := by omega
    have hgap : 16 + i - 8 = 8 + i := by omega
    simp [hplace, hgap, hget c i hi, hover a (16 + i) (by omega)]
  congr 1
  · ext i hi
    have hplace : ¬ 24 + i < 16 ∧ ¬ 24 + i < 24 ∧ 24 + i < 32 ∧ i < 32 := by omega
    have hgap : 24 + i - 8 = 16 + i ∧ 24 + i - 16 = 8 + i := by omega
    simp [hplace, hgap, hget d i hi, hover a (24 + i) (by omega), hover b (16 + i) (by omega)]

theorem ofNat_octet {n : Nat} (h : n ≤ 255) : BitVec.ofNat 32 n = (BitVec.ofNat 8 n).setWidth 32 := by
  apply BitVec.eq_of_toNat_eq
  rw [BitVec.toNat_setWidth, BitVec.toNat_ofNat, BitVec.toNat_ofNat]
  omega

theorem addrBytes_address {s : List Byte} {a b c d : Nat} (h : IsAddress s a b c d) :
    (addrBytes (sAddrOf (sscanfDotted 4 s))).map BitVec.toNat = [a, b, c, d] := by
  have hoctet : ∀ n ≤ 255, (BitVec.ofNat 8 n).toNat = n := by
    intro n hn
    rw [BitVec.toNat_ofNat]
    omega
  rw [sscanfDotted_address h, sAddrOf]
  obtain ⟨-, ha, hb, hc, hd⟩ := h
  rw [ofNat_octet ha, ofNat_octet hb, ofNat_octet hc, ofNat_octet hd, addrBytes_or]
  simp only [List.map_cons, List.map_nil, hoctet a ha, hoctet b hb, hoctet c hc, hoctet d hd]

theorem port_round_trip {s : List Byte} {n : Nat} (h : IsPort s n) :
    (htons (htons (BitVec.ofInt 16 (atoi s)))).toNat = n := by
  obtain ⟨hnumber, -, hle⟩ := h
  rw [htons_htons, atoi_number hnumber hle, BitVec.ofInt_natCast, BitVec.toNat_ofNat]
  omega

/-! ## Acceptance -/

/-- The function does what is asked of it just when memory runs out or the strings are an address and a
port: it takes all others as well. -/
theorem create_endpoint_iff (iptcp : Option AddrInfo) (sAddress sPort : List Byte)
    (allocated : Bool) :
    Meets iptcp sAddress sPort allocated ↔
      (allocated = true → (∃ a b c d, IsAddress sAddress a b c d) ∧ ∃ n, IsPort sPort n) := by
  constructor
  · intro hmeets hallocated
    by_contra hinvalid
    obtain ⟨hret, -⟩ := hmeets.fails fun h => hinvalid h.2
    exact hret (by rw [zCreateEndpointTcp, if_neg (by simp [hallocated])])
  · intro hvalid
    constructor
    · intro hallocated a b c d n haddress hport
      rw [zCreateEndpointTcp, if_neg (by simp [hallocated])]
      exact ⟨rfl, _, rfl, addrBytes_address haddress, port_round_trip hport⟩
    · intro hinvalid
      have hfull : allocated = false := by
        rw [← Bool.not_eq_true]
        exact fun hallocated => hinvalid ⟨hallocated, hvalid hallocated⟩
      rw [zCreateEndpointTcp, if_pos hfull]
      exact ⟨show errGeneric ≠ resOk by decide, rfl⟩

/-- An address starts with a digit. -/
theorem address_head {s : List Byte} {a b c d : Nat} (h : IsAddress s a b c d) :
    ∃ first ∈ s.head?, isDigit first = true := by
  obtain ⟨⟨w, x, y, z, rfl, hw, -⟩, -⟩ := h
  cases w with
  | nil => exact absurd rfl hw.ne_nil
  | cons first w => exact ⟨first, rfl, hw.all_digits first List.mem_cons_self⟩

/-- `localhost`. -/
def localhost : List Byte := [0x6C, 0x6F, 0x63, 0x61, 0x6C, 0x68, 0x6F, 0x73, 0x74]

/-- A host name is taken for the address 0.0.0.0. -/
theorem create_endpoint_host_name :
    ¬ ∀ (iptcp : Option AddrInfo) (sAddress sPort : List Byte) (allocated : Bool),
      Meets iptcp sAddress sPort allocated := by
  intro hall
  have hmeets := hall none localhost [0x37, 0x34, 0x34, 0x37] true
  obtain ⟨hret, -⟩ := hmeets.fails fun h => by
    obtain ⟨-, ⟨a, b, c, d, haddress⟩, -⟩ := h
    obtain ⟨first, hfirst, hdigit⟩ := address_head haddress
    obtain rfl := Option.some.inj hfirst
    exact absurd hdigit (by decide)
  exact hret rfl

end Genoh.TcpEndpoint
