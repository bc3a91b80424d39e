import Genoh.Fragmentation

/-!
# Reassembly

What reaches the decoder of a peer from a transport whose messages have one reliability, as all have
without the unstable API: with losses nothing but whole messages, without losses every message that
the buffer holds. The frames come on one conduit and the fragments on the other.
-/
namespace Genoh.Reassembly

open Genoh.Bytes Genoh.Fragmentation

/-! ## The buffer -/

section Fill

variable {c : Conduit} (more : Bool) (payload : List Byte)

theorem fill_overflow (h : c.state = .overflow) :
    fill c more payload = (if more then c else c.clear, []) := by
  cases more <;> simp [fill, h]

theorem fill_large (hstate : c.state ≠ .overflow) (hnull : c.state = .null → c.dbuf = [])
    (hlarge : fragMaxSize < c.dbuf.length + payload.length) :
    fill c more payload = (if more then { c with state := .overflow } else c.clear, []) := by
  obtain ⟨snRx, dbuf, state⟩ := c
  cases state with
  | null =>
    obtain rfl : dbuf = [] := hnull rfl
    rw [List.length_nil, Nat.zero_add] at hlarge
    cases more <;> simp [fill, hlarge, Conduit.clear]
  | init => cases more <;> simp [fill, hlarge, Conduit.clear]
  | overflow => exact absurd rfl hstate

theorem fill_small (hstate : c.state ≠ .overflow) (hnull : c.state = .null → c.dbuf = [])
    (hsmall : c.dbuf.length + payload.length ≤ fragMaxSize) :
    fill c more payload =
      if more then ({ c with dbuf := c.dbuf ++ payload, state := .init }, [])
      else (c.clear, [c.dbuf ++ payload]) := by
  obtain ⟨snRx, dbuf, state⟩ := c
  have hsmall := Nat.not_lt.mpr hsmall
  cases state with
  | null =>
    obtain rfl : dbuf = [] := hnull rfl
    rw [List.length_nil, Nat.zero_add] at hsmall
    cases more <;> simp [fill, hsmall, Conduit.clear]
  | init => cases more <;> simp [fill, hsmall, Conduit.clear]
  | overflow => exact absurd rfl hstate

end Fill

/-! ## Under losses -/

/-- Fewer messages in a row are lost than there are numbers, where some have been lost before. -/
def LossesBelow (limit : Nat) : Nat → List (Message × Bool) → Prop
  | _, [] => True
  | lost, (_, false) :: rest => LossesBelow limit (lost + 1) rest
  | lost, (_, true) :: rest => lost < limit ∧ LossesBelow limit 0 rest

/-- What a conduit holds of the message under way. -/
structure Holds (bits : Fin 4) (n lost : Nat) (under : Option (List Byte)) (c : Conduit) : Prop where
  null : c.state = .null → c.dbuf = []
  last : c.dbuf ≠ [] → ∃ a, c.snRx.toNat = a % modulus bits ∧ n = a + (lost + 1)
  whole : c.dbuf ≠ [] → lost = 0 → c.state = .init → ∀ data, under = some data → c.dbuf = data

theorem holds_empty {bits : Fin 4} {n lost : Nat} {under : Option (List Byte)} {c : Conduit}
    (h : c.dbuf = []) : Holds bits n lost under c :=
  ⟨fun _ => h, fun hne => absurd h hne, fun hne => absurd h hne⟩

theorem receive_append (res : Zint) (markers : Bool) (c : Conduit)
    (front back : List (Message × Bool)) :
    receive res markers c (front ++ back) =
      ((receive res markers (receive res markers c front).1 back).1,
        (receive res markers c front).2 ++
          (receive res markers (receive res markers c front).1 back).2) := by
  induction front generalizing c with
  | nil => rfl
  | cons e front ih =>
    obtain ⟨m, arrives⟩ := e
    cases arrives with
    | false => exact ih c
    | true =>
      rw [List.cons_append, receive, receive]
      dsimp only
      rw [ih, List.append_assoc]

theorem receive_singleton (res : Zint) (markers : Bool) (c : Conduit) (m : Message) :
    receive res markers c [(m, true)] = handle res markers c m :=
  Prod.ext rfl (List.append_nil _)

section Losses

variable {bits : Fin 4} {n lost : Nat} {under : Option (List Byte)} {c : Conduit}

theorem fill_holds (more : Bool) (payload held : List Byte) (hsn : c.snRx.toNat = n % modulus bits)
    (hnull : c.state = .null → c.dbuf = []) (hheld : c.state ≠ .overflow → c.dbuf = held) :
    Holds bits (n + 1) 0 (if more then some (held ++ payload) else none) (fill c more payload).1 ∧
      ((fill c more payload).2 = [] ∨
        (fill c more payload).2 = if more then [] else [held ++ payload]) := by
  have hlast : ∃ a, c.snRx.toNat = a % modulus bits ∧ n + 1 = a + (0 + 1) := ⟨n, hsn, rfl⟩
  by_cases hover : c.state = .overflow
  · rw [fill_overflow more payload hover]
    cases more with
    | true => exact ⟨⟨hnull, fun _ => hlast, fun _ _ hinit => by simp [hover] at hinit⟩, .inl rfl⟩
    | false => exact ⟨holds_empty rfl, .inl rfl⟩
  · by_cases hsize : c.dbuf.length + payload.length ≤ fragMaxSize
    · rw [fill_small more payload hover hnull hsize, hheld hover]
      cases more with
      | true =>
        exact ⟨⟨by simp, fun _ => hlast, fun _ _ _ data hdata => Option.some.inj hdata⟩, .inl rfl⟩
      | false => exact ⟨holds_empty rfl, .inr rfl⟩
    · rw [fill_large more payload hover hnull (Nat.lt_of_not_le hsize)]
      cases more with
      | true => exact ⟨⟨by simp, fun _ => hlast, fun _ _ hinit => by simp at hinit⟩, .inl rfl⟩
      | false => exact ⟨holds_empty rfl, .inl rfl⟩

/-- A fragment that comes behind the last arrival, or into an empty buffer. -/
theorem handleMarked_holds {more first drop : Bool} {payload : List Byte}
    (hplaced : Placed under (.fragment more first drop payload))
    (hsn : c.snRx.toNat = n % modulus bits) (hnull : c.state = .null → c.dbuf = [])
    (hwhole : c.dbuf ≠ [] → c.state = .init → ∀ data, under = some data → c.dbuf = data) :
    Holds bits (n + 1) 0 (progress under (.fragment more first drop payload))
        (handleMarked true c more first drop payload).1 ∧
      ((handleMarked true c more first drop payload).2 = [] ∨
        (handleMarked true c more first drop payload).2 =
          completed under (.fragment more first drop payload)) := by
  rw [handleMarked, if_pos rfl]
  by_cases hstop : first = false ∧ c.dbuf = []
  · rw [if_pos hstop]
    exact ⟨holds_empty hstop.2, .inl rfl⟩
  rw [if_neg hstop, progress, completed]
  cases drop with
  | true => exact ⟨holds_empty rfl, .inl rfl⟩
  | false =>
    simp only [Bool.false_eq_true, if_false]
    cases first with
    | true => exact fill_holds more payload [] hsn (fun _ => rfl) fun _ => rfl
    | false =>
      have hne : c.dbuf ≠ [] := fun hempty => hstop ⟨rfl, hempty⟩
      refine fill_holds more payload (under.getD []) hsn hnull fun hover => ?_
      cases under with
      | none => exact absurd (hplaced.mpr rfl) (by decide)
      | some data =>
        cases hstate : c.state with
        | null => exact absurd (hnull hstate) hne
        | init => exact hwhole hne hstate data rfl
        | overflow => exact absurd hstate hover

/-- What arrives gives nothing to the decoder, or what it ends. -/
theorem handle_holds {m : Message} (hplaced : Placed under m.item)
    (hsn : m.sn.toNat = n % modulus bits) (hlost : lost < modulus bits)
    (h : Holds bits n lost under c) :
    Holds bits (n + 1) 0 (progress under m.item) (handle (snMax bits) true c m).1 ∧
      ((handle (snMax bits) true c m).2 = [] ∨
        (handle (snMax bits) true c m).2 = completed under m.item) := by
  unfold handle
  split
  · cases hitem : m.item with
    | frame payload =>
      exact ⟨⟨h.null, fun _ => ⟨n, hsn, rfl⟩, fun _ _ _ _ hdata => by simp [progress] at hdata⟩,
        .inr rfl⟩
    | fragment more first drop payload =>
      dsimp only
      by_cases hgap : snConsecutive (snMax bits) c.snRx m.sn = false ∧ c.dbuf ≠ []
      · rw [if_pos hgap]
        exact ⟨holds_empty rfl, .inl rfl⟩
      · rw [if_neg hgap]
        refine handleMarked_holds (hitem ▸ hplaced) hsn h.null fun hne => h.whole hne ?_
        -- an arrival behind losses has another distance
        obtain ⟨a, ha, rfl⟩ := h.last hne
        have hone : snConsecutive (snMax bits) c.snRx m.sn = true := by
          by_contra hfalse
          exact hgap ⟨Bool.not_eq_true _ ▸ hfalse, hne⟩
        rw [snConsecutive_iff ha hsn] at hone
        obtain heq | hlt := Nat.eq_or_lt_of_le (show lost + 1 ≤ modulus bits from hlost)
        · rw [heq, Nat.mod_self] at hone
          exact absurd hone (by decide)
        · rw [Nat.mod_eq_of_lt hlt] at hone
          exact Nat.succ.inj hone
  · exact ⟨holds_empty rfl, .inl rfl⟩

/-- What does not arrive on a conduit. -/
theorem Holds.skip (h : Holds bits n lost under c) (under' : Option (List Byte)) :
    Holds bits (n + 1) (lost + 1) under' c := by
  refine ⟨h.null, fun hne => ?_, fun _ hzero => absurd hzero (Nat.succ_ne_zero lost)⟩
  obtain ⟨a, ha, rfl⟩ := h.last hne
  exact ⟨a, ha, rfl⟩

end Losses

/-! ## Without losses -/

/-- A conduit in step with the sender, where some numbers have passed since its last message: the
whole of the message under way, or too much of it. -/
structure InStep (bits : Fin 4) (n lost : Nat) (under : Option (List Byte)) (c : Conduit) : Prop where
  last : ∃ a, c.snRx.toNat = a % modulus bits ∧ n = a + (lost + 1)
  within : under ≠ none → lost = 0
  idle : under = none → c.state = .null ∧ c.dbuf = []
  small : ∀ data, under = some data → data.length ≤ fragMaxSize → c.state = .init ∧ c.dbuf = data
  large : ∀ data, under = some data → fragMaxSize < data.length →
    c.state = .overflow ∧ c.dbuf ≠ []
  nonempty : ∀ data, under = some data → data ≠ []

section InStep

variable {bits : Fin 4} {n lost : Nat} {under : Option (List Byte)} {c : Conduit} {markers : Bool}

/-- The next number is in reach, and the next one within a message. -/
theorem InStep.advance (h : InStep bits n lost under c) {m : Message} (hlost : lost < reach bits)
    (hsn : m.sn.toNat = n % modulus bits) :
    snPrecedes (snMax bits) c.snRx m.sn = true ∧
      ¬ (snConsecutive (snMax bits) c.snRx m.sn = false ∧ c.dbuf ≠ []) := by
  obtain ⟨a, ha, rfl⟩ := h.last
  refine ⟨snPrecedes_of_le ha hsn (Nat.succ_pos lost) hlost, ?_⟩
  rintro ⟨hgap, hne⟩
  have hwithin : under ≠ none := fun hnone => hne (h.idle hnone).2
  obtain rfl := h.within hwithin
  have hone : snConsecutive (snMax bits) c.snRx m.sn = true := by
    rw [snConsecutive_iff ha hsn]
    obtain hm | hm | hm | hm := modulus_cases bits <;> rw [hm] <;> rfl
  rw [hone] at hgap
  cases hgap

/-- What passes on the other conduit, between two messages. -/
theorem InStep.skip (h : InStep bits n lost none c) : InStep bits (n + 1) (lost + 1) none c := by
  obtain ⟨a, ha, rfl⟩ := h.last
  exact ⟨⟨a, ha, rfl⟩, fun hne => absurd rfl hne, h.idle, by simp, by simp, by simp⟩

/-- A message under way that the buffer holds. -/
theorem inStep_small {data : List Byte} (hlast : ∃ a, c.snRx.toNat = a % modulus bits ∧ n = a + (0 + 1))
    (hstate : c.state = .init) (hdbuf : c.dbuf = data) (hfits : data.length ≤ fragMaxSize)
    (hne : data ≠ []) : InStep bits n 0 (some data) c where
  last := hlast
  within _ := rfl
  idle hnone := by cases hnone
  small data' hdata _ := ⟨hstate, hdbuf.trans (Option.some.inj hdata)⟩
  large data' hdata hlong := by
    obtain rfl := Option.some.inj hdata
    exact absurd hlong (Nat.not_lt_of_le hfits)
  nonempty data' hdata := Option.some.inj hdata ▸ hne

/-- A message under way that is too long for it. -/
theorem inStep_large {data : List Byte} (hlast : ∃ a, c.snRx.toNat = a % modulus bits ∧ n = a + (0 + 1))
    (hstate : c.state = .overflow) (hdbuf : c.dbuf ≠ []) (hlong : fragMaxSize < data.length) :
    InStep bits n 0 (some data) c where
  last := hlast
  within _ := rfl
  idle hnone := by cases hnone
  small data' hdata hfits := by
    obtain rfl := Option.some.inj hdata
    exact absurd hfits (Nat.not_le_of_lt hlong)
  large _ _ _ := ⟨hstate, hdbuf⟩
  nonempty data' hdata := by
    obtain rfl := Option.some.inj hdata
    rintro rfl
    cases hlong

theorem fill_inStep (more : Bool) (held : List Byte) {payload : List Byte}
    (hsn : c.snRx.toNat = n % modulus bits) (hpayload : payload ≠ [])
    (hsize : payload.length ≤ batchUnicastSize) (hnull : c.state = .null → c.dbuf = [])
    (hsmall : held.length ≤ fragMaxSize → c.state ≠ .overflow ∧ c.dbuf = held)
    (hlarge : fragMaxSize < held.length → c.state = .overflow ∧ c.dbuf ≠ []) :
    InStep bits (n + 1) 0 (if more then some (held ++ payload) else none) (fill c more payload).1 ∧
      (fill c more payload).2 =
        if more then [] else [held ++ payload].filter (·.length ≤ fragMaxSize) := by
  have hlast : ∃ a, c.snRx.toNat = a % modulus bits ∧ n + 1 = a + (0 + 1) := ⟨n, hsn, rfl⟩
  have hidle : InStep bits (n + 1) 0 none c.clear :=
    ⟨hlast, fun _ => rfl, fun _ => ⟨rfl, rfl⟩, by simp, by simp, by simp⟩
  obtain hheld | hheld := Nat.lt_or_ge fragMaxSize held.length
  · obtain ⟨hover, hne⟩ := hlarge hheld
    have hlong : fragMaxSize < (held ++ payload).length := by
      rw [List.length_append]
      omega
    rw [fill_overflow more payload hover]
    cases more with
    | true => exact ⟨inStep_large hlast hover hne hlong, rfl⟩
    | false => exact ⟨hidle, by simp only [Bool.false_eq_true, if_false]; simpa using hlong⟩
  · obtain ⟨hover, hdbuf⟩ := hsmall hheld
    by_cases hfits : (held ++ payload).length ≤ fragMaxSize
    · rw [fill_small more payload hover hnull (by rwa [hdbuf, ← List.length_append]), hdbuf]
      cases more with
      | true => exact ⟨inStep_small hlast rfl rfl hfits (by simp [hpayload]), rfl⟩
      | false =>
        refine ⟨hidle, ?_⟩
        simp only [Bool.false_eq_true, if_false]
        rw [List.filter_cons_of_pos (by simpa using hfits)]
        rfl
    · have hlong := Nat.lt_of_not_le hfits
      rw [fill_large more payload hover hnull (by rwa [hdbuf, ← List.length_append])]
      have hne : held ≠ [] := by
        -- one payload alone is no longer than a batch
        rintro rfl
        rw [List.nil_append] at hlong
        exact absurd (hlong.trans_le hsize) (by decide)
      cases more with
      | true => exact ⟨inStep_large hlast rfl (by rwa [hdbuf]) hlong, rfl⟩
      | false => exact ⟨hidle, by simp only [Bool.false_eq_true, if_false]; simpa using hlong⟩

theorem handleMarked_first (c : Conduit) (more : Bool) (payload : List Byte) (h : c.dbuf = []) :
    handleMarked markers c more true false payload = fill c more payload := by
  obtain ⟨snRx, dbuf, state⟩ := c
  obtain rfl : dbuf = [] := h
  cases markers <;> rfl

theorem handleMarked_within (c : Conduit) (more : Bool) (payload : List Byte) (h : c.dbuf ≠ []) :
    handleMarked markers c more false false payload = fill c more payload := by
  cases markers <;> simp [handleMarked, h]

theorem handle_inStep (markers : Bool) {m : Message} (hplaced : Placed under m.item) (hplain : Plain m.item)
    (hsn : m.sn.toNat = n % modulus bits) (hlost : lost < reach bits) (h : InStep bits n lost under c) :
    InStep bits (n + 1) 0 (progress under m.item) (handle (snMax bits) markers c m).1 ∧
      (handle (snMax bits) markers c m).2 =
        (completed under m.item).filter (·.length ≤ fragMaxSize) := by
  obtain ⟨hprecedes, hgap⟩ := h.advance hlost hsn
  rw [handle, if_pos hprecedes]
  dsimp only
  cases hitem : m.item with
  | frame payload =>
    rw [hitem] at hplaced hplain
    obtain ⟨hnull, hempty⟩ := h.idle hplaced
    refine ⟨⟨⟨n, hsn, rfl⟩, fun _ => rfl, fun _ => ⟨hnull, hempty⟩, by simp [progress],
      by simp [progress], by simp [progress]⟩, ?_⟩
    have hfits : payload.length ≤ fragMaxSize := le_trans hplain (by decide)
    rw [completed, List.filter_cons_of_pos (by simpa using hfits)]
    rfl
  | fragment more first drop payload =>
    rw [hitem] at hplaced hplain
    obtain ⟨rfl, hpayload, hsize⟩ := hplain
    have hcompleted : (completed under (.fragment more first false payload)).filter
        (·.length ≤ fragMaxSize) =
          if more then [] else [grown under first payload].filter (·.length ≤ fragMaxSize) := by
      cases more <;> rfl
    dsimp only
    rw [if_neg hgap, hcompleted]
    cases under with
    | none =>
      obtain rfl : first = true := hplaced.mpr rfl
      obtain ⟨hnull, hempty⟩ := h.idle rfl
      rw [handleMarked_first { c with snRx := m.sn } more payload hempty]
      exact fill_inStep (c := { c with snRx := m.sn }) more [] hsn hpayload hsize
        (fun _ => hempty) (fun _ => ⟨by simp [hnull], hempty⟩) (by simp)
    | some data =>
      have hfirst : first = false := by
        rw [← Bool.not_eq_true]
        exact fun htrue => absurd (hplaced.mp htrue) (by simp)
      obtain rfl := hfirst
      have hne : c.dbuf ≠ [] := by
        obtain hlt | hle := Nat.lt_or_ge fragMaxSize data.length
        · exact (h.large data rfl hlt).2
        · rw [(h.small data rfl hle).2]
          exact h.nonempty data rfl
      rw [handleMarked_within { c with snRx := m.sn } more payload hne]
      refine fill_inStep (c := { c with snRx := m.sn }) more data hsn hpayload hsize
        (fun hnull => ?_) (fun hle => ?_) (h.large data rfl)
      · obtain hlt | hle := Nat.lt_or_ge fragMaxSize data.length
        · exact absurd ((h.large data rfl hlt).1.symm.trans hnull) (by decide)
        · exact absurd ((h.small data rfl hle).1.symm.trans hnull) (by decide)
      · obtain ⟨hstate, hdbuf⟩ := h.small data rfl hle
        exact ⟨by simp [hstate], hdbuf⟩

theorem receive_inStep (markers : Bool) {sent : List Message} (hnumbered : Numbered bits n sent)
    (hplaced : WellPlaced under sent) (hplain : ∀ m ∈ sent, Plain m.item)
    (h : InStep bits n 0 under c) :
    InStep bits (n + sent.length) 0 (progressAll under sent)
        (receive (snMax bits) markers c (sent.map (·, true))).1 ∧
      (receive (snMax bits) markers c (sent.map (·, true))).2 =
        (completions under sent).filter (·.length ≤ fragMaxSize) := by
  induction sent generalizing n under c with
  | nil => exact ⟨h, rfl⟩
  | cons m rest ih =>
    obtain ⟨hnext, hout⟩ := handle_inStep markers (m := m) hplaced.1
      (hplain m List.mem_cons_self) hnumbered.1 (reach_pos bits) h
    obtain ⟨hend, hlater⟩ := ih hnumbered.2 hplaced.2
      (fun m' hm' => hplain m' (List.mem_cons_of_mem m hm')) hnext
    rw [List.length_cons, Nat.add_comm rest.length, ← Nat.add_assoc]
    refine ⟨hend, ?_⟩
    rw [completions, List.filter_append, ← hout, ← hlater]
    rfl

end InStep

/-! ## Peers -/

@[simp] theorem setConduit_self (p : Peer) (reliable : Bool) (c : Conduit) :
    (p.setConduit reliable c).conduit reliable = c := by
  cases reliable <;> rfl

@[simp] theorem setConduit_other (p : Peer) (reliable : Bool) (c : Conduit) :
    (p.setConduit reliable c).conduit (!reliable) = p.conduit (!reliable) := by
  cases reliable <;> rfl

/-- What is for a conduit arrives on it, and what is for the other one passes. -/
theorem arrivals_cons (reliable : Bool) (m : Message) (arrives : Bool)
    (run : List (Bool × Message × Bool)) :
    arrivals reliable ((reliable, m, arrives) :: run) = (m, arrives) :: arrivals reliable run ∧
      arrivals (!reliable) ((reliable, m, arrives) :: run) =
        (m, false) :: arrivals (!reliable) run := by
  cases reliable <;> exact ⟨rfl, rfl⟩

theorem forall_conduits {P : Bool → Prop} (reliable : Bool) :
    (∀ b, P b) ↔ P reliable ∧ P (!reliable) := by
  cases reliable <;> simp [and_comm]

section Peers

variable {bits : Fin 4} {n : Nat} {under : Option (List Byte)} {p : Peer}

/-- Whatever arrives on either conduit gives nothing to the decoder, or what it ends. -/
theorem receivePeer_sublist (lost : Bool → Nat) {run : List (Bool × Message × Bool)}
    (hnumbered : Numbered bits n (run.map (·.2.1))) (hplaced : WellPlaced under (run.map (·.2.1)))
    (hloss : ∀ b, LossesBelow (modulus bits) (lost b) (arrivals b run))
    (h : ∀ b, Holds bits n (lost b) under (p.conduit b)) :
    ((receivePeer (snMax bits) true p run).2.map Prod.snd).Sublist
      (completions under (run.map (·.2.1))) := by
  induction run generalizing n lost under p with
  | nil => exact List.Sublist.refl _
  | cons e rest ih =>
    obtain ⟨reliable, m, arrives⟩ := e
    obtain ⟨hown, hother⟩ := (forall_conduits reliable).mp hloss
    obtain ⟨hownRun, hotherRun⟩ := arrivals_cons reliable m arrives rest
    rw [hownRun] at hown
    rw [hotherRun] at hother
    cases arrives with
    | false =>
      have hrest := ih (fun b => lost b + 1) hnumbered.2 hplaced.2
        ((forall_conduits reliable).mpr ⟨hown, hother⟩) fun b => (h b).skip _
      exact hrest.trans (List.sublist_append_right _ _)
    | true =>
      obtain ⟨hnext, hout⟩ := handle_holds (m := m) hplaced.1 hnumbered.1 hown.1 (h reliable)
      have hhead : (handle (snMax bits) true (p.conduit reliable) m).2.Sublist
          (completed under m.item) := by
        obtain hout | hout := hout
        · rw [hout]
          exact List.nil_sublist _
        · exact hout ▸ List.Sublist.refl _
      have hrest := ih (n := n + 1) (fun b => if b = reliable then 0 else lost b + 1)
        (p := p.setConduit reliable (handle (snMax bits) true (p.conduit reliable) m).1)
        hnumbered.2 hplaced.2 ((forall_conduits reliable).mpr ⟨?_, ?_⟩)
        ((forall_conduits reliable).mpr ⟨?_, ?_⟩)
      · simpa [receivePeer, completions, Function.comp_def] using hhead.append hrest
      · simpa using hown.2
      · simpa [LossesBelow] using hother
      · simpa using hnext
      · simpa using (h (!reliable)).skip (progress under m.item)

/-- What the conduit of the frames and that of the fragments have of the message under way. -/
def share (r : Reliability) (reliable : Bool) (under : Option (List Byte)) : Option (List Byte) :=
  if reliable = r.flag then none else under

/-- An item is for the conduit that has the message under way. -/
theorem share_itemFlag (r : Reliability) {item : Item} (hplaced : Placed under item) :
    share r (itemFlag r item) under = under ∧ share r (!itemFlag r item) under = none ∧
      share r (itemFlag r item) (progress under item) = progress under item ∧
      share r (!itemFlag r item) (progress under item) = none := by
  cases item with
  | frame payload =>
    obtain rfl : under = none := hplaced
    simp [share, progress]
  | fragment more first drop payload =>
    rw [itemFlag_fragment]
    simp [share]

/-- Where everything arrives, every message goes out that the buffer holds. -/
theorem receivePeer_inStep (markers : Bool) (r : Reliability) (lost : Bool → Nat) {sent : List Message}
    (hnumbered : Numbered bits n sent) (hplaced : WellPlaced under sent)
    (hplain : ∀ m ∈ sent, Plain m.item)
    (hreach : ∀ b, LossesBelow (reach bits) (lost b)
      (arrivals b (sent.map fun m => (itemFlag r m.item, m, true))))
    (h : ∀ b, InStep bits n (lost b) (share r b under) (p.conduit b)) :
    (receivePeer (snMax bits) markers p
        (sent.map fun m => (itemFlag r m.item, m, true))).2.map Prod.snd =
      (completions under sent).filter (·.length ≤ fragMaxSize) := by
  induction sent generalizing n lost under p with
  | nil => rfl
  | cons m rest ih =>
    obtain ⟨hown, hother, hownNext, hotherNext⟩ := share_itemFlag r hplaced.1
    rw [List.map_cons] at hreach ⊢
    generalize itemFlag r m.item = reliable at hown hother hownNext hotherNext hreach ⊢
    obtain ⟨hownLoss, hotherLoss⟩ := (forall_conduits reliable).mp hreach
    obtain ⟨hownRun, hotherRun⟩ := arrivals_cons reliable m true
      (rest.map fun m => (itemFlag r m.item, m, true))
    rw [hownRun] at hownLoss
    rw [hotherRun] at hotherLoss
    have hstep := h reliable
    rw [hown] at hstep
    have hpass := h (!reliable)
    rw [hother] at hpass
    obtain ⟨hnext, hout⟩ := handle_inStep markers (m := m) hplaced.1
      (hplain m List.mem_cons_self) hnumbered.1 hownLoss.1 hstep
    have hrest := ih (n := n + 1) (fun b => if b = reliable then 0 else lost b + 1)
      (p := p.setConduit reliable (handle (snMax bits) markers (p.conduit reliable) m).1)
      hnumbered.2 hplaced.2 (fun m' hm' => hplain m' (List.mem_cons_of_mem m hm'))
      ((forall_conduits reliable).mpr ⟨?_, ?_⟩) ((forall_conduits reliable).mpr ⟨?_, ?_⟩)
    · rw [completions, List.filter_append, ← hout, ← hrest]
      simp [receivePeer, Function.comp_def]
    · simpa using hownLoss.2
    · simpa [LossesBelow] using hotherLoss
    · simpa [hownNext] using hnext
    · simpa [hotherNext] using hpass.skip

end Peers

section Sessions

variable (link : Link) (bits : Fin 4) (initialSn : Zint)

/-- A first number that the resolution has. -/
def firstSn : Zint := initialSn &&& snMax bits

theorem firstSn_toNat : (firstSn bits initialSn).toNat = (initialSn.toNat + modulus bits) % modulus bits := by
  rw [firstSn, toNat_and_snMax, Nat.add_mod_right]

theorem openConduit_last : ∃ a,
    (openConduit (snMax bits) (firstSn bits initialSn)).snRx.toNat = a % modulus bits ∧
      initialSn.toNat + modulus bits = a + (0 + 1) := by
  have hnumber := firstSn_toNat bits initialSn
  rw [modulus, ← Nat.add_assoc, ← modulus] at hnumber
  exact ⟨initialSn.toNat + (snMax bits).toNat, snDecrement_toNat hnumber, (Nat.add_assoc _ _ _).symm⟩

theorem openConduit_inStep :
    InStep bits (initialSn.toNat + modulus bits) 0 none
      (openConduit (snMax bits) (firstSn bits initialSn)) :=
  ⟨openConduit_last bits initialSn, fun _ => rfl, fun _ => ⟨rfl, rfl⟩, by simp, by simp, by simp⟩

/-- Both sides of a session start from the number that the sender names. -/
def openCounters : Counters := ⟨firstSn bits initialSn, firstSn bits initialSn⟩

def openPeer : Peer :=
  ⟨openConduit (snMax bits) (firstSn bits initialSn), openConduit (snMax bits) (firstSn bits initialSn)⟩

theorem openCounters_sn (r : Reliability) :
    (openCounters bits initialSn).sn r = firstSn bits initialSn := by
  cases r <;> rfl

theorem openPeer_conduit (reliable : Bool) :
    (openPeer bits initialSn).conduit reliable = openConduit (snMax bits) (firstSn bits initialSn) := by
  cases reliable <;> rfl

def smallLink : Link := ⟨8, by decide, by decide⟩

/-- The fragments of a reliable message are not flagged reliable. -/
theorem smallLink_transmit :
    transmit smallLink (snMax 0) (openCounters 0 127)
        ([[1, 2, 3, 4, 5, 6, 7], [8]].map (.reliable, ·)) =
      [(false, ⟨127, .fragment true true false [1, 2, 3, 4, 5]⟩),
        (false, ⟨0, .fragment false false false [6, 7]⟩), (true, ⟨1, .frame [8]⟩)] := by
  have hfirst : (openCounters 0 127).sn .reliable = 127 := rfl
  have hspace : smallLink.space 127 true = 5 ∧ smallLink.space 0 false = 6 := by decide
  have hlarge : ¬ frameHeader 127 + [(1 : Byte), 2, 3, 4, 5, 6, 7].length ≤ smallLink.capacity := by
    decide
  have hsent : sendNMsg smallLink (snMax 0) 127 [1, 2, 3, 4, 5, 6, 7] =
      [⟨127, .fragment true true false [1, 2, 3, 4, 5]⟩, ⟨0, .fragment false false false [6, 7]⟩] := by
    have hnext : snIncrement (snMax 0) 127 = 0 := by decide
    rw [sendNMsg, if_neg hlarge, sendFragmentInner, if_neg (by simp)]
    dsimp only
    rw [hspace.1, hnext, sendFragmentInner, if_neg (by simp)]
    dsimp only
    rw [hspace.2]
    simp [sendFragmentInner]
  rw [transmit_map, hfirst, stream, hsent]
  rfl

/-- Where everything arrives, the decoder gets every message that the buffer holds, in their order, as
long as neither conduit is passed by for half of the numbers. -/
theorem complete_sessions_arrive (markers : Bool) (r : Reliability) (data : List (List Byte))
    (run : List (Bool × Message × Bool))
    (hsent : run = (transmit link (snMax bits) (openCounters bits initialSn) (data.map (r, ·))).map
      fun e => (e.1, e.2, true))
    (hreach : ∀ b, LossesBelow (reach bits) 0 (arrivals b run)) :
    (receivePeer (snMax bits) markers (openPeer bits initialSn) run).2.map Prod.snd =
      data.filter (·.length ≤ fragMaxSize) := by
  have hfirst := firstSn_toNat bits initialSn
  obtain ⟨hplaced, hcomplete, hplain⟩ := stream_messages link bits hfirst data
  rw [transmit_map, openCounters_sn, List.map_map] at hsent
  subst hsent
  have hout := receivePeer_inStep (p := openPeer bits initialSn) markers r (fun _ => 0)
    (stream_numbered link bits hfirst data) hplaced hplain hreach fun b => ?_
  · rwa [hcomplete] at hout
  · have hshare : share r b none = none := ite_self none
    rw [openPeer_conduit, hshare]
    exact openConduit_inStep bits initialSn

end Sessions

theorem two_messages_arrive :
    (receivePeer (snMax 0) true (openPeer 0 127)
      [(false, ⟨127, .fragment true true false [1, 2, 3, 4, 5]⟩, true),
        (false, ⟨0, .fragment false false false [6, 7]⟩, true),
        (true, ⟨1, .frame [8]⟩, true)]).2.map Prod.snd =
      [[1, 2, 3, 4, 5, 6, 7], [8]].filter (·.length ≤ fragMaxSize) := by
  refine complete_sessions_arrive smallLink 0 127 true .reliable _ _ ?_ ?_
  · rw [smallLink_transmit]
    rfl
  · rintro (_ | _)
    · exact ⟨by decide, by decide, trivial⟩
    · exact ⟨by decide, trivial⟩

/-- Messages of both reliabilities bring the numbers of two counters onto one conduit: a best-effort
frame behind a reliable message in fragments is out of order. -/
example : (receivePeer (snMax 0) true (openPeer 0 127)
    [(false, ⟨127, .fragment true true false [1, 2, 3, 4, 5]⟩, true),
      (false, ⟨0, .fragment false false false [6, 7]⟩, true),
      (false, ⟨127, .frame [8]⟩, true)]).2 = [(false, [1, 2, 3, 4, 5, 6, 7])] := by decide

end Genoh.Reassembly
