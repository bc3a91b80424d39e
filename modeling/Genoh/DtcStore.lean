import Genoh.MasterDtc
import Genoh.MasterLogs
import Genoh.Run

/-!
# DTC store file

The file of `master/dtc_manager.py`, one JSON document that every change of the store writes anew.
Freeze frames are dictionaries that JSON can write.
-/
namespace Genoh.DtcStore

open Genoh.Json Genoh.MasterDtc Genoh.MasterLogs Genoh.OrderedDict Genoh.Run Genoh.Strings Genoh.TextFile

abbrev Entry := DTCEntry Members

abbrev Store := DTCManager Members

/-! ## Entries -/

/-- `DTCEntry.to_dict`. -/
def toDict (e : Entry) : Members := [
  (str "code", .int e.code),
  (str "status_byte", .int e.statusByte.toNat),
  (str "fault_type", .str (str e.faultType)),
  (str "occurrence_count", .int e.occurrenceCount),
  (str "first_seen_ms", .int e.firstSeenMs),
  (str "last_seen_ms", .int e.lastSeenMs),
  (str "passing_cycles", .int e.passingCycles),
  (str "freeze_frame", .dict e.freezeFrame)]

def asNat : Value → Except LogError Nat
  | .int (.ofNat n) => .ok n
  | _ => .error .fieldType

def asByte (value : Value) : Except LogError (BitVec 8) := do
  let n ← asNat value
  if n < 256 then return BitVec.ofNat 8 n else throw .fieldType

def asText : Value → Except LogError String
  | .str s =>
    match toText? s with
    | some text => .ok (String.ofList text)
    | none => .error .fieldType
  | _ => .error .fieldType

def asFrame : Value → Except LogError Members
  | .dict members => .ok members
  | _ => .error .fieldType

/-- `DTCEntry.from_dict`. -/
def fromDict (data : Value) : Except LogError Entry := do
  let data ← subscripted data
  let code ← item data (str "code")
  return {
    code := ← asNat code
    statusByte := ← asByte (getOr data (str "status_byte") (.int 0))
    faultType := ← asText (getOr data (str "fault_type") (.str []))
    occurrenceCount := ← asNat (getOr data (str "occurrence_count") (.int 0))
    firstSeenMs := ← asNat (getOr data (str "first_seen_ms") (.int 0))
    lastSeenMs := ← asNat (getOr data (str "last_seen_ms") (.int 0))
    passingCycles := ← asNat (getOr data (str "passing_cycles") (.int 0))
    freezeFrame := ← asFrame (getOr data (str "freeze_frame") (.dict [])) }

/-! ## The file -/

/-- What `_save` writes. -/
def document (dtcs : Store) : Members :=
  [(str "dtcs", .list (dtcs.dtcs.pairs.map fun p => .dict (toDict p.2)))]

/-- The file after `_save`. -/
def save (dtcs : Store) (file : File) (disk : Rewrite) : File := rewrite file (written (document dtcs)) disk

/-- What a loop runs over. -/
def iterated : Value → Except LogError (List Value)
  | .list items => .ok items
  | .str s => .ok (s.map fun c => .str [c])
  | .dict members => .ok (members.map fun member => .str member.1)
  | _ => .error .typeError

/-- The loop of `_load`: a missing code ends it, and what is loaded stays. -/
def loadEntries (dtcs : Store) : List Value → Except LogError Store
  | [] => .ok dtcs
  | data :: rest =>
    match fromDict data with
    | .ok entry => loadEntries ⟨dtcs.dtcs.set entry.code entry⟩ rest
    | .error .keyError => .ok dtcs
    | .error error => .error error

/-- `_load`, in a new manager on a file. What is not JSON is an empty store. -/
def load : File → Except LogError Store
  | none => .ok DTCManager.empty
  | some raw =>
    match decode raw with
    | none => .error .unicodeDecodeError
    | some text =>
      match loads text with
      | none => .ok DTCManager.empty
      | some data => do
        let data ← asDict data
        let entries ← iterated (getOr data (str "dtcs") (.list []))
        loadEntries DTCManager.empty entries

/-! ## Operations -/

inductive Operation where
  | setDtc (code : Nat) (faultType : String) (freezeFrame : Option Members) (nowMs : Nat)
  | reportPassing (code : Nat)
  | clearDtc (code : Nat)
  | clearAll

def apply (dtcs : Store) : Operation → Store
  | .setDtc code faultType freezeFrame nowMs =>
    (MasterDtc.setDtc dtcs code faultType freezeFrame nowMs).2
  | .reportPassing code => MasterDtc.reportPassing dtcs code
  | .clearDtc code => (MasterDtc.clearDtc dtcs code).2
  | .clearAll => (MasterDtc.clearAll dtcs).2

/-- The operation calls `_save`. -/
def Operation.saves (dtcs : Store) : Operation → Bool
  | .setDtc code _ _ _ => (dtcs.dtcs.get? code).isSome || decide (dtcs.dtcs.pairs.length < maxDtcs)
  | .reportPassing code => (dtcs.dtcs.get? code).isSome
  | .clearDtc code => (dtcs.dtcs.get? code).isSome
  | .clearAll => true

theorem apply_of_not_saves {dtcs : Store} {op : Operation} (h : op.saves dtcs = false) :
    apply dtcs op = dtcs := by
  cases op with
  | setDtc code faultType freezeFrame nowMs =>
    simp only [Operation.saves, Bool.or_eq_false_iff, Option.isSome_eq_false_iff, Option.isNone_iff_eq_none,
      decide_eq_false_iff_not, Nat.not_lt] at h
    simp only [apply, MasterDtc.setDtc, h.1, ge_iff_le, if_pos h.2]
  | reportPassing code =>
    simp only [Operation.saves, Option.isSome_eq_false_iff, Option.isNone_iff_eq_none] at h
    simp only [apply, MasterDtc.reportPassing, h]
  | clearDtc code =>
    simp only [Operation.saves, Option.isSome_eq_false_iff, Option.isNone_iff_eq_none] at h
    simp only [apply, MasterDtc.clearDtc, h]
  | clearAll => exact absurd h (by simp [Operation.saves])

/-! ## Keys -/

/-- Every entry is stored under its code. -/
def Keyed (dtcs : Store) : Prop := ∀ p ∈ dtcs.dtcs.pairs, p.2.code = p.1

theorem keyed_empty : Keyed DTCManager.empty := List.forall_mem_nil _

theorem Keyed.set {dtcs : Store} (h : Keyed dtcs) (entry : Entry) :
    Keyed ⟨dtcs.dtcs.set entry.code entry⟩ := by
  intro p hp
  obtain rfl | hp := mem_of_mem_setPairs hp
  · rfl
  · exact h p hp

theorem Keyed.get? {dtcs : Store} (h : Keyed dtcs) {code : Nat} {entry : Entry}
    (hget : dtcs.dtcs.get? code = some entry) : entry.code = code :=
  h _ ((dtcs.dtcs.mem_pairs_iff code entry).mpr hget)

theorem repeatDtc_code (entry : Entry) (nowMs : Nat) : (repeatDtc entry nowMs).code = entry.code := by
  unfold repeatDtc
  dsimp only
  split <;> rfl

theorem passDtc_code (entry : Entry) : (passDtc entry).code = entry.code := by
  unfold passDtc
  dsimp only
  split <;> rfl

theorem Keyed.apply {dtcs : Store} (h : Keyed dtcs) (op : Operation) : Keyed (apply dtcs op) := by
  cases op with
  | setDtc code faultType freezeFrame nowMs =>
    rw [DtcStore.apply, MasterDtc.setDtc]
    cases hget : dtcs.dtcs.get? code with
    | some entry =>
      have hset := h.set (repeatDtc entry nowMs)
      rwa [repeatDtc_code, h.get? hget] at hset
    | none =>
      dsimp only
      split
      · exact h
      · exact h.set (newDtc code faultType freezeFrame nowMs)
  | reportPassing code =>
    rw [DtcStore.apply, MasterDtc.reportPassing]
    cases hget : dtcs.dtcs.get? code with
    | some entry =>
      have hset := h.set (passDtc entry)
      rwa [passDtc_code, h.get? hget] at hset
    | none => exact h
  | clearDtc code =>
    rw [DtcStore.apply, MasterDtc.clearDtc]
    cases hget : dtcs.dtcs.get? code with
    | some entry => exact fun p hp => h p (List.mem_of_mem_filter hp)
    | none => exact h
  | clearAll => exact keyed_empty

/-! ## Reading what was saved -/

/-- The entry that is loaded where this one was saved. -/
def rereadEntry (e : Entry) : Entry := { e with freezeFrame := stored e.freezeFrame }

/-- The store that is loaded where this one was saved. -/
def rereadStore (dtcs : Store) : Store := ⟨dtcs.dtcs.mapValues rereadEntry⟩

theorem pairs_rereadStore (dtcs : Store) :
    (rereadStore dtcs).dtcs.pairs = dtcs.dtcs.pairs.map fun p => (p.1, rereadEntry p.2) := rfl

@[simp] theorem asNat_natCast (n : Nat) : asNat (.int n) = .ok n := rfl

@[simp] theorem asByte_toNat (b : BitVec 8) : asByte (.int b.toNat) = .ok b := by
  have hlt : b.toNat < 256 := b.isLt
  simp only [asByte, asNat_natCast, bind, Except.bind, if_pos hlt, pure, Except.pure,
    BitVec.ofNat_toNat, BitVec.setWidth_eq]

@[simp] theorem asText_str (s : String) : asText (.str (str s)) = .ok s := by
  simp only [asText, str, toText?_ofText, String.ofList_toList]

theorem fromDict_toDict (e : Entry) : fromDict (.dict (toDict e)) = .ok e := by
  have hcode : item (toDict e) (str "code") = .ok (.int e.code) := rfl
  have hbyte : getOr (toDict e) (str "status_byte") (.int 0) = .int e.statusByte.toNat := rfl
  have htype : getOr (toDict e) (str "fault_type") (.str []) = .str (str e.faultType) := rfl
  have hcount : getOr (toDict e) (str "occurrence_count") (.int 0) = .int e.occurrenceCount := rfl
  have hfirst : getOr (toDict e) (str "first_seen_ms") (.int 0) = .int e.firstSeenMs := rfl
  have hlast : getOr (toDict e) (str "last_seen_ms") (.int 0) = .int e.lastSeenMs := rfl
  have hpassing : getOr (toDict e) (str "passing_cycles") (.int 0) = .int e.passingCycles := rfl
  have hframe : getOr (toDict e) (str "freeze_frame") (.dict []) = .dict e.freezeFrame := rfl
  simp only [fromDict, subscripted, bind, Except.bind, hcode, hbyte, htype, hcount, hfirst, hlast, hpassing,
    hframe, asNat_natCast, asByte_toNat, asText_str, asFrame]
  rfl

theorem stored_toDict (e : Entry) : stored (toDict e) = toDict (rereadEntry e) := by
  have hnodup : ((toDict (rereadEntry e)).map Prod.fst).Nodup := by
    simp only [toDict, List.map_cons, List.map_nil]
    decide +kernel
  have htype : reread (.str (str e.faultType)) = .str (str e.faultType) :=
    congrArg Value.str (joinSurrogates_ofText _)
  have hmembers : rereadMembers (toDict e) = toDict (rereadEntry e) := by
    simp only [toDict, rereadMembers, htype]
    rfl
  rw [stored, hmembers, dictOf_of_nodup hnodup]

theorem reread_entries (pairs : List (Nat × Entry)) :
    rereadItems (pairs.map fun p => .dict (toDict p.2)) =
      pairs.map fun p => .dict (toDict (rereadEntry p.2)) := by
  induction pairs with
  | nil => rfl
  | cons p pairs ih =>
    rw [List.map_cons, rereadItems, ih, reread, List.map_cons]
    exact congrArg (fun members => Value.dict members :: _) (stored_toDict p.2)

theorem stored_document (dtcs : Store) : stored (document dtcs) = document (rereadStore dtcs) := by
  rw [stored, document, rereadMembers, rereadMembers, reread, reread_entries]
  simp only [document, rereadStore, Dict.mapValues, List.map_map]
  exact congrArg (fun key => [(key, _)]) (joinSurrogates_ofText _)

/-- Entries that are loaded one after the other are appended in their order. -/
theorem loadEntries_toDict {dtcs : Store} {pairs : List (Nat × Entry)}
    (hkeyed : ∀ p ∈ pairs, p.2.code = p.1) (hnodup : ((dtcs.dtcs.pairs ++ pairs).map Prod.fst).Nodup) :
    ∃ result, loadEntries dtcs (pairs.map fun p => .dict (toDict p.2)) = .ok result ∧
      result.dtcs.pairs = dtcs.dtcs.pairs ++ pairs := by
  induction pairs generalizing dtcs with
  | nil => exact ⟨dtcs, rfl, (List.append_nil _).symm⟩
  | cons p pairs ih =>
    rw [List.forall_mem_cons] at hkeyed
    have hnew : p.1 ∉ dtcs.dtcs.pairs.map Prod.fst := fun hmem => by
      rw [List.map_append, List.nodup_append] at hnodup
      exact hnodup.2.2 _ hmem _ (by simp) rfl
    have hset : (dtcs.dtcs.set p.2.code p.2).pairs = dtcs.dtcs.pairs ++ [p] := by
      rw [Dict.set, hkeyed.1]
      exact setPairs_of_notMem p.2 hnew
    have hrest : (((dtcs.dtcs.set p.2.code p.2).pairs ++ pairs).map Prod.fst).Nodup := by
      rwa [hset, List.append_assoc]
    obtain ⟨result, hload, hpairs⟩ := @ih ⟨dtcs.dtcs.set p.2.code p.2⟩ hkeyed.2 hrest
    refine ⟨result, ?_, ?_⟩
    · rw [List.map_cons, loadEntries, fromDict_toDict]
      exact hload
    · rw [hpairs, hset, List.append_assoc]
      rfl

theorem keyed_rereadStore {dtcs : Store} (h : Keyed dtcs) : Keyed (rereadStore dtcs) := by
  intro p hp
  obtain ⟨q, hq, rfl⟩ := List.mem_map.mp hp
  exact h q hq

/-- Loading finds the store that was saved. -/
theorem load_whole {dtcs : Store} (h : Keyed dtcs) :
    load (some (encode (written (document dtcs)))) = .ok (rereadStore dtcs) := by
  have hprint := (record_written (document dtcs)).printable
  have hdecode : decode (encode (written (document dtcs))) = some (written (document dtcs)) :=
    decode_encode (notMem_of_printable hprint (by decide))
  have hnodup : ((DTCManager.empty.dtcs.pairs ++ (rereadStore dtcs).dtcs.pairs).map Prod.fst).Nodup :=
    (rereadStore dtcs).dtcs.nodup
  obtain ⟨result, hentries, hpairs⟩ := loadEntries_toDict (keyed_rereadStore h) hnodup
  have hresult : result = rereadStore dtcs := congrArg DTCManager.mk (Dict.ext_pairs hpairs)
  rw [load, hdecode]
  simp only [loads_written, stored_document, asDict, bind, Except.bind]
  exact hresult ▸ hentries

/-- Loading finds an empty store where a crash cut the file off. -/
theorem load_cut (dtcs : Store) {n : Nat} (hn : n < (encode (written (document dtcs))).length) :
    load (some ((encode (written (document dtcs))).take n)) = .ok DTCManager.empty := by
  have hprint := (record_written (document dtcs)).printable
  have hascii := fun c hc => Ascii.of_printable (hprint c hc)
  have hdecode : decode ((encode (written (document dtcs))).take n) =
      some ((written (document dtcs)).take n) := by
    rw [encode_take hascii]
    exact decode_encode (notMem_of_printable (fun c hc => hprint c (List.mem_of_mem_take hc)) (by decide))
  have hback : (written (document dtcs)).drop n ≠ [] := by
    rw [encode_length hascii] at hn
    rw [Ne, List.drop_eq_nil_iff]
    exact Nat.not_le.mpr hn
  have hloads : loads ((written (document dtcs)).take n) = none :=
    loads_cut (List.take_append_drop n _).symm hback
  rw [load, hdecode]
  simp only [hloads]

theorem stored_stored (members : Members) : stored (stored members) = stored members := by
  have hnormal := normal_reread (.dict members)
  have hsame := hnormal.reread
  rw [reread, reread, Value.dict.injEq] at hsame
  exact hsame

theorem rereadStore_rereadStore (dtcs : Store) : rereadStore (rereadStore dtcs) = rereadStore dtcs := by
  refine congrArg DTCManager.mk (Dict.ext_pairs ?_)
  change (rereadStore (rereadStore dtcs)).dtcs.pairs = (rereadStore dtcs).dtcs.pairs
  rw [pairs_rereadStore, pairs_rereadStore, List.map_map]
  refine List.map_congr_left fun p _ => ?_
  simp only [Function.comp_apply, rereadEntry, stored_stored]

theorem empty_eq_rereadStore {dtcs : Store} :
    DTCManager.empty = rereadStore dtcs ↔ dtcs = DTCManager.empty := by
  constructor
  · intro h
    have hpairs : [] = dtcs.dtcs.pairs.map fun p => (p.1, rereadEntry p.2) :=
      congrArg (fun dtcs : Store => dtcs.dtcs.pairs) h
    exact congrArg DTCManager.mk (Dict.ext_pairs (List.map_eq_nil_iff.mp hpairs.symm))
  · rintro rfl
    rfl

/-! ## Runs -/

/-- The file, the manager that is open, and the store as it was last opened or saved in full. -/
structure System where
  file : File
  manager : Option Store
  saved : Store

inductive Step where
  | operate (op : Operation) (disk : Rewrite)
  | reopen

def reopen (s : System) : System :=
  match load s.file with
  | .ok dtcs => { s with manager := some dtcs, saved := dtcs }
  | .error _ => { s with manager := none }

/-- A manager that is opened where there is no file. -/
def start : System := reopen ⟨none, none, DTCManager.empty⟩

def step (s : System) : Step → System
  | .reopen => reopen s
  | .operate op disk =>
    match s.manager with
    | none => s
    | some dtcs =>
      if op.saves dtcs then {
        file := save (apply dtcs op) s.file disk
        manager := if disk.stops then none else some (apply dtcs op)
        saved := if disk = .writes then apply dtcs op else s.saved }
      else { s with manager := some (apply dtcs op) }

/-- The file holds a store, and the last saved one if a manager is open. -/
structure Invariant (s : System) : Prop where
  loads : ∃ dtcs, Keyed dtcs ∧ load s.file = .ok (rereadStore dtcs)
  keyed : ∀ dtcs, s.manager = some dtcs → Keyed dtcs
  saved : s.manager ≠ none → load s.file = .ok (rereadStore s.saved)

theorem invariant_reopen {s : System} (h : Invariant s) : Invariant (reopen s) := by
  obtain ⟨dtcs, hkeyed, hload⟩ := h.loads
  have hreopen : reopen s = ⟨s.file, some (rereadStore dtcs), rereadStore dtcs⟩ := by
    simp only [reopen, hload]
  rw [hreopen]
  refine ⟨⟨dtcs, hkeyed, hload⟩, fun dtcs' hdtcs' => ?_, fun _ => ?_⟩
  · exact Option.some.inj hdtcs' ▸ keyed_rereadStore hkeyed
  · rw [rereadStore_rereadStore]
    exact hload

theorem invariant_start : Invariant start :=
  invariant_reopen ⟨⟨DTCManager.empty, keyed_empty, rfl⟩, nofun, fun h => absurd rfl h⟩

/-- What reopening finds behind a save. -/
theorem load_save {after : Store} (h : Keyed after) (file : File) (disk : Rewrite) :
    load (save after file disk) =
      match disk with
      | .refuses => load file
      | .crashesBefore => load file
      | .writes => .ok (rereadStore after)
      | .crashes n =>
        if n < (encode (written (document after))).length then .ok DTCManager.empty
        else .ok (rereadStore after) := by
  cases disk with
  | refuses => rfl
  | crashesBefore => rfl
  | writes => exact load_whole h
  | crashes n =>
    dsimp only
    split
    · rename_i hn
      exact load_cut _ hn
    · rename_i hn
      rw [save, rewrite, List.take_of_length_le (Nat.le_of_not_lt hn)]
      exact load_whole h

theorem invariant_step {s : System} (h : Invariant s) (e : Step) : Invariant (step s e) := by
  cases e with
  | reopen => exact invariant_reopen h
  | operate op disk =>
    cases hmanager : s.manager with
    | none => simpa only [step, hmanager] using h
    | some before =>
      have hbefore := h.keyed before hmanager
      have hsaved := h.saved (by simp [hmanager])
      by_cases hsaves : op.saves before = true
      · have hafter := hbefore.apply op
        have hload := load_save hafter s.file disk
        simp only [step, hmanager, if_pos hsaves]
        cases disk with
        | refuses => exact ⟨h.loads, fun dtcs hdtcs => Option.some.inj hdtcs ▸ hafter, fun _ => hsaved⟩
        | crashesBefore => exact ⟨h.loads, nofun, fun hopen => absurd rfl hopen⟩
        | writes =>
          exact ⟨⟨_, hafter, hload⟩, fun dtcs hdtcs => Option.some.inj hdtcs ▸ hafter, fun _ => hload⟩
        | crashes n =>
          refine ⟨?_, nofun, fun hopen => absurd rfl hopen⟩
          dsimp only at hload
          split at hload
          · exact ⟨_, keyed_empty, hload⟩
          · exact ⟨_, hafter, hload⟩
      · simp only [step, hmanager, if_neg hsaves]
        refine ⟨h.loads, fun dtcs hdtcs => ?_, fun _ => hsaved⟩
        exact Option.some.inj hdtcs ▸ hbefore.apply op

theorem invariant_run (steps : List Step) : Invariant (run step start steps) :=
  run_invariant invariant_start (fun _ e h => invariant_step h e) steps

end Genoh.DtcStore
