import Genoh.HashChain
import Genoh.MasterSecurityLog

/-!
# Security log chain

The lines of a security log as a hash chain. `verify_chain` accepts the lines that are linked from
the genesis hash, and what it hashes are the inputs of the chain.
-/
namespace Genoh.SecurityChain

open Genoh.HashChain Genoh.Json Genoh.MasterLogs Genoh.MasterSecurityLog Genoh.Strings Genoh.TextFile

/-- `chain_hash[n]` from `chain_hash[n-1]` and the content. -/
def link (prevHash content : List Char) : List Char := sha256Hex (prevHash ++ content)

/-- The line has this content and this hash. -/
def Carries (line : List Char) (entry : List Char × List Char) : Prop :=
  ∃ fields : ChainFields, readEntry chainEntry line = .ok (.str (ofText entry.2), fields) ∧
    fields.content = entry.1

theorem isStr_ofText (hash expected : List Char) :
    isStr (.str (ofText hash)) (ofText expected) = true ↔ hash = expected := by
  rw [isStr_iff, Value.str.injEq]
  exact ofText_injective.eq_iff

/-- Of lines with hashes those are accepted that are linked. -/
theorem verifyLines_cases {lines : List (List Char)} {entries : List (List Char × List Char)}
    (h : List.Forall₂ Carries lines entries) (prevHash : List Char) :
    verifyLines prevHash lines = .ok true ∧ Linked link prevHash entries ∨
      verifyLines prevHash lines = .ok false ∧ ¬ Linked link prevHash entries := by
  induction h generalizing prevHash with
  | nil => exact .inl ⟨rfl, trivial⟩
  | cons hline hlines ih =>
    obtain ⟨fields, hread, hcontent⟩ := hline
    rw [verifyLines, hread, Linked, ← hcontent]
    simp only [isStr_ofText]
    split
    · rename_i hhash
      obtain ⟨hverify, hlinked⟩ | ⟨hverify, hlinked⟩ := ih (sha256Hex (prevHash ++ fields.content))
      · exact .inl ⟨hverify, hhash, hhash ▸ hlinked⟩
      · exact .inr ⟨hverify, fun h => hlinked (hhash ▸ h.2)⟩
    · rename_i hhash
      exact .inr ⟨rfl, fun h => hhash h.1⟩

theorem verifyLines_true_iff {lines : List (List Char)} {entries : List (List Char × List Char)}
    (h : List.Forall₂ Carries lines entries) (prevHash : List Char) :
    verifyLines prevHash lines = .ok true ↔ Linked link prevHash entries := by
  obtain ⟨hverify, hlinked⟩ | ⟨hverify, hlinked⟩ := verifyLines_cases h prevHash
  · exact iff_of_true hverify hlinked
  · rw [hverify]
    exact iff_of_false (by simp) hlinked

theorem verifyLines_false_iff {lines : List (List Char)} {entries : List (List Char × List Char)}
    (h : List.Forall₂ Carries lines entries) (prevHash : List Char) :
    verifyLines prevHash lines = .ok false ↔ ¬ Linked link prevHash entries := by
  obtain ⟨hverify, hlinked⟩ | ⟨hverify, hlinked⟩ := verifyLines_cases h prevHash
  · rw [hverify]
    exact iff_of_false (by simp) (not_not_intro hlinked)
  · exact iff_of_true hverify hlinked

/-- Lines that are accepted have hashes. -/
theorem carries_of_verifyLines {prevHash : List Char} {lines : List (List Char)}
    (h : verifyLines prevHash lines = .ok true) : ∃ entries, List.Forall₂ Carries lines entries := by
  induction lines generalizing prevHash with
  | nil => exact ⟨[], .nil⟩
  | cons line lines ih =>
    rw [verifyLines] at h
    split at h
    · rename_i stored fields hread
      dsimp only at h
      split at h
      · rename_i hhash
        obtain ⟨entries, hentries⟩ := ih h
        rw [isStr_iff] at hhash
        exact ⟨(fields.content, _) :: entries, .cons ⟨fields, hhash ▸ hread, rfl⟩ hentries⟩
      · exact absurd h (by simp)
    · exact absurd h (by simp)
    · exact absurd h (by simp)
    · exact absurd h (by simp)

/-! ## What is hashed -/

theorem hashedTexts_eq {lines : List (List Char)} {entries : List (List Char × List Char)}
    (h : List.Forall₂ Carries lines entries) (prevHash : List Char) :
    hashedTexts prevHash lines =
      (inputs link prevHash entries).map fun input => input.1 ++ input.2 := by
  induction h generalizing prevHash with
  | nil => rfl
  | @cons line entry lines entries hline hlines ih =>
    obtain ⟨content, hash⟩ := entry
    obtain ⟨fields, hread, rfl⟩ := hline
    rw [hashedTexts, hread, inputs, List.map_cons]
    simp only [isStr_ofText]
    refine congrArg _ ?_
    change _ = (if hash = sha256Hex (prevHash ++ fields.content) then _ else []).map _
    by_cases hhash : hash = sha256Hex (prevHash ++ fields.content)
    · rw [if_pos hhash, if_pos hhash, ih, ← hhash]
    · rw [if_neg hhash, if_neg hhash, List.map_nil]

/-- No two of the texts have the same hash. -/
def NoCollision (texts : List (List Char)) : Prop := Set.InjOn sha256Hex {text | text ∈ texts}

theorem inputs_length {prevHash : List Char} (hprev : prevHash.length = 64)
    (entries : List (List Char × List Char)) :
    ∀ input ∈ inputs link prevHash entries, input.1.length = 64 := by
  induction entries generalizing prevHash with
  | nil => exact List.forall_mem_nil _
  | cons entry entries ih =>
    obtain ⟨content, hash⟩ := entry
    rw [inputs]
    refine List.forall_mem_cons.mpr ⟨hprev, ?_⟩
    split
    · rename_i hhash
      exact ih (hhash ▸ sha256Hex_length _)
    · exact List.forall_mem_nil _

/-- Hashes have one length, so that the text tells hash and content apart. -/
theorem collisionFree_of_texts {hashed : List (List Char × List Char)}
    (hlength : ∀ input ∈ hashed, input.1.length = 64)
    (h : NoCollision (hashed.map fun input => input.1 ++ input.2)) : CollisionFree link hashed := by
  intro input hinput input' hinput' heq
  have htext := h (List.mem_map_of_mem hinput) (List.mem_map_of_mem hinput') heq
  have hlen := (hlength input hinput).trans (hlength input' hinput').symm
  obtain ⟨hprev, hcontent⟩ := List.append_inj htext hlen
  exact Prod.ext hprev hcontent

theorem genesisHash_length : genesisHash.length = 64 := List.length_replicate

section TwoFiles

variable {lines others : List (List Char)} {entries entries' : List (List Char × List Char)}

theorem collisionFree_of_lines (h : List.Forall₂ Carries lines entries)
    (h' : List.Forall₂ Carries others entries')
    (hfree : NoCollision (hashedTexts genesisHash lines ++ hashedTexts genesisHash others)) :
    CollisionFree link (inputs link genesisHash entries ++ inputs link genesisHash entries') := by
  rw [hashedTexts_eq h, hashedTexts_eq h', ← List.map_append] at hfree
  refine collisionFree_of_texts (List.forall_mem_append.mpr ⟨?_, ?_⟩) hfree
  · exact inputs_length genesisHash_length entries
  · exact inputs_length genesisHash_length entries'

theorem inputs_ne_genesis (h : List.Forall₂ Carries lines entries)
    (hgenesis : ∀ text ∈ hashedTexts genesisHash lines, sha256Hex text ≠ genesisHash) :
    ∀ input ∈ inputs link genesisHash entries, link input.1 input.2 ≠ genesisHash := by
  intro input hinput
  rw [hashedTexts_eq h] at hgenesis
  exact hgenesis _ (List.mem_map_of_mem hinput)

end TwoFiles

/-! ## Contents -/

/-- The fields as reading gives them. -/
structure NormalFields (fields : ChainFields) : Prop where
  seq : Normal fields.seq
  severity : Normal fields.severity
  event : Normal fields.event
  sourceNode : Normal fields.sourceNode

theorem normal_item {data : Members} {key : Str} {value : Value} (hdata : Normal (.dict data))
    (h : item data key = .ok value) : Normal value := by
  rw [item] at h
  split at h
  · rename_i value' hget
    rw [← Except.ok.inj h]
    exact hdata.get? hget
  · exact absurd h (by simp)

theorem normal_getOr {data : Members} {default : Value} (key : Str) (hdata : Normal (.dict data))
    (hdefault : Normal default) : Normal (getOr data key default) := by
  rw [getOr]
  cases hget : get? data key with
  | none => exact hdefault
  | some value => exact hdata.get? hget

theorem normal_asDict {data : Value} {members : Members} (hdata : Normal data)
    (h : asDict data = .ok members) : Normal (.dict members) := by
  cases data with
  | dict members' => exact (Except.ok.inj h) ▸ hdata
  | _ => exact absurd h (by simp [asDict])

theorem normal_chainEntry {data stored : Value} {fields : ChainFields} (hdata : Normal data)
    (h : chainEntry data = .ok (stored, fields)) : NormalFields fields := by
  obtain ⟨members, hdict, h⟩ := bind_ok h
  obtain ⟨seq, hseq, h⟩ := bind_ok h
  obtain ⟨severity, hseverity, h⟩ := bind_ok h
  obtain ⟨event, hevent, h⟩ := bind_ok h
  obtain ⟨source, hsource, h⟩ := bind_ok h
  have hmembers := normal_asDict hdata hdict
  have hempty : Normal (.dict []) := ⟨List.nodup_nil, trivial⟩
  have hnode := normal_asDict (normal_getOr _ hmembers hempty) hsource
  rw [← (Prod.mk.inj (Except.ok.inj h)).2]
  exact ⟨normal_item hmembers hseq, normal_item hmembers hseverity, normal_item hmembers hevent,
    normal_getOr _ hnode rfl⟩

theorem normal_readEntry {line : List Char} {stored : Value} {fields : ChainFields}
    (h : readEntry chainEntry line = .ok (stored, fields)) : NormalFields fields := by
  rw [readEntry] at h
  split at h
  · exact absurd h (by simp)
  · rename_i data hload
    exact normal_chainEntry (normal_of_loads hload) h

/-- The content determines the fields. -/
theorem content_injective {fields fields' : ChainFields} (hfields : NormalFields fields)
    (hfields' : NormalFields fields') (h : fields.content = fields'.content) : fields = fields' := by
  have hnormal : ∀ {fields : ChainFields}, NormalFields fields → Normal (.dict [
      (str "seq", fields.seq), (str "severity", fields.severity), (str "event", fields.event),
      (str "source_node", fields.sourceNode)]) := by
    intro fields hfields
    refine ⟨?_, (normalMembers_iff _).mpr ?_⟩
    · simp only [List.map_cons, List.map_nil]
      decide +kernel
    · simp only [List.forall_mem_cons]
      exact ⟨⟨joinSurrogates_ofText _, hfields.seq⟩, ⟨joinSurrogates_ofText _, hfields.severity⟩,
        ⟨joinSurrogates_ofText _, hfields.event⟩, ⟨joinSurrogates_ofText _, hfields.sourceNode⟩,
        List.forall_mem_nil _⟩
  have hdict := dumps_injective (hnormal hfields) (hnormal hfields') h
  obtain ⟨seq, severity, event, sourceNode⟩ := fields
  obtain ⟨seq', severity', event', sourceNode'⟩ := fields'
  simpa using hdict

/-! ## Lines of events -/

def eventFields (e : SecurityEvent) : ChainFields := ⟨e.seq, e.severity, e.event, e.sourceNode⟩

theorem normalFields_reread (e : SecurityEvent) : NormalFields (eventFields e.reread) :=
  ⟨normal_reread _, normal_reread _, normal_reread _, normal_reread _⟩

theorem reread_reread (e : SecurityEvent) : e.reread.reread = e.reread := by
  simp only [SecurityEvent.reread, (normal_reread _).reread]

def lineOf (e : SecurityEvent) : List Char := written e.toDict ++ ['\n']

theorem readEntry_lineOf (e : SecurityEvent) :
    readEntry chainEntry (lineOf e) = .ok (e.reread.chainHash, eventFields e.reread) := by
  rw [lineOf, readEntry, loads_line, stored_toDict]
  rfl

/-- The line of an event carries what reading makes of it. -/
theorem carries_event {e : SecurityEvent} {hash : List Char}
    (hhash : e.reread.chainHash = .str (ofText hash)) :
    Carries (lineOf e) ((eventFields e.reread).content, hash) := by
  refine ⟨eventFields e.reread, ?_, rfl⟩
  rw [readEntry_lineOf, hhash]

/-- A line carries one content and one hash. -/
theorem carries_unique {line : List Char} {entry entry' : List Char × List Char}
    (h : Carries line entry) (h' : Carries line entry') : entry = entry' := by
  obtain ⟨fields, hread, hcontent⟩ := h
  obtain ⟨fields', hread', hcontent'⟩ := h'
  obtain ⟨hhash, rfl⟩ := Prod.mk.inj (Except.ok.inj (hread.symm.trans hread'))
  exact Prod.ext (hcontent.symm.trans hcontent') (ofText_injective (Value.str.inj hhash))

end Genoh.SecurityChain
