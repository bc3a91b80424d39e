import Genoh.FirmwareHash
import Genoh.SecurityRuns
import Genoh.Sha256Window

/-!
# Security log evidence

What `verify_chain` says of the file that calls and reopenings leave, of that file with a field
changed or with lines taken out, and what the last hash of an accepted file binds.
-/
namespace Genoh.SecurityEvidence

open Genoh.Bytes Genoh.Run Genoh.HashChain Genoh.Json Genoh.MasterLogs Genoh.MasterSecurityLog
  Genoh.SecurityChain Genoh.SecurityRuns Genoh.Strings Genoh.TextFile

/-- The file that is made of these lines. -/
def fileOf (lines : List (List Char)) : File := some (encode lines.flatten)

/-! ## A log with two events -/

def firstCall : SecurityCall := { severity := str "LOW", event := str "a" }

def secondCall : SecurityCall := { severity := str "LOW", event := str "b" }

def firstLogged : Logged := Logged.after 0 genesisHash firstCall [] 0

def secondLogged : Logged := Logged.after 1 firstLogged.hash secondCall [] 1

theorem one_event : Invariant (run step start [.logEvent firstCall 0 .writes]) [firstLogged] []
    firstLogged ∧ ∃ log, (run step start [.logEvent firstCall 0 .writes]).log = some log ∧
      StandsAt log [firstLogged] 1 := by
  have hstart : StandsAt {} [] 0 := ⟨rfl, rfl, List.forall_mem_nil _⟩
  have hdetails : firstCall.details = some [] := rfl
  have hfirst : firstLogged = Logged.after 0 (lastHash []) firstCall [] 0 := rfl
  exact invariant_writes (invariant_start firstLogged) rfl hstart hdetails hfirst

theorem two_events : ∃ log, Invariant
    (run step start [.logEvent firstCall 0 .writes, .logEvent secondCall 1 .writes])
    [firstLogged, secondLogged] [] secondLogged ∧
    (run step start [.logEvent firstCall 0 .writes, .logEvent secondCall 1 .writes]).log = some log := by
  have hdetails : secondCall.details = some [] := rfl
  have hsecond : secondLogged = Logged.after 1 (lastHash ([] ++ [firstLogged])) secondCall [] 1 := by
    rw [lastHash_concat]
    rfl
  obtain ⟨hinv, log, hlog, hstands⟩ := one_event
  obtain ⟨hinv', log', hlog', -⟩ := invariant_writes hinv hlog hstands hdetails hsecond
  have hrun := run_concat step start [.logEvent firstCall 0 .writes] (.logEvent secondCall 1 .writes)
  rw [List.singleton_append] at hrun
  rw [hrun]
  exact ⟨log', hinv', hlog'⟩

/-- The hash of ASCII text, in a form that evaluates. -/
def evaluatedHash (text : List Char) : List Char :=
  let zeros := Sha256.zeros text.length
  let message := text.map (fun c => BitVec.ofNat 8 c.toNat) ++ 0x80 :: List.replicate zeros 0 ++
    beBytes 8 (8 * text.length)
  hexdigest (Sha256.digest ((List.range ((text.length + 9 + zeros) / 64)).foldl
    (fun s i => FirmwareSecOC.sha256Transform s (Sha256.block message i)) Sha256.initial))

theorem sha256Hex_eq {text : List Char} (h : ∀ c ∈ text, Ascii c) :
    sha256Hex text = evaluatedHash text := by
  have hlen : (Sha256.pad (text.map fun c => BitVec.ofNat 8 c.toNat)).length =
      text.length + 9 + Sha256.zeros text.length := by
    simp [Sha256.pad]
    omega
  rw [sha256Hex, encode_ascii h, FirmwareHash.hash_transforms, hlen, Sha256.pad, List.length_map]
  rfl

/-- Every schedule word computed once. -/
theorem evaluatedHash_window {text : List Char} (h : ∀ c ∈ text, Ascii c) :
    evaluatedHash text =
      hexdigest (Sha256.windowHash (text.map fun c => BitVec.ofNat 8 c.toNat)) := by
  rw [← sha256Hex_eq h, sha256Hex, encode_ascii h, Sha256.windowHash_eq]

theorem ascii_genesisHash : ∀ c ∈ genesisHash, Ascii c := by
  intro c hc
  rw [List.eq_of_mem_replicate hc]
  unfold Ascii
  decide

theorem ascii_input {prevHash : List Char} (h : ∀ c ∈ prevHash, Ascii c) (fields : ChainFields) :
    ∀ c ∈ prevHash ++ fields.content, Ascii c :=
  List.forall_mem_append.mpr ⟨h, fun c hc => .of_printable (printable_dumps _ c hc)⟩

theorem firstLogged_linked : firstLogged.hash = sha256Hex (genesisHash ++ firstLogged.link.1) := by
  rw [firstLogged, after_hash, SecurityChain.link]

theorem firstLogged_hash : sha256Hex (genesisHash ++ firstLogged.link.1) =
    "f474eae793c2aee0256d9ff07309be23d6f2932ab553ff171635a445c94cc1a0".toList := by
  have hascii := ascii_input ascii_genesisHash (eventFields firstLogged.event)
  have hfirst := (sha256Hex_eq hascii).trans (evaluatedHash_window hascii)
  exact hfirst.trans (by decide +kernel)

theorem secondLogged_hash : sha256Hex (firstLogged.hash ++ secondLogged.link.1) =
    "640a6dcfab6f0f767cb346be256f2bf5bde64e18b02ac8f31886471422717b0c".toList := by
  have hascii : ∀ c ∈ firstLogged.hash, Ascii c := by
    rw [firstLogged_linked, firstLogged_hash]
    exact fun c hc => .of_printable (printable_of_all (by decide) c hc)
  have hinput := ascii_input hascii (eventFields secondLogged.event)
  have hsecond := (sha256Hex_eq hinput).trans (evaluatedHash_window hinput)
  rw [firstLogged_linked, firstLogged_hash] at hsecond ⊢
  exact hsecond.trans (by decide +kernel)

/-- The second content behind the genesis hash. -/
theorem secondLogged_alone : sha256Hex (genesisHash ++ secondLogged.link.1) =
    "2608be19c52928c23cdff25bb66a1059e5e07031d044c50dfba16da172ff8cca".toList := by
  have hascii := ascii_input ascii_genesisHash (eventFields secondLogged.event)
  have hsecond := (sha256Hex_eq hascii).trans (evaluatedHash_window hascii)
  exact hsecond.trans (by decide +kernel)

/-! ## Intact files -/

theorem verifyChain_intact {s : System} {entries : List Logged} {last : Logged}
    (h : Invariant s entries [] last) (log : SecurityLog) : log.verifyChain s.file = .ok true := by
  rw [SecurityLog.verifyChain, h.readAllLines]
  exact (verifyLines_true_iff (carries_lines entries) genesisHash).mpr h.intact.of_append.linked

/-- Calls, failed calls and reopenings leave a file that is verified, with numbers that increase. -/
theorem intact_log_verified (steps : List Step) (hclean : ∀ e ∈ steps, e.crashes = false)
    (nowMs : Nat) : ∃ log lines events,
      (run step start steps).log = some log ∧
      log.verifyChain (run step start steps).file = .ok true ∧
      readAllLines (run step start steps).file = .ok lines ∧
      readEntries (fromDict nowMs) lines = .ok events ∧
      events.length = lines.length ∧
      Increasing (events.map SecurityEvent.seq) := by
  obtain ⟨entries, last, log, hinv, hlog⟩ := clean_run steps hclean
  have hnil : readEntries (fromDict nowMs) [] = .ok [] := rfl
  have hread := readEntries_lines (readsAs_members nowMs entries) hnil
  rw [List.append_nil, List.append_nil, List.map_map] at hread
  refine ⟨log, _, _, hlog, verifyChain_intact hinv log, hinv.readAllLines, hread, ?_, ?_⟩
  · rw [List.length_map, List.length_map]
  · exact hinv.intact.of_append.increasing_seq

theorem intact_log_verified_reopened : ∃ log lines events,
    (run step start [.logEvent firstCall 0 .writes, .logEvent secondCall 1 .refuses, .reopen,
      .logEvent secondCall 2 .writes]).log = some log ∧
    log.verifyChain (run step start [.logEvent firstCall 0 .writes, .logEvent secondCall 1 .refuses,
      .reopen, .logEvent secondCall 2 .writes]).file = .ok true ∧
    readAllLines (run step start [.logEvent firstCall 0 .writes, .logEvent secondCall 1 .refuses,
      .reopen, .logEvent secondCall 2 .writes]).file = .ok lines ∧
    readEntries (fromDict 3) lines = .ok events ∧
    events.length = lines.length ∧
    Increasing (events.map SecurityEvent.seq) := intact_log_verified _ (by decide) 3

/-! ## Changed fields -/

/-- The fields that a log entry records beside the hash. -/
inductive Field where
  | seq
  | tsMs
  | severity
  | category
  | event
  | sourceNode
  | sourceIp
  | targetKeyExpr
  | action
  | idsRule
  | details
  deriving DecidableEq, Repr

def Field.get (e : SecurityEvent) : Field → Value
  | .seq => e.seq
  | .tsMs => e.tsMs
  | .severity => e.severity
  | .category => e.category
  | .event => e.event
  | .sourceNode => e.sourceNode
  | .sourceIp => e.sourceIp
  | .targetKeyExpr => e.targetKeyExpr
  | .action => e.action
  | .idsRule => e.idsRule
  | .details => e.details

def Field.set (e : SecurityEvent) (value : Value) : Field → SecurityEvent
  | .seq => { e with seq := value }
  | .tsMs => { e with tsMs := value }
  | .severity => { e with severity := value }
  | .category => { e with category := value }
  | .event => { e with event := value }
  | .sourceNode => { e with sourceNode := value }
  | .sourceIp => { e with sourceIp := value }
  | .targetKeyExpr => { e with targetKeyExpr := value }
  | .action => { e with action := value }
  | .idsRule => { e with idsRule := value }
  | .details => { e with details := value }

/-- The fields that `log_event` puts into the hashed content. -/
def hashedFields : List Field := [.seq, .severity, .event, .sourceNode]

theorem reread_set (field : Field) (e : SecurityEvent) (value : Value) :
    (field.set e value).reread = field.set e.reread (Json.reread value) := by
  cases field <;> rfl

theorem chainHash_set (field : Field) (e : SecurityEvent) (value : Value) :
    (field.set e value).chainHash = e.chainHash := by
  cases field <;> rfl

/-- A different value changes the hashed fields if its field is one of them. -/
theorem eventFields_set {field : Field} {e : SecurityEvent} {value : Value}
    (h : value ≠ field.get e) : eventFields (field.set e value) = eventFields e ↔
      field ∉ hashedFields := by
  cases field <;> simp_all [eventFields, Field.set, Field.get, hashedFields]

/-- Reading the lines of a file gives the lines. -/
theorem readAllLines_fileOf (events : List SecurityEvent) :
    readAllLines (fileOf (events.map lineOf)) = .ok (events.map lineOf) := by
  have hholds := holds_lines (events.map SecurityEvent.toDict) []
  have hlines := hholds.readAllLines
  rw [tornLines, if_pos rfl, List.append_nil, List.map_map] at hlines
  exact hlines

theorem verifyChain_fileOf (log : SecurityLog) (events : List SecurityEvent) :
    log.verifyChain (fileOf (events.map lineOf)) = verifyLines genesisHash (events.map lineOf) := by
  rw [SecurityLog.verifyChain, readAllLines_fileOf]

theorem carries_around (before after : List Logged) {line : List Char}
    {entry : List Char × List Char} (h : Carries line entry) :
    List.Forall₂ Carries (before.map Logged.line ++ line :: after.map Logged.line)
      (before.map Logged.link ++ entry :: after.map Logged.link) :=
  List.rel_append (carries_lines before) (.cons h (carries_lines after))

theorem readEntry_line (nowMs : Nat) (e : Logged) :
    readEntry (fromDict nowMs) e.line = .ok e.event.reread := by
  rw [Logged.line, lineOf, readEntry, loads_line, stored_toDict]
  exact fromDict_toDict _ nowMs

theorem carries_set (x : Logged) (field : Field) (value : Value) :
    Carries (lineOf (field.set x.event.reread value))
      ((eventFields (field.set x.event.reread (Json.reread value))).content, x.hash) := by
  have hreread := reread_set field x.event.reread value
  rw [reread_reread] at hreread
  rw [← hreread]
  apply carries_event
  rw [hreread, chainHash_set, chainHash_reread]

/-- The change of one field is detected if the field is hashed, and only then. -/
theorem change_detected_iff (steps : List Step) (hclean : ∀ e ∈ steps, e.crashes = false)
    {front back : List (List Char)} {line : List Char}
    (hlines : readAllLines (run step start steps).file = .ok (front ++ line :: back))
    {nowMs : Nat} {e : SecurityEvent} (hentry : readEntry (fromDict nowMs) line = .ok e)
    {field : Field} {value : Value} (hvalue : Json.reread value ≠ field.get e)
    (hfree : NoCollision (hashedTexts genesisHash (front ++ line :: back) ++
      hashedTexts genesisHash (front ++ lineOf (field.set e value) :: back))) (log : SecurityLog) :
    log.verifyChain (fileOf (front ++ lineOf (field.set e value) :: back)) = .ok false ↔
      field ∈ hashedFields := by
  obtain ⟨entries, last, _, hinv, -⟩ := clean_run steps hclean
  have hintact := hinv.intact.of_append
  have hall := Except.ok.inj (hinv.readAllLines.symm.trans hlines)
  obtain ⟨before, rest, rfl, rfl, hrest⟩ := List.map_eq_append_iff.mp hall
  obtain ⟨x, after, rfl, rfl, rfl⟩ := List.map_eq_cons_iff.mp hrest
  -- the entry is what reading made of the logged one
  have he : x.event.reread = e := Except.ok.inj ((readEntry_line nowMs x).symm.trans hentry)
  subst he
  have hchanged := carries_around before after (carries_set x field value)
  have hlinked : Linked SecurityChain.link genesisHash
      (before.map Logged.link ++ x.link :: after.map Logged.link) := by
    have h := hintact.linked
    rwa [List.map_append, List.map_cons] at h
  have hcollision := collisionFree_of_lines (carries_around before after (carries_line x)) hchanged hfree
  have hverify := verifyChain_fileOf log (before.map Logged.event ++
    field.set x.event.reread value :: after.map Logged.event)
  simp only [List.map_append, List.map_cons, List.map_map] at hverify
  -- the changed content is another one if the field is hashed
  have hnormal := normalFields_reread (field.set x.event.reread value)
  rw [reread_set, reread_reread] at hnormal
  have hfields : (eventFields (field.set x.event.reread (Json.reread value))).content =
      (eventFields x.event.reread).content ↔ field ∉ hashedFields := by
    rw [← eventFields_set hvalue]
    exact ⟨content_injective hnormal (normalFields_reread x.event), congrArg ChainFields.content⟩
  rw [content_reread] at hfields
  have hiff := linked_replace hlinked hcollision
  have hfalse := verifyLines_false_iff hchanged genesisHash
  rw [hiff, hfields, not_not] at hfalse
  exact (Eq.congr_left hverify).trans hfalse

theorem noCollision_of_nodup {texts : List (List Char)} (h : (texts.map sha256Hex).Nodup) :
    NoCollision texts := fun _ htext _ htext' heq => List.inj_on_of_nodup_map h htext htext' heq

theorem hashedTexts_singleton {line : List Char} {entry : List Char × List Char}
    (h : Carries line entry) : hashedTexts genesisHash [line] = [genesisHash ++ entry.1] := by
  rw [hashedTexts_eq (.cons h .nil), inputs, inputs, ite_self]
  rfl

theorem severity_change_detected : ({} : SecurityLog).verifyChain (fileOf ([] ++
    lineOf (Field.severity.set firstLogged.event.reread (.str (str "MED"))) :: [])) = .ok false := by
  have hlines : readAllLines (run step start [.logEvent firstCall 0 .writes]).file =
      .ok ([] ++ firstLogged.line :: []) := one_event.1.readAllLines
  have hvalue : Json.reread (.str (str "MED")) ≠ Field.severity.get firstLogged.event.reread := by
    intro heq
    have hstr := (joinSurrogates_ofText _).symm.trans ((Value.str.inj heq).trans (joinSurrogates_ofText _))
    exact absurd hstr (by decide)
  have hchanged : sha256Hex (genesisHash ++ (eventFields
      (Field.severity.set firstLogged.event.reread (Json.reread (.str (str "MED"))))).content) =
      "9cc09591066e8c5e5b1e472b1f0d7d7469b05c77b33671ebc2a91f6bb2874eba".toList := by
    rw [sha256Hex_eq (ascii_input ascii_genesisHash _),
      evaluatedHash_window (ascii_input ascii_genesisHash _)]
    decide +kernel
  have hfree : NoCollision (hashedTexts genesisHash ([] ++ firstLogged.line :: []) ++
      hashedTexts genesisHash ([] ++
        lineOf (Field.severity.set firstLogged.event.reread (.str (str "MED"))) :: [])) := by
    rw [List.nil_append, List.nil_append, hashedTexts_singleton (carries_line firstLogged),
      hashedTexts_singleton (carries_set firstLogged .severity _)]
    refine noCollision_of_nodup ?_
    simp only [List.singleton_append, List.map_cons, List.map_nil, hchanged, firstLogged_hash]
    decide
  have hiff := change_detected_iff [.logEvent firstCall 0 .writes] (by decide) hlines
    (readEntry_line 0 firstLogged) hvalue hfree {}
  exact hiff.mpr (by decide)

/-- The category of an event can be changed. -/
theorem category_change_unnoticed : ∃ log,
    (run step start [.logEvent firstCall 0 .writes]).log = some log ∧
    readAllLines (run step start [.logEvent firstCall 0 .writes]).file = .ok [firstLogged.line] ∧
    readEntry (fromDict 0) firstLogged.line = .ok firstLogged.event.reread ∧
    Json.reread (.str (str "AUDIT")) ≠ Field.category.get firstLogged.event.reread ∧
    log.verifyChain (fileOf
      [lineOf (Field.category.set firstLogged.event.reread (.str (str "AUDIT")))]) = .ok true := by
  obtain ⟨hinv, log, hlog, -⟩ := one_event
  refine ⟨log, hlog, hinv.readAllLines, readEntry_line 0 firstLogged, fun heq => ?_, ?_⟩
  · have hstr := (joinSurrogates_ofText _).symm.trans ((Value.str.inj heq).trans (joinSurrogates_ofText _))
    exact absurd hstr (by decide)
  · have hverify := verifyChain_fileOf log
      [Field.category.set firstLogged.event.reread (.str (str "AUDIT"))]
    refine hverify.trans ((verifyLines_true_iff (.cons (carries_set firstLogged .category _) .nil)
      genesisHash).mpr ⟨?_, trivial⟩)
    have hcontent : (eventFields (Field.category.set firstLogged.event.reread
        (Json.reread (.str (str "AUDIT"))))).content = (eventFields firstLogged.event).content :=
      content_reread firstLogged
    rw [hcontent]
    exact firstLogged_linked

/-! ## Lines taken out -/

/-- Entries of one log with the same content are the same. -/
theorem content_injOn {entries : List Logged} (h : Intact entries) {e e' : Logged}
    (he : e ∈ entries) (he' : e' ∈ entries) (heq : e.link.1 = e'.link.1) : e = e' := by
  have hfields : eventFields e.event.reread = eventFields e'.event.reread := by
    apply content_injective (normalFields_reread _) (normalFields_reread _)
    rw [content_reread, content_reread]
    exact heq
  have hseq : e.seq = e'.seq := Value.int.inj (congrArg ChainFields.seq hfields)
  have hnodup : (entries.map Logged.seq).Nodup := h.increasing.imp Int.ne_of_lt
  exact List.inj_on_of_nodup_map hnodup he he' hseq

theorem nodup_contents {entries : List Logged} (h : Intact entries) :
    ((entries.map Logged.link).map Prod.fst).Nodup := by
  have hnodup : (entries.map Logged.seq).Nodup := h.increasing.imp Int.ne_of_lt
  rw [List.map_map]
  exact (List.Nodup.of_map _ hnodup).map_on fun e he e' he' heq => content_injOn h he he' heq

theorem map_prefix_iff {α β : Type} {f : α → β} {kept all : List α}
    (hinj : ∀ a ∈ kept, ∀ b ∈ all, f a = f b → a = b) :
    kept.map f <+: all.map f ↔ kept <+: all := by
  refine ⟨fun hprefix => ?_, fun hprefix => hprefix.map f⟩
  induction kept generalizing all with
  | nil => exact List.nil_prefix
  | cons a kept ih =>
    cases all with
    | nil => exact absurd hprefix (by simp)
    | cons b all =>
      rw [List.map_cons, List.map_cons, List.cons_prefix_cons] at hprefix
      have hab := hinj a List.mem_cons_self b List.mem_cons_self hprefix.1
      refine List.cons_prefix_cons.mpr ⟨hab, ih (fun a ha b hb => ?_) hprefix.2⟩
      exact hinj a (List.mem_cons_of_mem _ ha) b (List.mem_cons_of_mem _ hb)

/-- A front of the lines is kept if a front of the chain is. -/
theorem prefix_line_iff {entries kept : List Logged} (h : Intact entries)
    (hsub : kept.Sublist entries) : kept.map Logged.link <+: entries.map Logged.link ↔
      kept.map Logged.line <+: entries.map Logged.line := by
  have hlink : ∀ e ∈ kept, ∀ e' ∈ entries, e.link = e'.link → e = e' := fun e he e' he' heq =>
    content_injOn h (hsub.subset he) he' (congrArg Prod.fst heq)
  have hline : ∀ e ∈ kept, ∀ e' ∈ entries, e.line = e'.line → e = e' := fun e he e' he' heq =>
    hlink e he e' he' (carries_unique (carries_line e) (heq ▸ carries_line e'))
  rw [map_prefix_iff hlink, map_prefix_iff hline]

theorem recoverState_fileOf (events : List SecurityEvent) :
    ∃ log, recoverState (fileOf (events.map lineOf)) = .ok log := by
  have hholds := holds_lines (events.map SecurityEvent.toDict) []
  have hrecover := hholds.recover
  rw [List.map_map] at hrecover
  exact ⟨_, by rw [recoverState, show recoverEntry (fileOf (events.map lineOf)) = _ from hrecover]; rfl⟩

/-- Lines that are taken out are missed if they are the last ones, by the log that wrote them and
by a new one. -/
theorem deletion_detected_iff (steps : List Step) (hclean : ∀ e ∈ steps, e.crashes = false)
    {lines kept : List (List Char)} (hlines : readAllLines (run step start steps).file = .ok lines)
    (hkept : kept.Sublist lines)
    (hfree : NoCollision (hashedTexts genesisHash lines ++ hashedTexts genesisHash kept))
    (hgenesis : ∀ text ∈ hashedTexts genesisHash lines, sha256Hex text ≠ genesisHash) :
    ∃ log reopened, (run step start steps).log = some log ∧
      recoverState (fileOf kept) = .ok reopened ∧
      (log.verifyChain (fileOf kept) = .ok false ↔ ¬ kept <+: lines) ∧
      (reopened.verifyChain (fileOf kept) = .ok false ↔ ¬ kept <+: lines) := by
  obtain ⟨entries, last, log, hinv, hlog⟩ := clean_run steps hclean
  have hintact := hinv.intact.of_append
  have hall := Except.ok.inj (hinv.readAllLines.symm.trans hlines)
  subst hall
  obtain ⟨rest, hsub, rfl⟩ := List.sublist_map_iff.mp hkept
  have hlinked : Linked SecurityChain.link genesisHash (rest.map Logged.link) ↔
      rest.map Logged.line <+: entries.map Logged.line := by
    have hcollision := collisionFree_of_lines (carries_lines entries) (carries_lines rest) hfree
    have hnodup := nodup_digests hintact.linked
      (hcollision.mono (List.subset_append_left _ _))
      (inputs_ne_genesis (carries_lines entries) hgenesis) (nodup_contents hintact)
    rw [linked_sublist hintact.linked hnodup hcollision (hsub.map _), prefix_line_iff hintact hsub]
  have hverify : ∀ log : SecurityLog, log.verifyChain (fileOf (rest.map Logged.line)) = .ok false ↔
      ¬ rest.map Logged.line <+: entries.map Logged.line := by
    intro log
    have hfile := verifyChain_fileOf log (rest.map Logged.event)
    rw [List.map_map] at hfile
    rw [← hlinked, ← verifyLines_false_iff (carries_lines rest) genesisHash]
    exact Eq.congr_left hfile
  obtain ⟨reopened, hreopened⟩ := recoverState_fileOf (rest.map Logged.event)
  rw [List.map_map] at hreopened
  exact ⟨log, reopened, hlog, hreopened, hverify log, hverify reopened⟩

theorem first_deletion_detected : ∃ log reopened,
    (run step start [.logEvent firstCall 0 .writes, .logEvent secondCall 1 .writes]).log = some log ∧
    recoverState (fileOf [secondLogged.line]) = .ok reopened ∧
    (log.verifyChain (fileOf [secondLogged.line]) = .ok false ↔
      ¬ [secondLogged.line] <+: [firstLogged.line, secondLogged.line]) ∧
    (reopened.verifyChain (fileOf [secondLogged.line]) = .ok false ↔
      ¬ [secondLogged.line] <+: [firstLogged.line, secondLogged.line]) := by
  obtain ⟨log, hinv, -⟩ := two_events
  have hlinked := hinv.intact.of_append.linked
  have htexts : hashedTexts genesisHash [firstLogged.line, secondLogged.line] =
      [genesisHash ++ firstLogged.link.1, firstLogged.hash ++ secondLogged.link.1] := by
    have htexts := hashedTexts_eq (carries_lines [firstLogged, secondLogged]) genesisHash
    simp only [List.map_cons, List.map_nil] at hlinked htexts
    have hfirst : firstLogged.link.2 = SecurityChain.link genesisHash firstLogged.link.1 := hlinked.1
    rw [htexts, inputs, if_pos hfirst, inputs, inputs, ite_self]
    rfl
  refine deletion_detected_iff _ (by decide) hinv.readAllLines (by simp) ?_ ?_
  · refine noCollision_of_nodup ?_
    rw [htexts, hashedTexts_singleton (carries_line secondLogged)]
    simp only [List.cons_append, List.nil_append, List.map_cons, List.map_nil, firstLogged_hash,
      secondLogged_hash, secondLogged_alone]
    decide
  · rw [htexts]
    simp only [List.forall_mem_cons, firstLogged_hash, secondLogged_hash]
    exact ⟨by decide, by decide, List.forall_mem_nil _⟩

/-- The last event can be taken out. -/
theorem last_deletion_unnoticed : ∃ log reopened,
    (run step start [.logEvent firstCall 0 .writes, .logEvent secondCall 1 .writes]).log = some log ∧
    readAllLines (run step start [.logEvent firstCall 0 .writes, .logEvent secondCall 1 .writes]).file =
      .ok [firstLogged.line, secondLogged.line] ∧
    recoverState (fileOf [firstLogged.line]) = .ok reopened ∧
    log.verifyChain (fileOf [firstLogged.line]) = .ok true ∧
    reopened.verifyChain (fileOf [firstLogged.line]) = .ok true := by
  obtain ⟨log, hinv, hlog⟩ := two_events
  obtain ⟨reopened, hreopened⟩ := recoverState_fileOf [firstLogged.event]
  have hverify : ∀ log : SecurityLog, log.verifyChain (fileOf [firstLogged.line]) = .ok true := by
    intro log
    refine (verifyChain_fileOf log [firstLogged.event]).trans ?_
    exact (verifyLines_true_iff (carries_lines [firstLogged]) genesisHash).mpr
      ⟨firstLogged_linked, trivial⟩
  exact ⟨log, reopened, hlog, hinv.readAllLines, hreopened, hverify log, hverify reopened⟩

/-! ## The last hash -/

/-- The line has this number, severity, event and source node. -/
def Bears (line : List Char) (tuple : Int × Str × Str × Str) : Prop :=
  ∃ stored, readEntry chainEntry line =
    .ok (stored, ⟨.int tuple.1, .str tuple.2.1, .str tuple.2.2.1, .str tuple.2.2.2⟩)

/-- The hash in the last line. -/
def lastStored (lines : List (List Char)) : Option Value :=
  lines.getLast?.bind fun line => ((readEntry chainEntry line).toOption).map Prod.fst

theorem lastStored_eq {lines : List (List Char)} {entries : List (List Char × List Char)}
    (h : List.Forall₂ Carries lines entries) (prevHash : List Char) (hne : lines ≠ []) :
    lastStored lines = some (.str (ofText (lastDigest prevHash entries))) := by
  induction h generalizing prevHash with
  | nil => exact absurd rfl hne
  | @cons line entry lines entries hline hlines ih =>
    cases hlines with
    | nil =>
      obtain ⟨fields, hread, -⟩ := hline
      simp only [lastStored, List.getLast?_singleton, Option.bind_some, hread, lastDigest]
      rfl
    | cons hnext hmore =>
      rw [lastStored, List.getLast?_cons_cons]
      exact ih entry.2 (List.cons_ne_nil _ _)

/-- Lines with the same contents have the same tuples. -/
theorem tuples_unique {lines others : List (List Char)} {tuples tuples' : List (Int × Str × Str × Str)}
    {entries : List (List Char × List Char)} (h : List.Forall₂ Carries lines entries)
    (h' : List.Forall₂ Carries others entries) (ht : List.Forall₂ Bears lines tuples)
    (ht' : List.Forall₂ Bears others tuples') : tuples = tuples' := by
  induction h generalizing others tuples tuples' with
  | nil =>
    rw [List.forall₂_nil_right_iff.mp h'] at ht'
    rw [List.forall₂_nil_left_iff.mp ht, List.forall₂_nil_left_iff.mp ht']
  | cons hline hlines ih =>
    obtain ⟨other, others, hother, hothers, rfl⟩ := List.forall₂_cons_right_iff.mp h'
    obtain ⟨tuple, tuples, ⟨stored, hread⟩, htuples, rfl⟩ := List.forall₂_cons_left_iff.mp ht
    obtain ⟨tuple', tuples', ⟨stored', hread'⟩, htuples', rfl⟩ := List.forall₂_cons_left_iff.mp ht'
    obtain ⟨fields, hfields, hcontent⟩ := hline
    obtain ⟨fields', hfields', hcontent'⟩ := hother
    have hsame := content_injective (normal_readEntry hfields) (normal_readEntry hfields')
      (hcontent.trans hcontent'.symm)
    rw [← (Prod.mk.inj (Except.ok.inj (hread.symm.trans hfields))).2,
      ← (Prod.mk.inj (Except.ok.inj (hread'.symm.trans hfields'))).2] at hsame
    obtain ⟨hseq, hseverity, hevent, hnode⟩ := ChainFields.mk.inj hsame
    have htuple : tuple = tuple' := Prod.ext (Value.int.inj hseq) (Prod.ext (Value.str.inj hseverity)
      (Prod.ext (Value.str.inj hevent) (Value.str.inj hnode)))
    rw [htuple, ih hothers htuples htuples']

/-- Two accepted files with the same last hash hold the same events in the same order. -/
theorem last_hash_binds (log log' : SecurityLog) {file file' : File}
    {lines lines' : List (List Char)} (hlines : readAllLines file = .ok lines)
    (hlines' : readAllLines file' = .ok lines') (hne : lines ≠ []) (hne' : lines' ≠ [])
    (hverify : log.verifyChain file = .ok true) (hverify' : log'.verifyChain file' = .ok true)
    (hlast : lastStored lines = lastStored lines') {tuples tuples' : List (Int × Str × Str × Str)}
    (htuples : List.Forall₂ Bears lines tuples) (htuples' : List.Forall₂ Bears lines' tuples')
    (hfree : NoCollision (hashedTexts genesisHash lines ++ hashedTexts genesisHash lines'))
    (hgenesis : ∀ text ∈ hashedTexts genesisHash lines ++ hashedTexts genesisHash lines',
      sha256Hex text ≠ genesisHash) : tuples = tuples' := by
  rw [SecurityLog.verifyChain, hlines] at hverify
  rw [SecurityLog.verifyChain, hlines'] at hverify'
  obtain ⟨entries, hentries⟩ := carries_of_verifyLines hverify
  obtain ⟨entries', hentries'⟩ := carries_of_verifyLines hverify'
  have hlinked := (verifyLines_true_iff hentries genesisHash).mp hverify
  have hlinked' := (verifyLines_true_iff hentries' genesisHash).mp hverify'
  rw [lastStored_eq hentries genesisHash hne, lastStored_eq hentries' genesisHash hne', Option.some.injEq,
    Value.str.injEq] at hlast
  rw [List.forall_mem_append] at hgenesis
  have hsame := linked_unique hlinked hlinked' (ofText_injective hlast)
    (collisionFree_of_lines hentries hentries' hfree)
    (List.forall_mem_append.mpr ⟨inputs_ne_genesis hentries hgenesis.1,
      inputs_ne_genesis hentries' hgenesis.2⟩)
  subst hsame
  exact tuples_unique hentries hentries' htuples htuples'

/-- Two files that differ in a category hold the same events. -/
theorem last_hash_binds_categories : ∃ tuples,
    List.Forall₂ Bears [firstLogged.line] tuples ∧
    List.Forall₂ Bears
      [lineOf (Field.category.set firstLogged.event.reread (.str (str "AUDIT")))] tuples := by
  have hfields : ∀ e : SecurityEvent, eventFields e.reread = eventFields firstLogged.event.reread →
      Bears (lineOf e) (1, str "LOW", str "a", []) := by
    intro e he
    have hstr : ∀ text, Json.reread (.str (ofText text)) = .str (ofText text) := fun text =>
      congrArg Value.str (joinSurrogates_ofText text)
    refine ⟨e.reread.chainHash, (readEntry_lineOf e).trans ?_⟩
    rw [he]
    refine congrArg (fun fields => Except.ok (e.reread.chainHash, fields)) ?_
    simp only [eventFields, SecurityEvent.reread, firstLogged, Logged.after, Logged.event, firstCall, str, hstr]
    rfl
  have hcategory : (Field.category.set firstLogged.event.reread (.str (str "AUDIT"))).reread =
      Field.category.set firstLogged.event.reread (Json.reread (.str (str "AUDIT"))) := by
    rw [reread_set, reread_reread]
  have hcarries := carries_set firstLogged .category (.str (str "AUDIT"))
  have hcontent : (eventFields (Field.category.set firstLogged.event.reread
      (Json.reread (.str (str "AUDIT"))))).content = (eventFields firstLogged.event).content :=
    content_reread firstLogged
  rw [hcontent] at hcarries
  have htuples : List.Forall₂ Bears [firstLogged.line] [(1, str "LOW", str "a", [])] :=
    .cons (hfields _ rfl) .nil
  have htuples' : List.Forall₂ Bears
      [lineOf (Field.category.set firstLogged.event.reread (.str (str "AUDIT")))]
      [(1, str "LOW", str "a", [])] := .cons (hfields _ (by rw [hcategory]; rfl)) .nil
  have hfirst := carries_line firstLogged
  have hverify := (verifyLines_true_iff (.cons hfirst .nil) genesisHash).mpr ⟨firstLogged_linked, trivial⟩
  have hverify' := (verifyLines_true_iff (.cons hcarries .nil) genesisHash).mpr
    ⟨firstLogged_linked, trivial⟩
  have htexts : hashedTexts genesisHash ([firstLogged.event].map lineOf) ++ hashedTexts genesisHash
      ([Field.category.set firstLogged.event.reread (.str (str "AUDIT"))].map lineOf) =
      List.replicate 2 (genesisHash ++ firstLogged.link.1) :=
    congrArg₂ (· ++ ·) (hashedTexts_singleton hfirst) (hashedTexts_singleton hcarries)
  have hlast : lastStored [firstLogged.line] = lastStored
      [lineOf (Field.category.set firstLogged.event.reread (.str (str "AUDIT")))] := by
    rw [lastStored_eq (.cons hfirst .nil) genesisHash (List.cons_ne_nil _ _),
      lastStored_eq (.cons hcarries .nil) genesisHash (List.cons_ne_nil _ _)]
    rfl
  have hsame := last_hash_binds {} {} (readAllLines_fileOf [firstLogged.event])
    (readAllLines_fileOf [Field.category.set firstLogged.event.reread (.str (str "AUDIT"))])
    (List.cons_ne_nil _ _) (List.cons_ne_nil _ _) ((verifyChain_fileOf _ _).trans hverify)
    ((verifyChain_fileOf _ _).trans hverify') hlast htuples htuples' ?_ ?_
  · exact ⟨_, htuples, hsame ▸ htuples'⟩
  · rw [htexts]
    intro text htext other hother _
    rw [List.eq_of_mem_replicate htext, List.eq_of_mem_replicate hother]
  · rw [htexts]
    intro text htext
    rw [List.eq_of_mem_replicate htext, firstLogged_hash]
    decide

end Genoh.SecurityEvidence
