import Genoh.MasterE2E
import Genoh.MasterNodes

/-!
# The two readings of a key

`resolve_data_id` looks up a key with lower bounds on the number of its segments, and
`parse_key_expr` takes it apart by the exact number. The builders of `key_expressions.py` stand
between them.
-/
namespace Genoh.KeyGrammar

open Genoh.MasterE2E
open Genoh.MasterNodes (ParsedKey parseKeyExpr)
open Genoh.Separators (splitOn_injective splitOn_map)
open Genoh.Strings (Str str ofText ofChar slash)

/-! ## Builders -/

def sensorKey (zone nodeId sensorType : String) : String :=
  "vehicle/" ++ zone ++ "/" ++ nodeId ++ "/sensor/" ++ sensorType

def actuatorKey (zone nodeId actuatorType : String) : String :=
  "vehicle/" ++ zone ++ "/" ++ nodeId ++ "/actuator/" ++ actuatorType

def statusKey (zone nodeId : String) : String := "vehicle/" ++ zone ++ "/" ++ nodeId ++ "/status"

/-! ## Segments -/

/-- A segment. -/
def Single (s : String) : Prop := '/' ∉ s.toList

theorem splitSlash_single {s : String} (h : Single s) : splitSlash s = [s] := by
  rw [splitSlash, List.splitOn_eq_singleton h, List.map_singleton, String.ofList_toList]

theorem splitSlash_slash (front back : String) :
    splitSlash (front ++ "/" ++ back) = splitSlash front ++ splitSlash back := by
  have htext : (front ++ "/" ++ back).toList = front.toList ++ '/' :: back.toList := by
    rw [String.toList_append, String.toList_append, List.append_assoc]
    rfl
  rw [splitSlash, htext, List.splitOn_append_cons_self, List.map_append]
  rfl

theorem splitSlash_injective : Function.Injective splitSlash := by
  intro s t h
  have hchars : s.toList.splitOn '/' = t.toList.splitOn '/' :=
    List.map_injective_iff.mpr (fun _ _ => String.ofList_injective) h
  exact String.toList_inj.mp (splitOn_injective '/' hchars)

theorem ofChar_injective : Function.Injective ofChar := by
  intro c d h
  have hsame : ofText [c] = ofText [d] := congrArg (fun x => [x]) h
  exact List.head_eq_of_cons_eq (Strings.ofText_injective hsame)

theorem str_injective : Function.Injective str := fun _ _ h =>
  String.toList_inj.mp (Strings.ofText_injective h)

/-- The text of a key has the segments of the key. -/
theorem splitSlash_str (s : String) : Strings.splitSlash (str s) = (splitSlash s).map str := by
  have hmap : Strings.splitSlash (str s) = (s.toList.splitOn '/').map (List.map ofChar) :=
    splitOn_map ofChar_injective '/' s.toList
  rw [hmap, splitSlash, List.map_map]
  apply List.map_congr_left
  intro segment _
  rw [Function.comp_apply, str, String.toList_ofList, ofText]

theorem single_of_mem {s segment : String} (h : segment ∈ splitSlash s) : Single segment := by
  have hstr : str segment ∈ Strings.splitSlash (str s) := by
    rw [splitSlash_str]
    exact List.mem_map_of_mem h
  intro hslash
  exact Strings.slash_not_mem_segment hstr (List.mem_map_of_mem hslash)

/-! ## The map by segments -/

def entries : List (List String × Nat) := dataIdMap.map fun entry => (splitSlash entry.1, entry.2)

theorem entries_lookup (key : String) : dataIdMap.lookup key = entries.lookup (splitSlash key) := by
  rw [entries]
  induction dataIdMap with
  | nil => rfl
  | cons entry map ih =>
    rw [List.map_cons]
    by_cases hkey : key = entry.1
    · rw [hkey, List.lookup_cons_self, List.lookup_cons_self]
    · have hsegments : splitSlash key ≠ splitSlash entry.1 := fun h => hkey (splitSlash_injective h)
      rw [List.lookup_cons, List.lookup_cons, beq_false_of_ne hkey, beq_false_of_ne hsegments, ih]

theorem single_getD (s : String) (i : Nat) : Single ((splitSlash s).getD i "") := by
  rw [List.getD_eq_getElem?_getD]
  cases hget : (splitSlash s)[i]? with
  | none => exact List.not_mem_nil
  | some segment => exact single_of_mem (List.mem_of_getElem? hget)

theorem splitSlash_node {p : String} (hp : Single p) :
    splitSlash ("vehicle/*/" ++ p) = ["vehicle", "*", p] := by
  have hfront : splitSlash "vehicle/*" = ["vehicle", "*"] := by decide
  have htext : "vehicle/*/" ++ p = "vehicle/*" ++ "/" ++ p := rfl
  rw [htext, splitSlash_slash, hfront, splitSlash_single hp]
  rfl

theorem splitSlash_typed {p q : String} (hp : Single p) (hq : Single q) :
    splitSlash ("vehicle/*/" ++ p ++ "/" ++ q) = ["vehicle", "*", p, q] := by
  rw [splitSlash_slash, splitSlash_node hp, splitSlash_single hq]
  rfl

theorem splitSlash_zone {p q : String} (hp : Single p) (hq : Single q) :
    splitSlash ("vehicle/" ++ p ++ "/" ++ q) = ["vehicle", p, q] := by
  have hfront : splitSlash "vehicle" = ["vehicle"] := by decide
  have htext : "vehicle/" ++ p = "vehicle" ++ "/" ++ p := rfl
  rw [splitSlash_slash, htext, splitSlash_slash, hfront, splitSlash_single hp, splitSlash_single hq]
  rfl

/-- The lookups of `resolve_data_id`, on the segments of the key. -/
def found (segments : List String) : Option Nat :=
  let segment := fun i => segments.getD i ""
  let whenLong := fun n (pattern : List String) =>
    if n ≤ segments.length ∧ segment 0 = "vehicle" then entries.lookup pattern else none
  entries.lookup segments
    <|> whenLong 5 ["vehicle", "*", segment 3, segment 4]
    <|> whenLong 4 ["vehicle", "*", segment 3]
    <|> whenLong 3 ["vehicle", segment 1, segment 2]

theorem resolveDataId_ok_iff (key : String) (dataId : Nat) :
    resolveDataId key = .ok dataId ↔ found (splitSlash key) = some dataId := by
  rw [resolveDataId, found]
  simp only [entries_lookup, splitSlash_typed (single_getD key 3) (single_getD key 4),
    splitSlash_node (single_getD key 3), splitSlash_zone (single_getD key 1) (single_getD key 2)]
  split
  · rename_i hfound
    rw [hfound, Option.some.injEq, Except.ok.injEq]
  · rename_i hfound
    rw [hfound]
    simp

theorem entries_eq : entries = [
    (["vehicle", "*", "sensor", "temperature"], 0x1001),
    (["vehicle", "*", "sensor", "pressure"], 0x1002),
    (["vehicle", "*", "sensor", "proximity"], 0x1003),
    (["vehicle", "*", "sensor", "light"], 0x1004),
    (["vehicle", "*", "sensor", "battery"], 0x1005),
    (["vehicle", "*", "actuator", "led"], 0x2001),
    (["vehicle", "*", "actuator", "motor"], 0x2002),
    (["vehicle", "*", "actuator", "relay"], 0x2003),
    (["vehicle", "*", "actuator", "buzzer"], 0x2004),
    (["vehicle", "*", "actuator", "lock"], 0x2005),
    (["vehicle", "*", "status"], 0x3000),
    (["vehicle", "master", "heartbeat"], 0x3F01),
    (["vehicle", "master", "diagnostics"], 0x3F02)] := by decide +kernel

/-! ## Keys of the entries -/

/-- The map has sensor and actuator types for all zones, and three keys of three segments. -/
def shaped : List String → Bool
  | [vehicle, zones, _, _] => vehicle == "vehicle" && zones == "*"
  | [vehicle, _, _] => vehicle == "vehicle"
  | _ => false

theorem entries_shaped : ∀ entry ∈ entries, shaped entry.1 = true := by
  rw [entries_eq]
  decide

theorem lookup_of_mem : ∀ entry ∈ entries, entries.lookup entry.1 = some entry.2 := by
  rw [entries_eq]
  decide +kernel

theorem mem_of_lookup {segments : List String} {dataId : Nat}
    (h : entries.lookup segments = some dataId) : (segments, dataId) ∈ entries := by
  obtain ⟨front, back, hentries, -⟩ := List.lookup_eq_some_iff.mp h
  rw [hentries]
  simp

/-- The one category that stands for all zones is no type. -/
theorem status_entry {zone nodeId category : String} {dataId other : Nat}
    (h : (["vehicle", "*", category], dataId) ∈ entries) :
    (["vehicle", zone, nodeId, category], other) ∉ entries := by
  rw [entries_eq] at h ⊢
  have hstatus : category = "status" := by
    have hboth : category = "status" ∧ dataId = 0x3000 := by simpa using h
    exact hboth.1
  simp [hstatus]

/-- The keys that the entries are made for: a zone and a node id in the place of the wildcard, or
the three segments of the entry. -/
inductive Named : List String → Nat → Prop where
  | typed (zone nodeId : String) {category type : String} {dataId : Nat} :
      (["vehicle", "*", category, type], dataId) ∈ entries →
        Named ["vehicle", zone, nodeId, category, type] dataId
  | untyped (zone nodeId : String) {category : String} {dataId : Nat} :
      (["vehicle", "*", category], dataId) ∈ entries →
        Named ["vehicle", zone, nodeId, category] dataId
  | exactly {zone category : String} {dataId : Nat} :
      (["vehicle", zone, category], dataId) ∈ entries → Named ["vehicle", zone, category] dataId

/-- A key with further segments behind such a key, or the pattern of a sensor or actuator type used
as a key. -/
def Stray (segments : List String) : Prop :=
  (∃ front rest dataId, segments = front ++ rest ∧ rest ≠ [] ∧ Named front dataId) ∨
    ∃ category type dataId, segments = ["vehicle", "*", category, type] ∧
      (segments, dataId) ∈ entries

theorem lookup_five {a b c d e : String} {rest : List String} :
    entries.lookup (a :: b :: c :: d :: e :: rest) = none := by
  cases hlookup : entries.lookup (a :: b :: c :: d :: e :: rest) with
  | none => rfl
  | some dataId => exact absurd (entries_shaped _ (mem_of_lookup hlookup)) Bool.false_ne_true

theorem lookup_untyped (zone nodeId : String) {category : String} {dataId : Nat}
    (h : (["vehicle", "*", category], dataId) ∈ entries) :
    entries.lookup ["vehicle", zone, nodeId, category] = none := by
  cases hlookup : entries.lookup ["vehicle", zone, nodeId, category] with
  | none => rfl
  | some other => exact absurd (mem_of_lookup hlookup) (status_entry h)

/-- Such a key resolves to its entry. -/
theorem found_of_named {segments : List String} {dataId : Nat} (h : Named segments dataId) :
    found segments = some dataId := by
  cases h with
  | typed zone nodeId h => simp [found, lookup_five, lookup_of_mem _ h]
  | untyped zone nodeId h => simp [found, lookup_untyped zone nodeId h, lookup_of_mem _ h]
  | exactly h => simp [found, lookup_of_mem _ h]

theorem named_or_stray_of_front (front rest : List String) {dataId : Nat} (h : Named front dataId) :
    Named (front ++ rest) dataId ∨ Stray (front ++ rest) := by
  cases rest with
  | nil =>
    rw [List.append_nil]
    exact .inl h
  | cons segment rest => exact .inr (.inl ⟨front, segment :: rest, dataId, rfl, by simp, h⟩)

theorem shaped_cases {segments : List String} (h : shaped segments = true) :
    (∃ category type, segments = ["vehicle", "*", category, type]) ∨
      ∃ zone category, segments = ["vehicle", zone, category] := by
  unfold shaped at h
  split at h
  · rw [Bool.and_eq_true, beq_iff_eq, beq_iff_eq] at h
    exact .inl ⟨_, _, by rw [h.1, h.2]⟩
  · rw [beq_iff_eq] at h
    exact .inr ⟨_, _, by rw [h]⟩
  · cases h

/-- What resolves is such a key or strays from one. -/
theorem named_or_stray {segments : List String} {dataId : Nat} (h : found segments = some dataId) :
    Named segments dataId ∨ Stray segments := by
  have hguard : ∀ {n : Nat} {pattern : List String},
      (if n ≤ segments.length ∧ segments.getD 0 "" = "vehicle" then entries.lookup pattern
        else none) = some dataId →
      n ≤ segments.length ∧ segments.getD 0 "" = "vehicle" ∧ (pattern, dataId) ∈ entries := by
    intro n pattern hlookup
    split at hlookup
    · rename_i hlong
      exact ⟨hlong.1, hlong.2, mem_of_lookup hlookup⟩
    · cases hlookup
  rw [found] at h
  simp only [Option.orElse_eq_orElse, Option.orElse_eq_or, Option.or_eq_some_iff] at h
  obtain hdirect | ⟨-, hfive | ⟨-, hfour | ⟨-, hthree⟩⟩⟩ := h
  · have hmem := mem_of_lookup hdirect
    obtain ⟨category, type, rfl⟩ | ⟨zone, category, rfl⟩ := shaped_cases (entries_shaped _ hmem)
    · exact .inr (.inr ⟨category, type, dataId, rfl, hmem⟩)
    · exact .inl (.exactly hmem)
  · obtain ⟨hlong, hvehicle, hmem⟩ := hguard hfive
    obtain ⟨_, zone, nodeId, category, type, rest, rfl⟩ : ∃ a b c d e rest,
        segments = a :: b :: c :: d :: e :: rest := by
      rcases segments with _ | ⟨a, _ | ⟨b, _ | ⟨c, _ | ⟨d, _ | ⟨e, rest⟩⟩⟩⟩⟩ <;> simp at hlong ⊢
    obtain rfl := hvehicle
    exact named_or_stray_of_front [_, _, _, _, _] rest (.typed zone nodeId hmem)
  · obtain ⟨hlong, hvehicle, hmem⟩ := hguard hfour
    obtain ⟨_, zone, nodeId, category, rest, rfl⟩ : ∃ a b c d rest,
        segments = a :: b :: c :: d :: rest := by
      rcases segments with _ | ⟨a, _ | ⟨b, _ | ⟨c, _ | ⟨d, rest⟩⟩⟩⟩ <;> simp at hlong ⊢
    obtain rfl := hvehicle
    exact named_or_stray_of_front [_, _, _, _] rest (.untyped zone nodeId hmem)
  · obtain ⟨hlong, hvehicle, hmem⟩ := hguard hthree
    obtain ⟨_, zone, category, rest, rfl⟩ : ∃ a b c rest, segments = a :: b :: c :: rest := by
      rcases segments with _ | ⟨a, _ | ⟨b, _ | ⟨c, rest⟩⟩⟩ <;> simp at hlong ⊢
    obtain rfl := hvehicle
    exact named_or_stray_of_front [_, _, _] rest (.exactly hmem)

/-- What strays resolves too. -/
theorem found_of_stray {segments : List String} (h : Stray segments) :
    ∃ dataId, found segments = some dataId := by
  obtain ⟨front, rest, dataId, rfl, -, hnamed⟩ | ⟨category, type, dataId, rfl, hmem⟩ := h
  · apply Option.isSome_iff_exists.mp
    cases hnamed with
    | typed zone nodeId hmem => simp [found, lookup_of_mem _ hmem]
    | untyped zone nodeId hmem => simp [found, lookup_of_mem _ hmem]
    | exactly hmem => simp [found, lookup_of_mem _ hmem]
  · exact ⟨dataId, by simp [found, lookup_of_mem _ hmem]⟩

/-! ## Agreement -/

/-- The parsed key has the category and the type of the entry, which has none where its pattern is
short. The keys of the master stand for themselves only. -/
def Names (pattern key : String) (parsed : ParsedKey) : Prop :=
  match splitSlash pattern with
  | [_, _, category, type] => parsed.category = str category ∧ parsed.type = some (str type)
  | [_, zone, category] =>
    parsed.category = str category ∧ parsed.type = none ∧ (zone ≠ "*" → key = pattern)
  | _ => False

/-- A key that resolves is parsed as its entry says. -/
def Agrees (key : String) : Prop :=
  ∀ dataId, resolveDataId key = .ok dataId → ∃ pattern, (pattern, dataId) ∈ dataIdMap ∧
    ∃ parsed, parseKeyExpr (str key) = some parsed ∧ Names pattern key parsed

theorem names_typed {pattern key : String} {parsed : ParsedKey} {vehicle zones category type : String}
    (h : splitSlash pattern = [vehicle, zones, category, type]) :
    Names pattern key parsed ↔ parsed.category = str category ∧ parsed.type = some (str type) := by
  rw [Names, h]

theorem names_short {pattern key : String} {parsed : ParsedKey} {vehicle zone category : String}
    (h : splitSlash pattern = [vehicle, zone, category]) :
    Names pattern key parsed ↔
      parsed.category = str category ∧ parsed.type = none ∧ (zone ≠ "*" → key = pattern) := by
  rw [Names, h]

theorem parse_five {key zone nodeId category type : String}
    (h : splitSlash key = ["vehicle", zone, nodeId, category, type]) :
    parseKeyExpr (str key) = some ⟨str zone, some (str nodeId), str category, some (str type)⟩ := by
  simp [parseKeyExpr, splitSlash_str, h]

theorem parse_four {key zone nodeId category : String}
    (h : splitSlash key = ["vehicle", zone, nodeId, category]) :
    parseKeyExpr (str key) = some ⟨str zone, some (str nodeId), str category, none⟩ := by
  simp [parseKeyExpr, splitSlash_str, h]

theorem parse_three {key zone category : String} (h : splitSlash key = ["vehicle", zone, category]) :
    parseKeyExpr (str key) = some ⟨str zone, none, str category, none⟩ := by
  simp [parseKeyExpr, splitSlash_str, h]

/-- What `parse_key_expr` accepts has three, four or five segments. -/
theorem parse_cases {key : String} {parsed : ParsedKey} (h : parseKeyExpr (str key) = some parsed) :
    (∃ zone nodeId category type, splitSlash key = ["vehicle", zone, nodeId, category, type] ∧
        parsed = ⟨str zone, some (str nodeId), str category, some (str type)⟩) ∨
      (∃ zone nodeId category, splitSlash key = ["vehicle", zone, nodeId, category] ∧
        parsed = ⟨str zone, some (str nodeId), str category, none⟩) ∨
      ∃ zone category, splitSlash key = ["vehicle", zone, category] ∧
        parsed = ⟨str zone, none, str category, none⟩ := by
  have hparts := splitSlash_str key
  simp only [parseKeyExpr, hparts] at h
  generalize splitSlash key = segments at h ⊢
  rcases segments with _ | ⟨a, _ | ⟨b, _ | ⟨c, _ | ⟨d, _ | ⟨e, _ | ⟨f, rest⟩⟩⟩⟩⟩⟩ <;>
    simp [str_injective.eq_iff] at h ⊢ <;> exact ⟨h.1, h.2.symm⟩

theorem mem_entries_iff (segments : List String) (dataId : Nat) :
    (segments, dataId) ∈ entries ↔
      ∃ pattern, (pattern, dataId) ∈ dataIdMap ∧ splitSlash pattern = segments := by
  rw [entries, List.mem_map]
  constructor
  · rintro ⟨⟨pattern, id⟩, hmem, heq⟩
    rw [Prod.mk.injEq] at heq
    obtain ⟨hsegments, rfl⟩ := heq
    exact ⟨pattern, hmem, hsegments⟩
  · rintro ⟨pattern, hmem, rfl⟩
    exact ⟨(pattern, dataId), hmem, rfl⟩

/-- A key of three segments resolves only as an entry. -/
theorem mem_of_found_three {zone category : String} {dataId : Nat}
    (h : found ["vehicle", zone, category] = some dataId) :
    (["vehicle", zone, category], dataId) ∈ entries := by
  have hlookup : entries.lookup ["vehicle", zone, category] = some dataId := by
    simpa [found] using h
  exact mem_of_lookup hlookup

/-- A parsed key that names an entry is one that the entry is made for. -/
theorem named_of_names {pattern key : String} {parsed : ParsedKey} {dataId : Nat}
    (hfound : found (splitSlash key) = some dataId) (hpattern : (pattern, dataId) ∈ dataIdMap)
    (hparsed : parseKeyExpr (str key) = some parsed) (hnames : Names pattern key parsed) :
    Named (splitSlash key) dataId := by
  have hmem := (mem_entries_iff _ dataId).mpr ⟨pattern, hpattern, rfl⟩
  have hshaped : shaped (splitSlash pattern) = true := entries_shaped _ hmem
  obtain ⟨zone', nodeId, category', type', hkey, rfl⟩ | ⟨zone', nodeId, category', hkey, rfl⟩ |
    ⟨zone', category', hkey, rfl⟩ := parse_cases hparsed
  · obtain ⟨category, type, hsplit⟩ | ⟨zone, category, hsplit⟩ := shaped_cases hshaped
    · rw [names_typed hsplit] at hnames
      obtain rfl := str_injective hnames.1
      obtain rfl := str_injective (Option.some.inj hnames.2)
      rw [hsplit] at hmem
      rw [hkey]
      exact .typed zone' nodeId hmem
    · rw [names_short hsplit] at hnames
      cases hnames.2.1
  · obtain ⟨category, type, hsplit⟩ | ⟨zone, category, hsplit⟩ := shaped_cases hshaped
    · rw [names_typed hsplit] at hnames
      cases hnames.2
    · rw [names_short hsplit] at hnames
      obtain ⟨hcategory, -, hexact⟩ := hnames
      obtain rfl := str_injective hcategory
      by_cases hzone : zone = "*"
      · rw [hsplit, hzone] at hmem
        rw [hkey]
        exact .untyped zone' nodeId hmem
      · rw [hexact hzone, hsplit] at hkey
        simp at hkey
  · rw [hkey] at hfound ⊢
    exact .exactly (mem_of_found_three hfound)

/-- The parsed key names the entry just when the key is one that the entry is made for. -/
theorem names_iff_named {key : String} {dataId : Nat}
    (hfound : found (splitSlash key) = some dataId) :
    (∃ pattern, (pattern, dataId) ∈ dataIdMap ∧
      ∃ parsed, parseKeyExpr (str key) = some parsed ∧ Names pattern key parsed) ↔
        Named (splitSlash key) dataId := by
  constructor
  · rintro ⟨pattern, hpattern, parsed, hparsed, hnames⟩
    exact named_of_names hfound hpattern hparsed hnames
  · intro hnamed
    generalize hsegments : splitSlash key = segments at hnamed
    cases hnamed with
    | typed zone nodeId hmem =>
      obtain ⟨pattern, hpattern, hsplit⟩ := (mem_entries_iff _ dataId).mp hmem
      exact ⟨pattern, hpattern, _, parse_five hsegments, (names_typed hsplit).mpr ⟨rfl, rfl⟩⟩
    | untyped zone nodeId hmem =>
      obtain ⟨pattern, hpattern, hsplit⟩ := (mem_entries_iff _ dataId).mp hmem
      exact ⟨pattern, hpattern, _, parse_four hsegments,
        (names_short hsplit).mpr ⟨rfl, rfl, fun h => absurd rfl h⟩⟩
    | exactly hmem =>
      obtain ⟨pattern, hpattern, hsplit⟩ := (mem_entries_iff _ dataId).mp hmem
      exact ⟨pattern, hpattern, _, parse_three hsegments,
        (names_short hsplit).mpr ⟨rfl, rfl, fun _ => splitSlash_injective (hsegments.trans hsplit.symm)⟩⟩

/-! ## The builders resolve -/

/-- What the builders make resolves to the entry of the type, or of the status. -/
def BuildersResolve (zone nodeId : String) : Prop :=
  (∀ sensorType dataId, ("vehicle/*/sensor/" ++ sensorType, dataId) ∈ dataIdMap →
    resolveDataId (sensorKey zone nodeId sensorType) = .ok dataId) ∧
  (∀ actuatorType dataId, ("vehicle/*/actuator/" ++ actuatorType, dataId) ∈ dataIdMap →
    resolveDataId (actuatorKey zone nodeId actuatorType) = .ok dataId) ∧
  ∀ dataId, ("vehicle/*/status", dataId) ∈ dataIdMap →
    resolveDataId (statusKey zone nodeId) = .ok dataId

theorem splitSlash_built {zone nodeId : String} (hzone : Single zone) (hnodeId : Single nodeId)
    (rest : String) :
    splitSlash ("vehicle/" ++ zone ++ "/" ++ nodeId ++ "/" ++ rest) =
      ["vehicle", zone, nodeId] ++ splitSlash rest := by
  rw [splitSlash_slash, splitSlash_zone hzone hnodeId]

/-- A category and a type behind zone and node id, whatever these are. -/
theorem typed_resolves {zone nodeId category type : String} {dataId : Nat} (hzone : Single zone)
    (hnodeId : Single nodeId) (hcategory : Single category)
    (h : ("vehicle/*/" ++ category ++ "/" ++ type, dataId) ∈ dataIdMap) :
    resolveDataId ("vehicle/" ++ zone ++ "/" ++ nodeId ++ "/" ++ (category ++ "/" ++ type)) =
      .ok dataId := by
  have hpattern : splitSlash ("vehicle/*/" ++ category ++ "/" ++ type) =
      ["vehicle", "*", category] ++ splitSlash type := by
    rw [splitSlash_slash, splitSlash_node hcategory]
  have hmem := (mem_entries_iff _ dataId).mpr ⟨_, h, hpattern⟩
  have hshaped : shaped (["vehicle", "*", category] ++ splitSlash type) = true :=
    entries_shaped _ hmem
  rw [resolveDataId_ok_iff, splitSlash_built hzone hnodeId, splitSlash_slash,
    splitSlash_single hcategory]
  obtain ⟨_, last, hsplit⟩ | ⟨_, _, hsplit⟩ := shaped_cases hshaped
  · have htype : splitSlash type = [last] := congrArg (List.drop 3) hsplit
    rw [htype] at hmem ⊢
    exact found_of_named (.typed zone nodeId hmem)
  · have htype : splitSlash type = [] := congrArg (List.drop 3) hsplit
    exact absurd htype (by simp [splitSlash, List.splitOn_ne_nil])

theorem builders_resolve {zone nodeId : String} (hzone : Single zone) (hnodeId : Single nodeId) :
    BuildersResolve zone nodeId := by
  constructor
  · intro sensorType dataId h
    have hkey : sensorKey zone nodeId sensorType =
        "vehicle/" ++ zone ++ "/" ++ nodeId ++ "/" ++ ("sensor" ++ "/" ++ sensorType) := by
      simp [sensorKey, ← String.toList_inj]
    rw [hkey]
    exact typed_resolves hzone hnodeId (by simp [Single]) h
  constructor
  · intro actuatorType dataId h
    have hkey : actuatorKey zone nodeId actuatorType =
        "vehicle/" ++ zone ++ "/" ++ nodeId ++ "/" ++ ("actuator" ++ "/" ++ actuatorType) := by
      simp [actuatorKey, ← String.toList_inj]
    rw [hkey]
    exact typed_resolves hzone hnodeId (by simp [Single]) h
  · intro dataId h
    have hkey : statusKey zone nodeId = "vehicle/" ++ zone ++ "/" ++ nodeId ++ "/" ++ "status" := by
      simp [statusKey, ← String.toList_inj]
    have hmem := (mem_entries_iff ["vehicle", "*", "status"] dataId).mpr ⟨_, h, by decide⟩
    rw [hkey, resolveDataId_ok_iff, splitSlash_built hzone hnodeId]
    exact found_of_named (.untyped zone nodeId hmem)

/-- The two readings agree on a key just when it does not stray from the keys of the entries, by further
segments or as a pattern, or is one of these all the same. What the builders make resolves to its
entry. -/
theorem readings_agree_iff (key zone nodeId : String) :
    (Agrees key ∧ (Single zone → Single nodeId → BuildersResolve zone nodeId)) ↔
      (Stray (splitSlash key) → ∃ dataId, Named (splitSlash key) dataId) := by
  constructor
  · rintro ⟨hagrees, -⟩ hstray
    obtain ⟨dataId, hfound⟩ := found_of_stray hstray
    have hnames := hagrees dataId ((resolveDataId_ok_iff key dataId).mpr hfound)
    exact ⟨dataId, (names_iff_named hfound).mp hnames⟩
  · intro hexcept
    constructor
    · intro dataId hresolve
      have hfound := (resolveDataId_ok_iff key dataId).mp hresolve
      rw [names_iff_named hfound]
      obtain hnamed | hstray := named_or_stray hfound
      · exact hnamed
      · obtain ⟨other, hother⟩ := hexcept hstray
        have hsame := (found_of_named hother).symm.trans hfound
        rwa [Option.some.inj hsame] at hother
    · intro hzone hnodeId
      exact builders_resolve hzone hnodeId

/-- A heartbeat key with a further segment resolves, and is parsed as a node of the zone `master`. -/
theorem readings_differ_behind_heartbeat :
    ¬ ∀ key zone nodeId : String,
      Agrees key ∧ (Single zone → Single nodeId → BuildersResolve zone nodeId) := by
  intro hall
  have hagrees := (hall "vehicle/master/heartbeat/1" "front_left" "1").1
  have hresolve : resolveDataId "vehicle/master/heartbeat/1" = .ok 0x3F01 := by decide
  have hfound := (resolveDataId_ok_iff _ _).mp hresolve
  have hnamed := (names_iff_named hfound).mp (hagrees _ hresolve)
  have hsplit : splitSlash "vehicle/master/heartbeat/1" = ["vehicle", "master", "heartbeat", "1"] := by
    decide
  rw [hsplit] at hnamed
  cases hnamed with
  | untyped _ _ hmem => exact absurd hmem (by decide)

end Genoh.KeyGrammar
