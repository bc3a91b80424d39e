import Genoh.JsonRoundTrip

/-!
# JSON documents in normal form

Documents without surrogate pairs and repeated keys. Reading leads to them, and their written
form determines them.
-/
namespace Genoh.Json

open Genoh.OrderedDict Genoh.Strings

/-! ## Dictionaries -/

theorem mem_of_mem_dictOf {pairs : List (Str × Value)} {pair : Str × Value}
    (h : pair ∈ dictOf pairs) : pair ∈ pairs := by
  induction pairs using List.reverseRecOn with
  | nil => exact h
  | append_singleton pairs last ih =>
    rw [dictOf, List.foldl_append] at h
    obtain rfl | hmem := mem_of_mem_setPairs h
    · exact List.mem_append_right _ List.mem_cons_self
    · exact List.mem_append_left _ (ih hmem)

theorem nodup_dictOf (pairs : List (Str × Value)) : ((dictOf pairs).map Prod.fst).Nodup := by
  induction pairs using List.reverseRecOn with
  | nil => exact List.nodup_nil
  | append_singleton pairs last ih =>
    rw [dictOf, List.foldl_append]
    exact nodup_setPairs _ _ _ ih

theorem dictOf_of_nodup {pairs : List (Str × Value)} (h : (pairs.map Prod.fst).Nodup) :
    dictOf pairs = pairs := by
  rw [← List.nil_append pairs] at h
  exact foldl_setPairs h

/-! ## Normal form -/

mutual

def Normal : Value → Prop
  | .null => True
  | .bool _ => True
  | .int _ => True
  | .float _ => True
  | .str s => joinSurrogates s = s
  | .list items => NormalItems items
  | .dict members => (members.map Prod.fst).Nodup ∧ NormalMembers members

def NormalItems : List Value → Prop
  | [] => True
  | item :: items => Normal item ∧ NormalItems items

def NormalMembers : List (Str × Value) → Prop
  | [] => True
  | (key, value) :: members => (joinSurrogates key = key ∧ Normal value) ∧ NormalMembers members

end

theorem normalMembers_iff (members : List (Str × Value)) : NormalMembers members ↔
    ∀ member ∈ members, joinSurrogates member.1 = member.1 ∧ Normal member.2 := by
  induction members with
  | nil => simp [NormalMembers]
  | cons member members ih =>
    obtain ⟨key, value⟩ := member
    rw [NormalMembers, ih, List.forall_mem_cons]

theorem NormalMembers.dictOf {pairs : List (Str × Value)} (h : NormalMembers pairs) :
    NormalMembers (dictOf pairs) := by
  rw [normalMembers_iff] at h ⊢
  exact fun member hmember => h member (mem_of_mem_dictOf hmember)

mutual

theorem normal_reread : ∀ v : Value, Normal (reread v)
  | .null => trivial
  | .bool _ => trivial
  | .int _ => trivial
  | .float _ => trivial
  | .str s => joinSurrogates_idem s
  | .list items => normalItems_reread items
  | .dict members => ⟨nodup_dictOf _, (normalMembers_reread members).dictOf⟩

theorem normalItems_reread : ∀ items : List Value, NormalItems (rereadItems items)
  | [] => trivial
  | item :: items => ⟨normal_reread item, normalItems_reread items⟩

theorem normalMembers_reread : ∀ members : List (Str × Value), NormalMembers (rereadMembers members)
  | [] => trivial
  | (key, value) :: members =>
    ⟨⟨joinSurrogates_idem key, normal_reread value⟩, normalMembers_reread members⟩

end

mutual

/-- What is in normal form is read as itself. -/
theorem Normal.reread : ∀ {v : Value}, Normal v → reread v = v
  | .null, _ => rfl
  | .bool _, _ => rfl
  | .int _, _ => rfl
  | .float _, _ => rfl
  | .str s, h => by
    rw [Json.reread, show joinSurrogates s = s from h]
  | .list items, h => by
    rw [Json.reread, NormalItems.reread h]
  | .dict members, h => by
    rw [Json.reread, NormalMembers.reread h.2, dictOf_of_nodup h.1]

theorem NormalItems.reread : ∀ {items : List Value}, NormalItems items → rereadItems items = items
  | [], _ => rfl
  | item :: items, h => by
    rw [rereadItems, Normal.reread h.1, NormalItems.reread h.2]

theorem NormalMembers.reread : ∀ {members : List (Str × Value)}, NormalMembers members →
    rereadMembers members = members
  | [], _ => rfl
  | (key, value) :: members, h => by
    rw [rereadMembers, h.1.1, Normal.reread h.1.2, NormalMembers.reread h.2]

end

theorem get?_mem {members : List (Str × Value)} {key : Str} {value : Value}
    (h : get? members key = some value) : (key, value) ∈ members := by
  rw [get?] at h
  obtain ⟨member, hfind, rfl⟩ := Option.map_eq_some_iff.mp h
  have hkey := List.find?_some hfind
  rw [decide_eq_true_iff] at hkey
  rw [← hkey]
  exact List.mem_of_find?_eq_some hfind

/-- The members of a document in normal form are in normal form. -/
theorem Normal.get? {members : List (Str × Value)} {key : Str} {value : Value}
    (h : Normal (.dict members)) (hget : get? members key = some value) : Normal value :=
  ((normalMembers_iff members).mp h.2 _ (get?_mem hget)).2

/-! ## Writing and reading -/

/-- What `json.dumps` writes `json.loads` reads. -/
theorem loads_dumps (v : Value) : loads (dumps v) = some (reread v) := by
  have hscan := scanOnce_dumps v [] ((dumps v).length + 1) (Nat.le_succ _) (by simp)
  have hskip := skipWhitespace_dumps v []
  rw [List.append_nil] at hscan hskip
  rw [loads, hskip, hscan]
  rfl

/-- The written form of a document in normal form determines it. -/
theorem dumps_injective {v w : Value} (hv : Normal v) (hw : Normal w) (h : dumps v = dumps w) :
    v = w := by
  have hread : some (reread v) = some (reread w) := by
    rw [← loads_dumps, ← loads_dumps, h]
  rw [hv.reread, hw.reread] at hread
  exact Option.some.inj hread

/-- The escape of a joined pair is the escapes of its halves. -/
theorem escape_combine {high low : CodePoint} (h : (isHigh high && isLow low) = true) :
    escape (combine high low) = escape high ++ escape low := by
  have hlarge := combine_large h
  rw [Bool.and_eq_true, isHigh_iff, isLow_iff] at h
  have htable : ∀ {c : CodePoint}, 0x80 ≤ c.val → escapeDct.lookup c = none := by
    intro c hc
    rw [List.lookup_eq_none_iff]
    intro entry hentry
    rw [bne_iff_ne]
    rintro rfl
    revert hc entry
    decide
  have hescape : ∀ {c : CodePoint}, 0x80 ≤ c.val →
      escape c = (units c).flatMap fun unit => escapeUnit unit.val := by
    intro c hc
    rw [escape, htable hc]
    exact if_neg (by omega)
  have hunits : units (combine high low) = [high, low] := by
    have hval : (combine high low).val =
        0x10000 + (high.val - 0xd800) * 0x400 + (low.val - 0xdc00) := by
      rw [combine, Fin.val_ofNat, Nat.mod_eq_of_lt (by omega)]
    rw [units, if_neg (by omega), hval]
    refine congrArg₂ (fun a b => [a, b]) (Fin.ext ?_) (Fin.ext ?_)
    · rw [Fin.val_ofNat, Nat.mod_eq_of_lt (by omega)]
      omega
    · rw [Fin.val_ofNat, Nat.mod_eq_of_lt (by omega)]
      omega
  rw [hescape (by omega), hescape (by omega), hescape (by omega), hunits, units_small (by omega),
    units_small (by omega)]
  simp

/-- A string is written the same whether its surrogates are joined or not. -/
theorem quote_joinSurrogates (s : Str) : quote (joinSurrogates s) = quote s := by
  have hescape : (joinSurrogates s).flatMap escape = s.flatMap escape := by
    induction s using joinSurrogates.induct with
    | case1 high low s hpair ih =>
      rw [joinSurrogates_pair hpair, List.flatMap_cons, List.flatMap_cons, List.flatMap_cons, ih,
        escape_combine hpair, List.append_assoc]
    | case2 high low s hpair ih =>
      rw [joinSurrogates_cons (by simpa using hpair), List.flatMap_cons, ih, ← List.flatMap_cons]
    | case3 s hshort =>
      rw [joinSurrogates.eq_def]
      split
      · exact absurd rfl (hshort _ _ _)
      · rfl
  rw [quote, quote, hescape]

/-- A text has no surrogates to join. -/
theorem joinSurrogates_ofText (text : List Char) : joinSurrogates (ofText text) = ofText text := by
  induction text with
  | nil => rfl
  | cons c text ih =>
    have hhigh : isHigh (ofChar c) = false := by
      have h := ofChar_not_surrogate c
      rw [← Bool.not_eq_true, isSurrogate, Bool.and_eq_true, decide_eq_true_iff,
        decide_eq_true_iff] at h
      rw [← Bool.not_eq_true, isHigh_iff]
      omega
    change joinSurrogates (ofChar c :: ofText text) = ofChar c :: ofText text
    rw [joinSurrogates_cons (by simp [hhigh]), ih]

/-- No high surrogate directly in front of a low one. -/
def Unpaired (s : Str) : Prop := s.IsChain fun c d => (isHigh c && isLow d) = false

/-- A string reads as itself just when there is nothing to join. -/
theorem joinSurrogates_eq_iff (s : Str) : joinSurrogates s = s ↔ Unpaired s := by
  induction s using joinSurrogates.induct with
  | case1 high low s hpair ih =>
    refine iff_of_false (fun h => ?_) fun h => ?_
    · have hsame := (List.cons.inj ((joinSurrogates_pair hpair s).symm.trans h)).1
      have hlarge := combine_large hpair
      rw [Bool.and_eq_true, isHigh_iff] at hpair
      rw [hsame] at hlarge
      omega
    · have hfalse := (List.isChain_cons_cons.mp h).1
      exact absurd hpair (by simp [hfalse])
  | case2 high low s hpair ih =>
    have hfalse : (isHigh high && isLow low) = false := by simpa using hpair
    rw [joinSurrogates_cons (by simpa using hpair), Unpaired, List.isChain_cons_cons, List.cons.injEq,
      ih]
    exact ⟨fun h => ⟨hfalse, h.2⟩, fun h => ⟨rfl, h.2⟩⟩
  | case3 s hshort =>
    cases s with
    | nil => exact iff_of_true rfl .nil
    | cons c s =>
      cases s with
      | nil => exact iff_of_true rfl (.singleton c)
      | cons d s => exact absurd rfl (hshort c d s)

/-! ## The written form is ASCII -/

def Printable (c : Char) : Prop := 0x20 ≤ c.toNat ∧ c.toNat ≤ 0x7e

instance (c : Char) : Decidable (Printable c) := inferInstanceAs (Decidable (_ ∧ _))

theorem printable_of_all {s : List Char} (h : (s.all fun c => Printable c) = true) :
    ∀ c ∈ s, Printable c := fun c hc => of_decide_eq_true (List.all_eq_true.mp h c hc)

theorem printable_digit {c : Char} (h : c.isDigit = true) : Printable c := by
  rw [Char.isDigit, Bool.and_eq_true, decide_eq_true_iff, decide_eq_true_iff] at h
  have hlow : (48 : Nat) ≤ c.toNat := h.1
  have hhigh : c.toNat ≤ (57 : Nat) := h.2
  exact ⟨by omega, by omega⟩

theorem printable_takeWhile {s : List Char} : ∀ c ∈ s.takeWhile Char.isDigit, Printable c := by
  intro c hc
  exact printable_digit (List.mem_takeWhile_imp hc)

theorem printable_lexWhole {s digits rest : List Char} (h : lexWhole s = some (digits, rest)) :
    ∀ c ∈ digits, Printable c := by
  cases s with
  | nil => exact absurd h (by simp [lexWhole])
  | cons d s =>
    rw [lexWhole] at h
    split at h
    · rw [← (Prod.mk.inj (Option.some.inj h)).1]
      exact List.forall_mem_singleton.mpr (by decide)
    · split at h
      · rename_i hdigit
        rw [← (Prod.mk.inj (Option.some.inj h)).1]
        exact List.forall_mem_cons.mpr ⟨printable_digit hdigit, printable_takeWhile⟩
      · exact absurd h (by simp)

theorem printable_lexInteger {s integer rest : List Char} (h : lexInteger s = some (integer, rest)) :
    ∀ c ∈ integer, Printable c := by
  cases s with
  | nil => exact absurd h (by simp [lexInteger])
  | cons d s =>
    rw [lexInteger] at h
    split at h
    · obtain ⟨⟨digits, rest'⟩, hwhole, heq⟩ := Option.map_eq_some_iff.mp h
      rw [← (Prod.mk.inj heq).1]
      exact List.forall_mem_cons.mpr ⟨by decide, printable_lexWhole hwhole⟩
    · exact printable_lexWhole h

theorem printable_lexTail (s : List Char) : ∀ c ∈ (lexTail s).1, Printable c := by
  have hfraction : ∀ s, ∀ c ∈ (lexFraction s).1, Printable c := by
    intro s
    cases s with
    | nil => exact List.forall_mem_nil _
    | cons d s =>
      rw [lexFraction]
      split
      · exact List.forall_mem_cons.mpr ⟨by decide, printable_takeWhile⟩
      · exact List.forall_mem_nil _
  have hsign : ∀ s, ∀ c ∈ (lexSign s).1, Printable c := by
    intro s
    cases s with
    | nil => exact List.forall_mem_nil _
    | cons d s =>
      rw [lexSign]
      split
      · rename_i hd
        refine List.forall_mem_singleton.mpr ?_
        rcases hd with rfl | rfl <;> decide
      · exact List.forall_mem_nil _
  have hexponent : ∀ s, ∀ c ∈ (lexExponent s).1, Printable c := by
    intro s
    cases s with
    | nil => exact List.forall_mem_nil _
    | cons d s =>
      rw [lexExponent]
      split
      · rename_i hd
        rw [List.cons_append, List.forall_mem_cons, List.forall_mem_append]
        refine ⟨?_, hsign s, printable_takeWhile⟩
        rcases hd.1 with rfl | rfl <;> decide
      · exact List.forall_mem_nil _
  rw [lexTail]
  exact List.forall_mem_append.mpr ⟨hfraction s, hexponent _⟩

theorem printable_intRepr (n : Int) : ∀ c ∈ intRepr n, Printable c :=
  printable_lexInteger (lexInteger_intRepr n)

theorem printable_float (x : FloatLiteral) : ∀ c ∈ x.literal, Printable c := by
  obtain hconstant | hfloat := x.valid
  · have hall : (nonFinite.all fun literal => literal.all fun c => Printable c) = true := by decide
    exact printable_of_all (List.all_eq_true.mp hall _ hconstant)
  · rw [isFloat] at hfloat
    split at hfloat
    · rename_i integer tail hlex
      obtain ⟨⟨digits, rest⟩, hinteger, heq⟩ := Option.map_eq_some_iff.mp hlex
      simp only [Prod.mk.injEq] at heq
      have htext := lexTail_text rest
      rw [heq.2.2, List.append_nil] at htext
      rw [lexInteger_text hinteger, List.forall_mem_append]
      exact ⟨printable_lexInteger hinteger, htext ▸ printable_lexTail rest⟩
    · exact absurd hfloat Bool.false_ne_true

theorem printable_escapeUnit (n : Nat) : ∀ c ∈ escapeUnit n, Printable c := by
  have hdigit : ∀ d < 16, Printable (Nat.digitChar d) := by decide
  have hmod : ∀ n, Printable (Nat.digitChar (n % 16)) := fun n => hdigit _ (Nat.mod_lt _ (by decide))
  simp only [escapeUnit, List.forall_mem_cons]
  exact ⟨by decide, by decide, hmod _, hmod _, hmod _, hmod _, List.forall_mem_nil _⟩

theorem printable_escape (code : CodePoint) : ∀ c ∈ escape code, Printable c := by
  rw [escape]
  split
  · rename_i e hlookup
    have htable : ∀ entry ∈ escapeDct, Printable entry.2 := by decide
    obtain ⟨front, back, heq, -⟩ := List.lookup_eq_some_iff.mp hlookup
    have hmem : (code, e) ∈ escapeDct := by simp [heq]
    exact List.forall_mem_cons.mpr ⟨by decide, List.forall_mem_singleton.mpr (htable _ hmem)⟩
  · split
    · rename_i hprint
      have hvalid : Nat.isValidChar code.val := Or.inl (by omega)
      have hnat : (Char.ofNat code.val).toNat = code.val := by
        rw [Char.ofNat, dif_pos hvalid]
        rfl
      rw [List.forall_mem_singleton, Printable, hnat]
      exact hprint
    · intro c hc
      obtain ⟨unit, -, hunit⟩ := List.mem_flatMap.mp hc
      exact printable_escapeUnit _ c hunit

theorem printable_quote (s : Str) : ∀ c ∈ quote s, Printable c := by
  rw [quote, List.forall_mem_cons, List.forall_mem_append]
  refine ⟨by decide, fun c hc => ?_, List.forall_mem_singleton.mpr (by decide)⟩
  obtain ⟨code, -, hcode⟩ := List.mem_flatMap.mp hc
  exact printable_escape code c hcode

mutual

theorem printable_dumps : ∀ v : Value, ∀ c ∈ dumps v, Printable c
  | .null => printable_of_all (by decide)
  | .bool true => printable_of_all (by decide)
  | .bool false => printable_of_all (by decide)
  | .int n => printable_intRepr n
  | .float x => printable_float x
  | .str s => printable_quote s
  | .list [] => printable_of_all (by decide)
  | .list (item :: items) => by
    rw [dumps, List.forall_mem_cons, List.forall_mem_append]
    exact ⟨by decide, printable_dumps item, printable_dumpsItems items⟩
  | .dict [] => printable_of_all (by decide)
  | .dict ((key, value) :: members) => by
    rw [dumps, List.forall_mem_cons, List.forall_mem_append, List.forall_mem_cons,
      List.forall_mem_append]
    exact ⟨by decide, printable_quote key, by decide, printable_dumps value,
      printable_dumpsMembers members⟩

theorem printable_dumpsItems : ∀ items : List Value, ∀ c ∈ dumpsItems items, Printable c
  | [] => printable_of_all (by decide)
  | item :: items => by
    rw [dumpsItems, List.forall_mem_cons, List.forall_mem_append]
    exact ⟨by decide, printable_dumps item, printable_dumpsItems items⟩

theorem printable_dumpsMembers : ∀ members : List (Str × Value), ∀ c ∈ dumpsMembers members,
    Printable c
  | [] => printable_of_all (by decide)
  | (key, value) :: members => by
    rw [dumpsMembers, List.forall_mem_cons, List.forall_mem_append, List.forall_mem_cons,
      List.forall_mem_append]
    exact ⟨by decide, printable_quote key, by decide, printable_dumps value,
      printable_dumpsMembers members⟩

end

end Genoh.Json
