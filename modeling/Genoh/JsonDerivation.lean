import Genoh.JsonNormal

/-!
# JSON derivations

The scanner as a relation between a text, what is read at its front and what is left. It does
not depend on the fuel, read documents are in normal form, and what follows a document changes
nothing but for a number.
-/
namespace Genoh.Json

open Genoh.OrderedDict Genoh.Strings

mutual

/-- What `scanOnce` reads. -/
inductive Scans : List Char → Value → List Char → Prop where
  | string {s rest : List Char} {text : Str} (h : scanString s = some (text, rest)) :
      Scans ('"' :: s) (.str text) rest
  | emptyObject {s rest : List Char} (h : expect '\x7d' (skipWhitespace s) = some rest) :
      Scans ('\x7b' :: s) (.dict []) rest
  | object {s rest : List Char} {pairs : List (Str × Value)}
      (hopen : expect '\x7d' (skipWhitespace s) = none)
      (h : ScansMembers (skipWhitespace s) pairs rest) :
      Scans ('\x7b' :: s) (.dict (dictOf pairs)) rest
  | emptyArray {s rest : List Char} (h : expect ']' (skipWhitespace s) = some rest) :
      Scans ('[' :: s) (.list []) rest
  | array {s rest : List Char} {items : List Value} (hopen : expect ']' (skipWhitespace s) = none)
      (h : ScansItems (skipWhitespace s) items rest) : Scans ('[' :: s) (.list items) rest
  | atom {c : Char} {s rest : List Char} {v : Value} (hquote : c ≠ '"') (hbrace : c ≠ '\x7b')
      (hbracket : c ≠ '[') (h : scanAtom (c :: s) = some (v, rest)) : Scans (c :: s) v rest

/-- What `scanItems` reads. -/
inductive ScansItems : List Char → List Value → List Char → Prop where
  | last {s s' rest : List Char} {item : Value} (h : Scans s item s')
      (hend : expect ']' (skipWhitespace s') = some rest) : ScansItems s [item] rest
  | more {s s' s'' rest : List Char} {item : Value} {items : List Value} (h : Scans s item s')
      (hopen : expect ']' (skipWhitespace s') = none)
      (hcomma : expect ',' (skipWhitespace s') = some s'')
      (hitems : ScansItems (skipWhitespace s'') items rest) : ScansItems s (item :: items) rest

/-- What `scanMembers` reads. -/
inductive ScansMembers : List Char → List (Str × Value) → List Char → Prop where
  | last {s s₁ s₂ s₃ s₄ rest : List Char} {key : Str} {value : Value}
      (hquote : expect '"' s = some s₁) (hkey : scanString s₁ = some (key, s₂))
      (hcolon : expect ':' (skipWhitespace s₂) = some s₃) (h : Scans (skipWhitespace s₃) value s₄)
      (hend : expect '\x7d' (skipWhitespace s₄) = some rest) : ScansMembers s [(key, value)] rest
  | more {s s₁ s₂ s₃ s₄ s₅ rest : List Char} {key : Str} {value : Value}
      {members : List (Str × Value)}
      (hquote : expect '"' s = some s₁) (hkey : scanString s₁ = some (key, s₂))
      (hcolon : expect ':' (skipWhitespace s₂) = some s₃) (h : Scans (skipWhitespace s₃) value s₄)
      (hopen : expect '\x7d' (skipWhitespace s₄) = none)
      (hcomma : expect ',' (skipWhitespace s₄) = some s₅)
      (hmembers : ScansMembers (skipWhitespace s₅) members rest) :
      ScansMembers s ((key, value) :: members) rest

end

/-! ## The scanner follows the relation -/

theorem scans_of_scan (fuel : Nat) :
    (∀ s v rest, scanOnce fuel s = some (v, rest) → Scans s v rest) ∧
    (∀ s items rest, scanItems fuel s = some (items, rest) → ScansItems s items rest) ∧
    (∀ s members rest, scanMembers fuel s = some (members, rest) → ScansMembers s members rest) := by
  induction fuel with
  | zero =>
    refine ⟨fun s v rest h => ?_, fun s items rest h => ?_, fun s members rest h => ?_⟩
    · exact absurd h (by simp [scanOnce])
    · exact absurd h (by simp [scanItems])
    · exact absurd h (by simp [scanMembers])
  | succ fuel ih =>
    obtain ⟨ihOnce, ihItems, ihMembers⟩ := ih
    refine ⟨fun s v rest h => ?_, fun s items rest h => ?_, fun s members rest h => ?_⟩
    · cases s with
      | nil => exact absurd h (by simp [scanOnce])
      | cons c s =>
        by_cases hquote : c = '"'
        · subst hquote
          rw [scanOnce_string] at h
          obtain ⟨⟨text, rest'⟩, hscan, heq⟩ := Option.map_eq_some_iff.mp h
          obtain ⟨rfl, rfl⟩ := Prod.mk.inj heq
          exact .string hscan
        by_cases hbrace : c = '\x7b'
        · subst hbrace
          rw [scanOnce_object] at h
          cases hend : expect '\x7d' (skipWhitespace s) with
          | some rest' =>
            simp only [hend, Option.some.injEq, Prod.mk.injEq] at h
            obtain ⟨rfl, rfl⟩ := h
            exact .emptyObject hend
          | none =>
            simp only [hend] at h
            obtain ⟨⟨pairs, rest'⟩, hscan, heq⟩ := Option.map_eq_some_iff.mp h
            obtain ⟨rfl, rfl⟩ := Prod.mk.inj heq
            exact .object hend (ihMembers _ _ _ hscan)
        by_cases hbracket : c = '['
        · subst hbracket
          rw [scanOnce_array] at h
          cases hend : expect ']' (skipWhitespace s) with
          | some rest' =>
            simp only [hend, Option.some.injEq, Prod.mk.injEq] at h
            obtain ⟨rfl, rfl⟩ := h
            exact .emptyArray hend
          | none =>
            simp only [hend] at h
            obtain ⟨⟨items, rest'⟩, hscan, heq⟩ := Option.map_eq_some_iff.mp h
            obtain ⟨rfl, rfl⟩ := Prod.mk.inj heq
            exact .array hend (ihItems _ _ _ hscan)
        rw [scanOnce_atom fuel s hquote hbrace hbracket] at h
        exact .atom hquote hbrace hbracket h
    · rw [scanItems] at h
      simp only [Option.bind_eq_bind, Option.bind_eq_some_iff] at h
      obtain ⟨⟨item, s'⟩, hitem, h⟩ := h
      split at h
      · rename_i s'' hend
        simp only [Option.pure_def, Option.some.injEq, Prod.mk.injEq] at h
        obtain ⟨rfl, rfl⟩ := h
        exact .last (ihOnce _ _ _ hitem) hend
      · rename_i hopen
        simp only [Option.bind_eq_some_iff, Option.pure_def, Option.some.injEq, Prod.mk.injEq] at h
        obtain ⟨s'', hcomma, ⟨items', rest'⟩, hitems, rfl, rfl⟩ := h
        exact .more (ihOnce _ _ _ hitem) hopen hcomma (ihItems _ _ _ hitems)
    · rw [scanMembers] at h
      simp only [Option.bind_eq_bind, Option.bind_eq_some_iff] at h
      obtain ⟨s₁, hquote, ⟨key, s₂⟩, hkey, s₃, hcolon, ⟨value, s₄⟩, hvalue, h⟩ := h
      split at h
      · rename_i s₅ hend
        simp only [Option.pure_def, Option.some.injEq, Prod.mk.injEq] at h
        obtain ⟨rfl, rfl⟩ := h
        exact .last hquote hkey hcolon (ihOnce _ _ _ hvalue) hend
      · rename_i hopen
        simp only [Option.bind_eq_some_iff, Option.pure_def, Option.some.injEq, Prod.mk.injEq] at h
        obtain ⟨s₅, hcomma, ⟨members', rest'⟩, hmembers, rfl, rfl⟩ := h
        exact .more hquote hkey hcolon (ihOnce _ _ _ hvalue) hopen hcomma (ihMembers _ _ _ hmembers)

/-! ## The relation does not depend on the fuel -/

mutual
theorem fuel_of_scans : ∀ {s : List Char} {v : Value} {rest : List Char}, Scans s v rest →
    ∃ N, ∀ fuel, N ≤ fuel → scanOnce fuel s = some (v, rest)
  | _, _, _, .string h => ⟨1, fun fuel hfuel => by
      obtain ⟨fuel, rfl⟩ := Nat.exists_eq_add_of_le' hfuel
      rw [scanOnce_string, h]
      rfl⟩
  | _, _, _, .emptyObject h => ⟨1, fun fuel hfuel => by
      obtain ⟨fuel, rfl⟩ := Nat.exists_eq_add_of_le' hfuel
      rw [scanOnce_object, h]⟩
  | _, _, _, .object hopen h => by
      obtain ⟨N, hN⟩ := fuel_of_scansMembers h
      refine ⟨N + 1, fun fuel hfuel => ?_⟩
      obtain ⟨fuel, rfl⟩ := Nat.exists_eq_add_of_le' (Nat.le_of_add_left_le hfuel)
      rw [scanOnce_object, hopen]
      simp only [hN fuel (Nat.le_of_succ_le_succ hfuel), Option.map_some]
  | _, _, _, .emptyArray h => ⟨1, fun fuel hfuel => by
      obtain ⟨fuel, rfl⟩ := Nat.exists_eq_add_of_le' hfuel
      rw [scanOnce_array, h]⟩
  | _, _, _, .array hopen h => by
      obtain ⟨N, hN⟩ := fuel_of_scansItems h
      refine ⟨N + 1, fun fuel hfuel => ?_⟩
      obtain ⟨fuel, rfl⟩ := Nat.exists_eq_add_of_le' (Nat.le_of_add_left_le hfuel)
      rw [scanOnce_array, hopen]
      simp only [hN fuel (Nat.le_of_succ_le_succ hfuel), Option.map_some]
  | _, _, _, .atom hquote hbrace hbracket h => ⟨1, fun fuel hfuel => by
      obtain ⟨fuel, rfl⟩ := Nat.exists_eq_add_of_le' hfuel
      rw [scanOnce_atom fuel _ hquote hbrace hbracket, h]⟩

theorem fuel_of_scansItems : ∀ {s : List Char} {items : List Value} {rest : List Char},
    ScansItems s items rest → ∃ N, ∀ fuel, N ≤ fuel → scanItems fuel s = some (items, rest)
  | _, _, _, .last h hend => by
      obtain ⟨N, hN⟩ := fuel_of_scans h
      refine ⟨N + 1, fun fuel hfuel => ?_⟩
      obtain ⟨fuel, rfl⟩ := Nat.exists_eq_add_of_le' (Nat.le_of_add_left_le hfuel)
      rw [scanItems, hN fuel (Nat.le_of_succ_le_succ hfuel)]
      simp [hend]
  | _, _, _, .more h hopen hcomma hitems => by
      obtain ⟨N, hN⟩ := fuel_of_scans h
      obtain ⟨N', hN'⟩ := fuel_of_scansItems hitems
      refine ⟨max N N' + 1, fun fuel hfuel => ?_⟩
      obtain ⟨fuel, rfl⟩ := Nat.exists_eq_add_of_le' (Nat.le_of_add_left_le hfuel)
      rw [scanItems, hN fuel (by omega)]
      simp [hopen, hcomma, hN' fuel (by omega)]

theorem fuel_of_scansMembers : ∀ {s : List Char} {members : List (Str × Value)} {rest : List Char},
    ScansMembers s members rest → ∃ N, ∀ fuel, N ≤ fuel → scanMembers fuel s = some (members, rest)
  | _, _, _, .last hquote hkey hcolon h hend => by
      obtain ⟨N, hN⟩ := fuel_of_scans h
      refine ⟨N + 1, fun fuel hfuel => ?_⟩
      obtain ⟨fuel, rfl⟩ := Nat.exists_eq_add_of_le' (Nat.le_of_add_left_le hfuel)
      rw [scanMembers]
      simp [hquote, hkey, hcolon, hN fuel (Nat.le_of_succ_le_succ hfuel), hend]
  | _, _, _, .more hquote hkey hcolon h hopen hcomma hmembers => by
      obtain ⟨N, hN⟩ := fuel_of_scans h
      obtain ⟨N', hN'⟩ := fuel_of_scansMembers hmembers
      refine ⟨max N N' + 1, fun fuel hfuel => ?_⟩
      obtain ⟨fuel, rfl⟩ := Nat.exists_eq_add_of_le' (Nat.le_of_add_left_le hfuel)
      rw [scanMembers]
      simp [hquote, hkey, hcolon, hN fuel (by omega), hopen, hcomma, hN' fuel (by omega)]
end

/-! ## What is read is in normal form -/

theorem normal_of_scanString {s rest : List Char} {text : Str} (h : scanString s = some (text, rest)) :
    joinSurrogates text = text := by
  rw [scanString, Option.map_eq_some_iff] at h
  obtain ⟨⟨units, rest'⟩, -, heq⟩ := h
  rw [← (Prod.mk.inj heq).1]
  exact joinSurrogates_idem units

theorem normal_of_scanAtom {s rest : List Char} {v : Value} (h : scanAtom s = some (v, rest)) :
    Normal v := by
  rw [scanAtom] at h
  split at h
  · rename_i result hfind
    obtain ⟨⟨word, value⟩, hmem, hword⟩ := List.exists_of_findSome?_eq_some hfind
    obtain ⟨rest', -, heq⟩ := Option.map_eq_some_iff.mp hword
    rw [← (Prod.mk.inj (heq.trans (Option.some.inj h))).1]
    simp only [constants, List.mem_cons, List.not_mem_nil, or_false, Prod.mk.injEq] at hmem
    rcases hmem with ⟨-, rfl⟩ | ⟨-, rfl⟩ | ⟨-, rfl⟩ | ⟨-, rfl⟩ | ⟨-, rfl⟩ | ⟨-, rfl⟩ <;> trivial
  · rw [scanNumber] at h
    split at h
    · exact absurd h (by simp)
    · split at h
      · rw [← (Prod.mk.inj (Option.some.inj h)).1]
        trivial
      · split at h
        · rw [← (Prod.mk.inj (Option.some.inj h)).1]
          trivial
        · exact absurd h (by simp)

mutual

theorem normal_of_scans : ∀ {s : List Char} {v : Value} {rest : List Char}, Scans s v rest → Normal v
  | _, _, _, .string h => normal_of_scanString h
  | _, _, _, .emptyObject _ => ⟨List.nodup_nil, trivial⟩
  | _, _, _, .object _ h => ⟨nodup_dictOf _, (normal_of_scansMembers h).dictOf⟩
  | _, _, _, .emptyArray _ => trivial
  | _, _, _, .array _ h => normal_of_scansItems h
  | _, _, _, .atom _ _ _ h => normal_of_scanAtom h

theorem normal_of_scansItems : ∀ {s : List Char} {items : List Value} {rest : List Char},
    ScansItems s items rest → NormalItems items
  | _, _, _, .last h _ => ⟨normal_of_scans h, trivial⟩
  | _, _, _, .more h _ _ hitems => ⟨normal_of_scans h, normal_of_scansItems hitems⟩

theorem normal_of_scansMembers : ∀ {s : List Char} {members : List (Str × Value)} {rest : List Char},
    ScansMembers s members rest → NormalMembers members
  | _, _, _, .last _ hkey _ h _ => ⟨⟨normal_of_scanString hkey, normal_of_scans h⟩, trivial⟩
  | _, _, _, .more _ hkey _ h _ _ hmembers =>
    ⟨⟨normal_of_scanString hkey, normal_of_scans h⟩, normal_of_scansMembers hmembers⟩

end

theorem scans_of_loads {s : List Char} {v : Value} (h : loads s = some v) :
    ∃ rest, Scans (skipWhitespace s) v rest ∧ skipWhitespace rest = [] := by
  rw [loads] at h
  split at h
  · exact absurd h (by simp)
  · rename_i value rest hscan
    split at h
    · rename_i hrest
      rw [← Option.some.inj h]
      exact ⟨rest, (scans_of_scan _).1 _ _ _ hscan, hrest⟩
    · exact absurd h (by simp)

/-- What `json.loads` returns is in normal form. -/
theorem normal_of_loads {s : List Char} {v : Value} (h : loads s = some v) : Normal v := by
  obtain ⟨rest, hscans, -⟩ := scans_of_loads h
  exact normal_of_scans hscans

/-! ## What follows a document -/

theorem skipWhitespace_append {s : List Char} (t : List Char) (h : skipWhitespace s ≠ []) :
    skipWhitespace (s ++ t) = skipWhitespace s ++ t := by
  induction s with
  | nil => exact absurd rfl h
  | cons c s ih =>
    cases hc : isWhitespace c with
    | true =>
      have hskip : ∀ s, skipWhitespace (c :: s) = skipWhitespace s := fun s => by
        rw [skipWhitespace, List.dropWhile_cons_of_pos hc, skipWhitespace]
      rw [hskip] at h ⊢
      rw [List.cons_append, hskip, ih h]
    | false => rw [List.cons_append, skipWhitespace_of_not hc, skipWhitespace_of_not hc, List.cons_append]

theorem expect_append {c : Char} {s rest : List Char} (t : List Char)
    (h : expect c (skipWhitespace s) = some rest) :
    expect c (skipWhitespace (s ++ t)) = some (rest ++ t) := by
  have heq := expect_eq_some h
  rw [skipWhitespace_append t (by simp [heq]), heq, List.cons_append, expect_self]

theorem expect_none_append {c : Char} {s : List Char} (t : List Char) (hne : skipWhitespace s ≠ [])
    (h : expect c (skipWhitespace s) = none) : expect c (skipWhitespace (s ++ t)) = none := by
  rw [skipWhitespace_append t hne]
  cases hs : skipWhitespace s with
  | nil => exact absurd hs hne
  | cons d s' =>
    rw [hs, expect] at h
    rw [List.cons_append, expect]
    split
    · rename_i hd
      rw [if_pos hd] at h
      exact absurd h (by simp)
    · rfl

theorem scanUnits_unit {w x y z : Char} {unit : CodePoint} (h : decodeUnit w x y z = some unit)
    (s : List Char) : scanUnits ('\\' :: 'u' :: w :: x :: y :: z :: s) =
      (scanUnits s).map fun (units, rest) => (unit :: units, rest) := by
  rw [scanUnits.eq_2, if_neg (by decide), if_pos rfl, h]

theorem scanUnits_append {s rest : List Char} {units : Str} (t : List Char)
    (h : scanUnits s = some (units, rest)) : scanUnits (s ++ t) = some (units, rest ++ t) := by
  have hcons : ∀ {s : List Char} {unit : CodePoint} {units : Str} {rest : List Char},
      (∀ {units rest}, scanUnits s = some (units, rest) → scanUnits (s ++ t) = some (units, rest ++ t)) →
      ((scanUnits s).map fun (units, rest) => (unit :: units, rest)) = some (units, rest) →
      ((scanUnits (s ++ t)).map fun (units, rest) => (unit :: units, rest)) =
        some (units, rest ++ t) := by
    intro s unit units rest ih h
    obtain ⟨⟨units', rest'⟩, hscan, heq⟩ := Option.map_eq_some_iff.mp h
    obtain ⟨rfl, rfl⟩ := Prod.mk.inj heq
    rw [ih hscan]
    rfl
  induction s using scanUnits.induct generalizing units rest with
  | case1 => exact absurd h (by simp [scanUnits])
  | case2 s =>
    rw [scanUnits_quote] at h
    obtain ⟨rfl, rfl⟩ := Prod.mk.inj (Option.some.inj h)
    exact scanUnits_quote _
  | case3 w x y z s hdecode => exact absurd h (by simp [scanUnits, hdecode])
  | case4 w x y z s unit hdecode _ ih =>
    rw [scanUnits_unit hdecode] at h
    exact (scanUnits_unit hdecode (s ++ t)).trans (hcons ih h)
  | case5 e s hshort hlookup =>
    rw [scanUnits.eq_3 _ _ _ hshort, hlookup] at h
    exact absurd h (by simp)
  | case6 e s _ unit hlookup _ ih =>
    have hunit : e ≠ 'u' := by
      rintro rfl
      have hnone : backslash.lookup 'u' = none := by decide
      rw [hnone] at hlookup
      exact absurd hlookup (by simp)
    have hstep := fun s => (scanUnits_short e s hunit).trans (by rw [hlookup])
    rw [hstep] at h
    exact (hstep (s ++ t)).trans (hcons ih h)
  | case7 => exact absurd h (by simp [scanUnits])
  | case8 c s hquote hback hcontrol =>
    rw [scanUnits.eq_def] at h
    simp only [if_neg hquote, if_neg hback, if_pos hcontrol] at h
    exact absurd h (by simp)
  | case9 c s hquote hback hcontrol ih =>
    rw [scanUnits_raw c s hquote hback hcontrol] at h
    exact (scanUnits_raw c (s ++ t) hquote hback hcontrol).trans (hcons ih h)

theorem scanString_append {s rest : List Char} {text : Str} (t : List Char)
    (h : scanString s = some (text, rest)) : scanString (s ++ t) = some (text, rest ++ t) := by
  rw [scanString, Option.map_eq_some_iff] at h
  obtain ⟨⟨units, rest'⟩, hscan, heq⟩ := h
  obtain ⟨rfl, rfl⟩ := Prod.mk.inj heq
  rw [scanString, scanUnits_append t hscan]
  rfl

theorem dropWord_eq_some {word s rest : List Char} (h : dropWord word s = some rest) :
    s = word ++ rest := by
  rw [dropWord] at h
  split at h
  · rename_i hprefix
    obtain ⟨tail, rfl⟩ := List.isPrefixOf_iff_prefix.mp hprefix
    rw [← Option.some.inj h, List.drop_left]
  · exact absurd h (by simp)

/-- An atom stands as long as what follows does not continue a number. -/
theorem scanAtom_append {s rest : List Char} {v : Value} {t : List Char}
    (ht : HeadNot Continues (rest ++ t)) (h : scanAtom s = some (v, rest)) :
    scanAtom (s ++ t) = some (v, rest ++ t) := by
  rw [scanAtom] at h
  split at h
  · rename_i result hfind
    obtain ⟨⟨word, value⟩, hmem, hword⟩ := List.exists_of_findSome?_eq_some hfind
    obtain ⟨rest', hdrop, heq⟩ := Option.map_eq_some_iff.mp hword
    obtain ⟨rfl, rfl⟩ := Prod.mk.inj (heq.trans (Option.some.inj h))
    rw [dropWord_eq_some hdrop, List.append_assoc]
    simp only [constants, List.mem_cons, List.not_mem_nil, or_false, Prod.mk.injEq] at hmem
    rcases hmem with ⟨rfl, rfl⟩ | ⟨rfl, rfl⟩ | ⟨rfl, rfl⟩ | ⟨rfl, rfl⟩ | ⟨rfl, rfl⟩ | ⟨rfl, rfl⟩ <;> rfl
  · rw [scanNumber] at h
    split at h
    · exact absurd h (by simp)
    · rename_i integer tail rest' hlex
      have hrest : rest' = rest := by
        split at h
        · exact (Prod.mk.inj (Option.some.inj h)).2
        · split at h
          · exact (Prod.mk.inj (Option.some.inj h)).2
          · exact absurd h (by simp)
      subst hrest
      have happend := lexNumber_append hlex ht
      have hsome : lexInteger (s ++ t) ≠ none := by
        intro hnone
        rw [lexNumber, hnone] at happend
        exact absurd happend (by simp)
      rw [scanAtom_number hsome, scanNumber, happend]
      split at h
      · rename_i htail
        rw [← (Prod.mk.inj (Option.some.inj h)).1]
        exact if_pos htail
      · rename_i htail
        split at h
        · rename_i valid
          rw [← (Prod.mk.inj (Option.some.inj h)).1]
          exact (if_neg htail).trans (dif_pos valid)
        · exact absurd h (by simp)

theorem headNot_of_expect {c : Char} {s rest : List Char} (t : List Char) (hc : ¬ Continues c)
    (h : expect c (skipWhitespace s) = some rest) : HeadNot Continues (s ++ t) := by
  cases s with
  | nil => exact absurd h (by simp [skipWhitespace, expect])
  | cons d s =>
    rw [List.cons_append, headNot_cons]
    cases hd : isWhitespace d with
    | true =>
      simp only [isWhitespace, Bool.or_eq_true, beq_iff_eq] at hd
      unfold Continues
      rcases hd with ((rfl | rfl) | rfl) | rfl <;> decide
    | false =>
      rw [skipWhitespace_of_not hd] at h
      rw [(List.cons.inj (expect_eq_some h)).1]
      exact hc

theorem Scans.ne_nil {s rest : List Char} {v : Value} (h : Scans s v rest) : s ≠ [] := by
  cases h <;> exact List.cons_ne_nil _ _

theorem ScansItems.ne_nil {s rest : List Char} {items : List Value} (h : ScansItems s items rest) :
    s ≠ [] := by
  cases h <;> exact Scans.ne_nil (by assumption)

theorem ScansMembers.ne_nil {s rest : List Char} {members : List (Str × Value)}
    (h : ScansMembers s members rest) : s ≠ [] := by
  cases h <;> exact fun hnil => absurd (hnil ▸ (by assumption : expect '"' s = some _)) (by simp [expect])

mutual

theorem scans_append : ∀ {s : List Char} {v : Value} {rest t : List Char}, Scans s v rest →
    HeadNot Continues (rest ++ t) → Scans (s ++ t) v (rest ++ t)
  | _, _, _, t, .string h, _ => .string (scanString_append t h)
  | _, _, _, t, .emptyObject h, _ => .emptyObject (expect_append t h)
  | _, _, _, t, .object hopen h, _ => by
    have hmembers := scansMembers_append t h
    rw [← skipWhitespace_append t h.ne_nil] at hmembers
    exact .object (expect_none_append t h.ne_nil hopen) hmembers
  | _, _, _, t, .emptyArray h, _ => .emptyArray (expect_append t h)
  | _, _, _, t, .array hopen h, _ => by
    have hitems := scansItems_append t h
    rw [← skipWhitespace_append t h.ne_nil] at hitems
    exact .array (expect_none_append t h.ne_nil hopen) hitems
  | _, _, _, t, .atom hquote hbrace hbracket h, ht =>
    .atom hquote hbrace hbracket (scanAtom_append ht h)

theorem scansItems_append : ∀ {s : List Char} {items : List Value} {rest : List Char}
    (t : List Char), ScansItems s items rest → ScansItems (s ++ t) items (rest ++ t)
  | _, _, _, t, .last h hend => by
    have hitem := scans_append h (headNot_of_expect t (by unfold Continues; decide) hend)
    exact .last hitem (expect_append t hend)
  | _, _, _, t, .more h hopen hcomma hitems => by
    have hitem := scans_append h (headNot_of_expect t (by unfold Continues; decide) hcomma)
    have hrest := scansItems_append t hitems
    rw [← skipWhitespace_append t hitems.ne_nil] at hrest
    have hne := expect_eq_some hcomma ▸ List.cons_ne_nil _ _
    exact .more hitem (expect_none_append t hne hopen) (expect_append t hcomma) hrest

theorem scansMembers_append : ∀ {s : List Char} {members : List (Str × Value)} {rest : List Char}
    (t : List Char), ScansMembers s members rest → ScansMembers (s ++ t) members (rest ++ t)
  | _, _, _, t, .last hquote hkey hcolon h hend => by
    have hvalue := scans_append h (headNot_of_expect t (by unfold Continues; decide) hend)
    rw [← skipWhitespace_append t h.ne_nil] at hvalue
    exact .last (by rw [expect_eq_some hquote, List.cons_append, expect_self])
      (scanString_append t hkey) (expect_append t hcolon) hvalue (expect_append t hend)
  | _, _, _, t, .more hquote hkey hcolon h hopen hcomma hmembers => by
    have hvalue := scans_append h (headNot_of_expect t (by unfold Continues; decide) hcomma)
    rw [← skipWhitespace_append t h.ne_nil] at hvalue
    have hrest := scansMembers_append t hmembers
    rw [← skipWhitespace_append t hmembers.ne_nil] at hrest
    have hne := expect_eq_some hcomma ▸ List.cons_ne_nil _ _
    exact .more (by rw [expect_eq_some hquote, List.cons_append, expect_self])
      (scanString_append t hkey) (expect_append t hcolon) hvalue (expect_none_append t hne hopen)
      (expect_append t hcomma) hrest

end

/-! ## Cut documents -/

/-- An object that has been read is the same in front of anything else. -/
theorem scans_object_append {s rest : List Char} {v : Value} (t : List Char)
    (h : Scans ('\x7b' :: s) v rest) : Scans ('\x7b' :: s ++ t) v (rest ++ t) := by
  cases h with
  | emptyObject h => exact .emptyObject (expect_append t h)
  | object hopen h =>
    have hmembers := scansMembers_append t h
    rw [← skipWhitespace_append t h.ne_nil] at hmembers
    exact .object (expect_none_append t h.ne_nil hopen) hmembers
  | atom _ hbrace _ _ => exact absurd rfl hbrace

theorem scans_unique {s rest rest' : List Char} {v v' : Value} (h : Scans s v rest)
    (h' : Scans s v' rest') : v = v' ∧ rest = rest' := by
  obtain ⟨N, hN⟩ := fuel_of_scans h
  obtain ⟨N', hN'⟩ := fuel_of_scans h'
  have heq := (hN (max N N') (Nat.le_max_left _ _)).symm.trans (hN' _ (Nat.le_max_right _ _))
  exact Prod.mk.inj (Option.some.inj heq)

/-- An object that is cut off somewhere does not load. -/
theorem loads_cut {members : List (Str × Value)} {front back : List Char}
    (h : dumps (.dict members) = front ++ back) (hback : back ≠ []) : loads front = none := by
  obtain ⟨s, hs⟩ : ∃ s, dumps (.dict members) = '\x7b' :: s := by
    cases members <;> exact ⟨_, rfl⟩
  cases front with
  | nil => rfl
  | cons c front =>
    have hc : c = '\x7b' := (List.cons.inj (h.symm.trans hs)).1
    subst hc
    cases hload : loads ('\x7b' :: front) with
    | none => rfl
    | some v =>
      obtain ⟨rest, hscans, -⟩ := scans_of_loads hload
      rw [skipWhitespace_of_not (by decide)] at hscans
      have hcut := scans_object_append back hscans
      have hwhole := scanOnce_dumps (.dict members) [] (dumps (.dict members)).length (Nat.le_refl _)
        (by simp)
      rw [List.append_nil, h] at hwhole
      have hnil := (scans_unique hcut ((scans_of_scan _).1 _ _ _ hwhole)).2
      exact absurd (List.append_eq_nil_iff.mp hnil).2 hback

/-- An object with more than white space behind it does not load. -/
theorem loads_followed (members : List (Str × Value)) {back : List Char}
    (hback : skipWhitespace back ≠ []) : loads (dumps (.dict members) ++ back) = none := by
  have hwhole := scanOnce_dumps (.dict members) [] (dumps (.dict members)).length (Nat.le_refl _)
    (by simp)
  rw [List.append_nil] at hwhole
  have hscans := (scans_of_scan _).1 _ _ _ hwhole
  obtain ⟨s, hs⟩ : ∃ s, dumps (.dict members) = '\x7b' :: s := by
    cases members <;> exact ⟨_, rfl⟩
  rw [hs] at hscans ⊢
  cases hload : loads ('\x7b' :: s ++ back) with
  | none => rfl
  | some v =>
    obtain ⟨rest, hread, hrest⟩ := scans_of_loads hload
    rw [List.cons_append, skipWhitespace_of_not (by decide)] at hread
    have heq := (scans_unique (scans_object_append back hscans) hread).2
    rw [List.nil_append] at heq
    exact absurd (heq ▸ hrest) hback

end Genoh.Json
