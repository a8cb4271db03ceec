/-
What can be read back from the key of a chain?

* `exists_match_of_mem_findallFrom`, `isField_of_mem_extractMatchFields`: what the match fields of a
  request are free of;
* `matchKeyField_fieldText`, `findall_fieldsText`: the match fields are read back from their text;
* `sortFields_eq_iff`: lists of fields are sorted to the same list if they are equal up to order;
* `Encodable`: the match fields that a key can hold;
* `key_faithful`: the sender, the chain and the match fields are read back from a key, and the keys
  of two chains are equal exactly if these are.
-/
import Mathlib.Data.List.TakeWhile
import FtThesis.Library.Separated
import FtThesis.Tsa.Requests

namespace FtThesis.Tsa

/-! ### Matches -/

section

variable {β : Type} {matchAt : Str → Option (β × Str)} {n : ℕ} {t rest : Str} {b : β}

lemma findallFrom_of_some (h : matchAt t = some (b, rest)) :
    findallFrom matchAt (n + 1) t = b :: findallFrom matchAt n rest := by
  rw [findallFrom.eq_def]
  simp only [h]

lemma findallFrom_nil (h : matchAt [] = none) : findallFrom matchAt n [] = [] := by
  cases n with
  | zero => rfl
  | succ n =>
      rw [findallFrom.eq_def]
      simp only [h]

lemma findallFrom_cons_of_none {c : Char} (h : matchAt (c :: t) = none) :
    findallFrom matchAt (n + 1) (c :: t) = findallFrom matchAt n t := by
  rw [findallFrom.eq_def]
  simp only [h]

/-- What `findall` returns comes from a match somewhere in the text. -/
lemma exists_match_of_mem_findallFrom (h : b ∈ findallFrom matchAt n t) :
    ∃ t' rest, matchAt t' = some (b, rest) := by
  induction n generalizing t with
  | zero => cases h
  | succ n ih =>
      cases hmatch : matchAt t with
      | some found =>
          obtain ⟨b', rest⟩ := found
          rw [findallFrom_of_some hmatch] at h
          rcases List.mem_cons.mp h with rfl | h
          · exact ⟨t, rest, hmatch⟩
          · exact ih h
      | none =>
          cases t with
          | nil =>
              rw [findallFrom_nil hmatch] at h
              cases h
          | cons c t =>
              rw [findallFrom_cons_of_none hmatch] at h
              exact ih h

end

/-! ### The match fields of a request -/

/-- The name and the value of a match field: they are not empty, and are free of spaces and of what
ends them in a request. -/
structure IsField (field : Field) : Prop where
  name_ne_nil : field.1 ≠ []
  value_ne_nil : field.2 ≠ []
  name : ∀ c ∈ field.1, c ≠ '=' ∧ isSpace c = false
  value : ∀ c ∈ field.2, isSpace c = false ∧ c ≠ ','

lemma isField_of_matchField {t rest : Str} {field : Field}
    (h : matchField t = some (field, rest)) : IsField field := by
  simp only [matchField, List.span_eq_takeWhile_dropWhile] at h
  split_ifs at h with hname
  split at h
  · split_ifs at h with hvalue
    all_goals
      obtain rfl := (Prod.mk.inj (Option.some.inj h)).1
      exact
        { name_ne_nil := hname
          value_ne_nil := hvalue
          name := fun c hc => by simpa using List.mem_takeWhile_imp hc
          value := fun c hc => by simpa using List.mem_takeWhile_imp hc }
  · cases h

lemma isField_of_mem_extractMatchFields {t : Str} {field : Field}
    (h : field ∈ extractMatchFields t) : IsField field := by
  obtain ⟨t', rest, hmatch⟩ := exists_match_of_mem_findallFrom h
  exact isField_of_matchField hmatch

/-! ### The text of the match fields -/

/-- A key can hold the field: its name is free of what ends it there, and its value of what ends
this. -/
structure FitsKey (field : Field) : Prop extends IsField field where
  name_key : ∀ c ∈ field.1, c ≠ ':' ∧ c ≠ '*' ∧ c ≠ '$'
  value_key : ∀ c ∈ field.2, c ≠ '*' ∧ c ≠ '$'

/-- What follows a field in a key. -/
def tailText (matchFields : List Field) : Str :=
  matchFields.flatMap fun field => '*' :: fieldText field

lemma fieldsText_cons (field : Field) (matchFields : List Field) :
    fieldsText (field :: matchFields) = fieldText field ++ tailText matchFields := by
  induction matchFields generalizing field with
  | nil => simp [fieldsText, tailText]
  | cons field' matchFields ih =>
      have hcut : fieldsText (field :: field' :: matchFields)
          = fieldText field ++ '*' :: fieldsText (field' :: matchFields) := by
        simp [fieldsText, List.intercalate_cons_cons]
      rw [hcut, ih, tailText, tailText, List.flatMap_cons, List.cons_append]

section

variable {field : Field} {matchFields : List Field} {rest : Str}

/-- A field is read back from its text up to the next star, with or without a star in front of
it. -/
lemma matchKeyField_fieldText (h : FitsKey field) (hrest : ∀ c ∈ rest.head?, c = '*')
    {stars : Str} (hstars : ∀ c ∈ stars, c = '*') :
    matchKeyField (stars ++ (fieldText field ++ rest)) = some (field, rest) := by
  obtain ⟨c, name, hname⟩ := List.exists_cons_of_ne_nil h.name_ne_nil
  obtain ⟨c', value, hvalue⟩ := List.exists_cons_of_ne_nil h.value_ne_nil
  have hc := h.name_key c (by simp [hname])
  have hc' : isSpace c' = false := (h.value c' (by simp [hvalue])).1
  have htext : fieldText field ++ rest = field.1 ++ ':' :: (field.2 ++ rest) := by
    simp [fieldText]
  -- the stars end where the name begins
  have hfirst : (stars ++ (fieldText field ++ rest)).span (· = '*')
      = (stars, fieldText field ++ rest) := by
    refine List.span_append_of_head (by simpa using hstars) ?_
    simp [fieldText, hname, hc.2.1]
  have hsecond : (fieldText field ++ rest).span (fun c => c ≠ '=' ∧ ¬ isSpace c ∧ c ≠ ':')
      = (field.1, ':' :: (field.2 ++ rest)) := by
    rw [htext]
    refine List.span_append_of_head (fun c hc => ?_) (by simp)
    simp [h.name c hc, (h.name_key c hc).1]
  have hskip : (field.2 ++ rest).dropWhile isSpace = field.2 ++ rest := by
    simp [hvalue, hc']
  have hthird : (field.2 ++ rest).span (fun c => ¬ isSpace c ∧ c ≠ '*') = (field.2, rest) := by
    refine List.span_append_of_head (fun c hc => ?_) fun c hc => ?_
    · simp [(h.value c hc).1, (h.value_key c hc).1]
    · simp [hrest c hc]
  have hcolon : (':' :: (field.2 ++ rest)).dropWhile isSpace = ':' :: (field.2 ++ rest) := rfl
  simp only [matchKeyField, hfirst, hsecond, h.name_ne_nil, false_and, if_false, hcolon, hskip,
    hthird, h.value_ne_nil]

/-- The fields that follow another one are read back, one after the other. -/
lemma findallFrom_tailText (h : ∀ field ∈ matchFields, FitsKey field) {n : ℕ}
    (hn : (tailText matchFields).length < n) :
    findallFrom matchKeyField n (tailText matchFields) = matchFields := by
  induction matchFields generalizing n with
  | nil => exact findallFrom_nil rfl
  | cons field matchFields ih =>
      obtain ⟨hfield, hfields⟩ := List.forall_mem_cons.mp h
      obtain ⟨n, rfl⟩ := Nat.exists_eq_succ_of_ne_zero (Nat.ne_zero_of_lt hn)
      have hsplit : tailText (field :: matchFields)
          = ['*'] ++ (fieldText field ++ tailText matchFields) := by
        simp [tailText]
      have hhead : ∀ c ∈ (tailText matchFields).head?, c = '*' := by
        cases matchFields <;> simp [tailText, eq_comm]
      rw [hsplit] at hn ⊢
      rw [findallFrom_of_some (matchKeyField_fieldText hfield hhead (by simp)), ih hfields]
      simp only [List.length_append, List.length_singleton] at hn
      omega

/-- The match fields are read back from their text. -/
lemma findall_fieldsText (hne : matchFields ≠ []) (h : ∀ field ∈ matchFields, FitsKey field) :
    findall matchKeyField (fieldsText matchFields) = matchFields := by
  obtain ⟨field, matchFields, rfl⟩ := List.exists_cons_of_ne_nil hne
  obtain ⟨hfield, hfields⟩ := List.forall_mem_cons.mp h
  have hhead : ∀ c ∈ (tailText matchFields).head?, c = '*' := by
    cases matchFields <;> simp [tailText, eq_comm]
  have hmatch : matchKeyField ([] ++ (fieldText field ++ tailText matchFields)) = _ :=
    matchKeyField_fieldText hfield hhead nofun
  rw [List.nil_append, ← fieldsText_cons] at hmatch
  rw [findall, findallFrom_of_some hmatch, findallFrom_tailText hfields]
  have hlong : 0 < (fieldText field).length := by simp [fieldText]
  rw [fieldsText_cons, List.length_append]
  omega

end

/-! ### The order of the match fields -/

lemma fieldLe_iff (a b : Field) : FieldLe a b ↔ toLex a ≤ toLex b :=
  (Prod.Lex.toLex_le_toLex).symm

instance : Std.Total FieldLe := ⟨fun a b => by
  rw [fieldLe_iff, fieldLe_iff]
  exact le_total _ _⟩

instance : IsTrans Field FieldLe := ⟨fun a b c hab hbc => by
  rw [fieldLe_iff] at hab hbc ⊢
  exact hab.trans hbc⟩

instance : Std.Antisymm FieldLe := ⟨fun a b hab hba => by
  rw [fieldLe_iff] at hab hba
  exact toLex.injective (le_antisymm hab hba)⟩

lemma mem_sortFields {matchFields : List Field} {field : Field} :
    field ∈ sortFields matchFields ↔ field ∈ matchFields :=
  List.mem_insertionSort FieldLe

lemma sortFields_ne_nil {matchFields : List Field} (h : matchFields ≠ []) :
    sortFields matchFields ≠ [] := by
  obtain ⟨field, hfield⟩ := List.exists_mem_of_ne_nil _ h
  exact List.ne_nil_of_mem (mem_sortFields.mpr hfield)

/-- Sorting forgets the order, and nothing else. -/
lemma sortFields_eq_iff {matchFields matchFields' : List Field} :
    sortFields matchFields = sortFields matchFields' ↔ matchFields.Perm matchFields' := by
  have hperm := List.perm_insertionSort FieldLe matchFields
  have hperm' := List.perm_insertionSort FieldLe matchFields'
  constructor
  · intro h
    rw [sortFields, sortFields] at h
    exact hperm.symm.trans (h ▸ hperm')
  · intro h
    exact ((hperm.trans h).trans hperm'.symm).eq_of_pairwise'
      (List.pairwise_insertionSort FieldLe _) (List.pairwise_insertionSort FieldLe _)

/-! ### Keys -/

/-- A name: one or more word characters. -/
def IsName (t : Str) : Prop := t ≠ [] ∧ ∀ c ∈ t, isWord c = true

lemma IsName.not_mem_dollar {t : Str} (h : IsName t) : '$' ∉ t :=
  fun hmem => absurd (h.2 _ hmem) (by decide)

lemma not_mem_commas {c : Char} (hc : c ≠ ',') {ts : List Str} (h : ∀ t ∈ ts, c ∉ t) :
    c ∉ commas ts := by
  induction ts with
  | nil => exact List.not_mem_nil
  | cons t ts ih =>
      obtain ⟨ht, hts⟩ := List.forall_mem_cons.mp h
      cases ts with
      | nil => simpa [commas] using ht
      | cons t' ts =>
          have hrest := ih hts
          rw [commas] at hrest ⊢
          simp [List.intercalate_cons_cons, ht, hc, hrest]

/-- The match fields of a request that a key can hold. -/
structure Encodable (matchFields : List Field) : Prop where
  extracted : ∃ t, extractMatchFields t = matchFields
  ne_nil : matchFields ≠ []
  name : ∀ field ∈ matchFields, ∀ c ∈ field.1, c ≠ ':' ∧ c ≠ '*' ∧ c ≠ '$' ∧ c ≠ ','
  value : ∀ field ∈ matchFields, ∀ c ∈ field.2, c ≠ '*' ∧ c ≠ '$'

lemma encodable_of_all {t : Str} (hne : extractMatchFields t ≠ [])
    (hname : (extractMatchFields t).all fun field =>
      field.1.all fun c => c ≠ ':' ∧ c ≠ '*' ∧ c ≠ '$' ∧ c ≠ ',')
    (hvalue : (extractMatchFields t).all fun field => field.2.all fun c => c ≠ '*' ∧ c ≠ '$') :
    Encodable (extractMatchFields t) :=
  ⟨⟨t, rfl⟩, hne, by simpa using hname, by simpa using hvalue⟩

lemma Encodable.fitsKey {matchFields : List Field} (h : Encodable matchFields) :
    ∀ field ∈ sortFields matchFields, FitsKey field := by
  intro field hfield
  rw [mem_sortFields] at hfield
  obtain ⟨t, ht⟩ := h.extracted
  have hfield' := isField_of_mem_extractMatchFields (ht ▸ hfield)
  refine ⟨hfield', fun c hc => ?_, fun c hc => h.value field hfield c hc⟩
  obtain ⟨hcolon, hstar, hdollar, -⟩ := h.name field hfield c hc
  exact ⟨hcolon, hstar, hdollar⟩

lemma not_mem_fieldText {field : Field} (h : FitsKey field) : '$' ∉ fieldText field := by
  have hname : '$' ∉ field.1 := fun hmem => (h.name_key _ hmem).2.2 rfl
  have hvalue : '$' ∉ field.2 := fun hmem => (h.value_key _ hmem).2 rfl
  simp [fieldText, hname, hvalue]

lemma not_mem_fieldsText {matchFields : List Field} (hne : matchFields ≠ [])
    (h : ∀ field ∈ matchFields, FitsKey field) : '$' ∉ fieldsText matchFields := by
  obtain ⟨field, matchFields, rfl⟩ := List.exists_cons_of_ne_nil hne
  obtain ⟨hfield, hfields⟩ := List.forall_mem_cons.mp h
  rw [fieldsText_cons, List.mem_append, not_or]
  refine ⟨not_mem_fieldText hfield, fun hmem => ?_⟩
  obtain ⟨field', hfield', hmem⟩ := List.mem_flatMap.mp hmem
  rcases List.mem_cons.mp hmem with hstar | hmem
  · exact absurd hstar (by decide)
  · exact not_mem_fieldText (hfields field' hfield') hmem

/-- The sender, the chain and the match fields are read back from a key. -/
structure Decodes (key senderHost policyChain : Str) (matchFields : List Field) : Prop where
  parts : ∃ rest, key.splitOn '$' = [senderHost, policyChain, rest]
  fields : getMatchFieldsFromKey key = some (sortFields matchFields)

/-- A key is taken apart at its two signs. -/
lemma decodes_of_generate {senderHost policyChain : Str} {matchFields : List Field}
    (hhost : '$' ∉ senderHost) (hchain : '$' ∉ policyChain) (h : Encodable matchFields) :
    ∃ key, generatePolicyChainKey senderHost policyChain matchFields = some key ∧
      Decodes key senderHost policyChain matchFields := by
  have hne := sortFields_ne_nil h.ne_nil
  have hsplit : (senderHost ++ '$' :: (policyChain ++ '$' ::
      fieldsText (sortFields matchFields))).splitOn '$' =
      [senderHost, policyChain, fieldsText (sortFields matchFields)] := by
    rw [List.splitOn_append_cons_self_of_not_mem hhost,
      List.splitOn_append_cons_self_of_not_mem hchain,
      List.splitOn_eq_singleton (not_mem_fieldsText hne h.fitsKey)]
  refine ⟨_, if_neg h.ne_nil, ⟨_, hsplit⟩, ?_⟩
  rw [getMatchFieldsFromKey, hsplit]
  exact congrArg some (findall_fieldsText hne h.fitsKey)

/-- **Keys.**  From the key of a sender and a chain of word names with match fields that it can
hold, the sender, the chain and the sorted match fields are read back; and two keys are equal
exactly if the senders and the chains are, and the match fields are equal up to order. -/
theorem key_faithful {senderHost senderHost' : Str} {mbs mbs' : List Str}
    {matchFields matchFields' : List Field} (hhost : IsName senderHost)
    (hhost' : IsName senderHost') (hmbs : ∀ mb ∈ mbs, IsName mb) (hmbs' : ∀ mb ∈ mbs', IsName mb)
    (h : Encodable matchFields) (h' : Encodable matchFields') :
    (∃ key, generatePolicyChainKey senderHost (commas mbs) matchFields = some key ∧
      Decodes key senderHost (commas mbs) matchFields) ∧
    (generatePolicyChainKey senderHost (commas mbs) matchFields =
        generatePolicyChainKey senderHost' (commas mbs') matchFields' ↔
      senderHost = senderHost' ∧ commas mbs = commas mbs' ∧ matchFields.Perm matchFields') := by
  have hchain : ∀ {mbs : List Str}, (∀ mb ∈ mbs, IsName mb) → '$' ∉ commas mbs :=
    fun hmbs => not_mem_commas (by decide) fun mb hmb => (hmbs mb hmb).not_mem_dollar
  obtain ⟨key, hkey, hdecodes⟩ := decodes_of_generate hhost.not_mem_dollar (hchain hmbs) h
  obtain ⟨key', hkey', hdecodes'⟩ := decodes_of_generate hhost'.not_mem_dollar (hchain hmbs') h'
  refine ⟨⟨key, hkey, hdecodes⟩, fun heq => ?_, ?_⟩
  · rw [hkey, hkey'] at heq
    obtain rfl := Option.some.inj heq
    obtain ⟨⟨rest, hparts⟩, hfields⟩ := hdecodes
    obtain ⟨⟨rest', hparts'⟩, hfields'⟩ := hdecodes'
    obtain ⟨rfl, hrest⟩ := List.cons.inj (hparts.symm.trans hparts')
    exact ⟨rfl, (List.cons.inj hrest).1,
      sortFields_eq_iff.mp (Option.some.inj (hfields.symm.trans hfields'))⟩
  · rintro ⟨rfl, heq, hperm⟩
    rw [generatePolicyChainKey, generatePolicyChainKey, if_neg h.ne_nil, if_neg h'.ne_nil, heq,
      sortFields_eq_iff.mpr hperm]

/-- The match fields of a request, one of them with colons in its value. -/
def twoFields : List Field := extractMatchFields "dl_src=00:00:00:00:00:01, tp_dst=80".toList

/-- The same fields in the other order. -/
def twoFields' : List Field := extractMatchFields "tp_dst=80,dl_src=00:00:00:00:00:01".toList

theorem key_faithful_twoFields :
    (∃ key, generatePolicyChainKey "h1".toList (commas ["m1".toList, "m2".toList]) twoFields =
        some key ∧ Decodes key "h1".toList (commas ["m1".toList, "m2".toList]) twoFields) ∧
      generatePolicyChainKey "h1".toList (commas ["m1".toList, "m2".toList]) twoFields =
        generatePolicyChainKey "h1".toList (commas ["m1".toList, "m2".toList]) twoFields' := by
  have hhost : IsName "h1".toList := ⟨by decide, List.all_eq_true.mp rfl⟩
  have hmbs : ∀ mb ∈ ["m1".toList, "m2".toList], IsName mb := by
    simp only [List.forall_mem_cons]
    exact ⟨⟨by decide, List.all_eq_true.mp rfl⟩, ⟨by decide, List.all_eq_true.mp rfl⟩, nofun⟩
  have hfirst : Encodable twoFields := encodable_of_all (by decide) rfl rfl
  have hsecond : Encodable twoFields' := encodable_of_all (by decide) rfl rfl
  obtain ⟨hkey, hiff⟩ := key_faithful hhost hhost hmbs hmbs hfirst hsecond
  have hperm : twoFields.Perm twoFields' := by decide
  exact ⟨hkey, hiff.mpr ⟨rfl, rfl, hperm⟩⟩

end FtThesis.Tsa
