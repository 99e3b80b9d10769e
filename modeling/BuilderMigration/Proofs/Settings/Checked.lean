import BuilderMigration.Proofs.Token.Ends
import BuilderMigration.Settings.Check
import Mathlib.Data.List.Forall2

/-! Settings that were checked. Their names are cleaned and their tables have each key once, so a second
check finds nothing to clean, to merge or to refuse: written back as raw settings they check to
themselves. -/

namespace BuilderMigration

/-! ### Letters and blanks -/

namespace Text

/-- The blanks beyond ASCII, as ranges of code points. -/
def blankRanges : List (Nat × Nat) :=
  [(0x85, 0x85), (0xA0, 0xA0), (0x1680, 0x1680), (0x2000, 0x200A), (0x2028, 0x2029),
   (0x202F, 0x202F), (0x205F, 0x205F), (0x3000, 0x3000)]

/-- A letter or number is no blank. -/
theorem not_isBlank_of_isAlphanumeric {c : Char} (hc : 128 ≤ c.toNat) (h : isAlphanumeric c = true) :
    isBlank c = false := by
  have hapart : alphanumericRanges.all (fun r => blankRanges.all fun b =>
      decide (r.2 < b.1 ∨ b.2 < r.1)) = true := by decide +kernel
  rw [isAlphanumeric, if_neg (by omega), inRanges, List.any_eq_true] at h
  obtain ⟨r, hr, hin⟩ := h
  have hr := List.all_eq_true.1 hapart r hr
  simp only [blankRanges, List.all_cons, List.all_nil, Bool.and_true, Bool.and_eq_true,
    decide_eq_true_eq] at hr hin
  simp only [isBlank, Bool.or_eq_false_iff, Bool.and_eq_false_iff, decide_eq_false_iff_not,
    beq_eq_false_iff_ne]
  omega

end Text

namespace Settings

open Lexeme (isNameChar)

/-! ### Checks one after another -/

theorem bind_eq_ok_iff {α β ε : Type} {x : Except ε α} {f : α → Except ε β} {b : β} :
    x >>= f = .ok b ↔ ∃ a, x = .ok a ∧ f a = .ok b := by
  cases x with
  | error e => exact ⟨nofun, fun ⟨_, h, _⟩ => nomatch h⟩
  | ok a =>
    refine ⟨fun h => ⟨a, rfl, h⟩, fun ⟨a', ha, h⟩ => ?_⟩
    obtain rfl := Except.ok.inj ha
    exact h

theorem pure_eq_ok_iff {α ε : Type} {a b : α} : (pure a : Except ε α) = .ok b ↔ a = b :=
  ⟨Except.ok.inj, congrArg Except.ok⟩

/-- Checks of a list pass if each of them does. -/
theorem mapM_eq_ok_iff {α β ε : Type} {f : α → Except ε β} {as : List α} {bs : List β} :
    as.mapM f = .ok bs ↔ List.Forall₂ (fun a b => f a = .ok b) as bs := by
  induction as generalizing bs with
  | nil => rw [List.mapM_nil, pure_eq_ok_iff, List.forall₂_nil_left_iff, eq_comm]
  | cons a as ih =>
    simp only [List.mapM_cons, bind_eq_ok_iff, pure_eq_ok_iff, List.forall₂_cons_left_iff, ih]
    constructor
    · rintro ⟨b, hb, bs, hbs, rfl⟩
      exact ⟨b, bs, hb, hbs, rfl⟩
    · rintro ⟨b, bs, hb, hbs, rfl⟩
      exact ⟨b, hb, bs, hbs, rfl⟩

theorem forall_of_mapM {α β ε : Type} {f : α → Except ε β} {P : β → Prop} {as : List α} {bs : List β}
    (h : as.mapM f = .ok bs) (hf : ∀ a b, f a = .ok b → P b) : ∀ b ∈ bs, P b := by
  have hall := mapM_eq_ok_iff.1 h
  clear h
  induction hall with
  | nil => nofun
  | cons hb _ ih => exact List.forall_mem_cons.2 ⟨hf _ _ hb, ih⟩

variable {s what text key k : String} {c : Char}

/-! ### Names -/

/-- A name as checked settings hold it. -/
structure IsName (s : String) : Prop where
  ne_empty : s ≠ ""
  chars : ∀ c ∈ s.toList, c = '_' ∨ Text.isAlphanumeric c = true
  head : ∀ c ∈ s.toList.head?, Text.isDigit c = false
  not_blank : ∀ c ∈ s.toList, Text.isBlank c = false
  not_dot : '.' ∉ s.toList

/-- A character that a name may hold: one of a name in the source language, or one beyond ASCII. -/
theorem isNameChar_or_beyond (h : c = '_' ∨ Text.isAlphanumeric c = true) :
    isNameChar c = true ∨ 128 ≤ c.toNat ∧ Text.isBlank c = false := by
  by_cases hc : c.toNat < 128
  · left
    simpa [isNameChar, Text.isAlphanumeric, hc, or_comm] using h
  · right
    have hne : c ≠ '_' := by
      rintro rfl
      exact hc (by decide)
    exact ⟨by omega, Text.not_isBlank_of_isAlphanumeric (by omega) (h.resolve_left hne)⟩

theorem not_isBlank_of_nameChar (h : c = '_' ∨ Text.isAlphanumeric c = true) : Text.isBlank c = false :=
  (isNameChar_or_beyond h).elim Lexeme.not_isBlank_of_isNameChar (·.2)

/-- A name is made of a text by taking away the blanks around it. -/
theorem name_eq_ok_iff : name what text = .ok s ↔ s = Text.trim text ∧ IsName s := by
  have hchars : ∀ d : Char, (d = '_' || Text.isAlphanumeric d) = true ↔
      d = '_' ∨ Text.isAlphanumeric d = true := by simp
  simp only [name]
  constructor
  · intro h
    split at h
    · cases h
    · next c cs hs =>
      split at h
      · next hall =>
        obtain rfl := Except.ok.inj h
        simp only [Bool.and_eq_true, List.all_eq_true, Bool.not_eq_true', hchars, ← hs] at hall
        obtain ⟨hall, hdigit⟩ := hall
        refine ⟨rfl, fun he => ?_, hall, fun d hd => ?_, fun d hd => ?_, fun hd => ?_⟩
        · rw [String.toList_eq_nil_iff.2 he] at hs
          cases hs
        · rw [hs] at hd
          exact Option.some.inj hd ▸ hdigit
        · exact not_isBlank_of_nameChar (hall d hd)
        · exact absurd (hall _ hd) (by decide)
      · cases h
  · rintro ⟨rfl, h⟩
    split
    · next hs => exact absurd (String.toList_eq_nil_iff.1 hs) h.ne_empty
    · next c cs hs =>
      have hhead : Text.isDigit c = false := h.head c (by rw [hs]; rfl)
      have hall := h.chars
      rw [hs] at hall
      refine if_pos ?_
      simpa only [Bool.and_eq_true, List.all_eq_true, Bool.not_eq_true', hchars] using ⟨hall, hhead⟩

theorem IsName.trim (h : IsName s) : Text.trim s = s := by
  have hhead : ∀ c ∈ s.toList.head?, Text.isBlank c = false :=
    fun c hc => h.not_blank c (List.mem_of_head? hc)
  have hlast : ∀ c ∈ s.toList.getLast?, Text.isBlank c = false :=
    fun c hc => h.not_blank c (List.mem_of_getLast? hc)
  simpa only [String.ofList_toList] using Text.trim_ofList hhead hlast

theorem IsName.name_eq (h : IsName s) (what : String) : name what s = .ok s :=
  name_eq_ok_iff.2 ⟨h.trim.symm, h⟩

theorem mapM_name_eq_ok_iff {texts names : List String} :
    texts.mapM (name what) = .ok names ↔ names = texts.map Text.trim ∧ ∀ s ∈ names, IsName s := by
  simp only [mapM_eq_ok_iff, name_eq_ok_iff]
  constructor
  · intro h
    induction h with
    | nil => exact ⟨rfl, nofun⟩
    | cons hs _ ih => exact ⟨by rw [hs.1, ih.1]; rfl, List.forall_mem_cons.2 ⟨hs.2, ih.2⟩⟩
  · rintro ⟨rfl, h⟩
    rw [List.forall₂_map_right_iff, List.forall₂_same]
    exact fun text htext => ⟨rfl, h _ (List.mem_map_of_mem htext)⟩

theorem mapM_name_eq {names : List String} (h : ∀ s ∈ names, IsName s) :
    names.mapM (name what) = .ok names :=
  mapM_eq_ok_iff.2 (List.forall₂_same.2 fun s hs => (h s hs).name_eq what)

/-! ### Keys of signatures -/

/-- The parts of a key between dots. -/
def segments (key : String) : List String := (dotted key.toList).map String.ofList

/-- A key as checked settings hold it: a method, or a receiver and a method. -/
structure IsSignatureKey (key : String) : Prop where
  length : (segments key).length = 1 ∨ (segments key).length = 2
  names : ∀ s ∈ segments key, IsName s

theorem dotted_eq_splitOn (cs : List Char) : dotted cs = cs.splitOn '.' := by
  induction cs with
  | nil => rfl
  | cons c cs ih =>
    rw [dotted, ih, List.splitOn_cons_eq_if_modifyHead]
    by_cases hc : c = '.'
    · rw [if_pos hc, if_pos (beq_iff_eq.2 hc)]
    · rw [if_neg hc, if_neg (fun h => hc (beq_iff_eq.1 h))]
      cases h : cs.splitOn '.' with
      | nil => exact absurd h (List.splitOn_ne_nil _ _)
      | cons part parts => rfl

theorem segments_ne_nil (key : String) : segments key ≠ [] := by
  rw [segments, dotted_eq_splitOn, ne_eq, List.map_eq_nil_iff]
  exact List.splitOn_ne_nil _ _

theorem segments_intercalate {names : List String} (hne : names ≠ [])
    (h : ∀ s ∈ names, '.' ∉ s.toList) : segments (String.intercalate "." names) = names := by
  have hdot : ".".toList = ['.'] := rfl
  rw [segments, dotted_eq_splitOn, String.toList_intercalate, hdot,
    List.splitOn_intercalate '.' (List.forall_mem_map.2 h) (by simpa using hne), List.map_map]
  simp [Function.comp_def]

theorem intercalate_segments (key : String) : String.intercalate "." (segments key) = key := by
  have hdot : ".".toList = ['.'] := rfl
  rw [← String.toList_inj, String.toList_intercalate, hdot, segments, List.map_map, dotted_eq_splitOn]
  simp [Function.comp_def, List.intercalate_splitOn]

theorem signatureKey_eq_ok_iff : signatureKey key = .ok k ↔
    (segments key).length ≤ 2 ∧
      ∃ names, (segments key).mapM (name "Closure signature key") = .ok names ∧
        String.intercalate "." names = k := by
  simp only [signatureKey, ← segments.eq_1]
  split
  · next hlength => exact ⟨nofun, fun h => absurd h.1 (Nat.not_le.2 hlength)⟩
  · next hlength => simp only [bind_eq_ok_iff, pure_eq_ok_iff, Nat.not_lt.1 hlength, true_and]

/-- A key is cleaned part by part. -/
theorem segments_of_signatureKey (h : signatureKey key = .ok k) :
    segments k = (segments key).map Text.trim ∧ IsSignatureKey k := by
  obtain ⟨hlength, names, hnames, rfl⟩ := signatureKey_eq_ok_iff.1 h
  obtain ⟨rfl, hall⟩ := mapM_name_eq_ok_iff.1 hnames
  have hpos := List.length_pos_iff.2 (segments_ne_nil key)
  have hsegments := segments_intercalate (by simpa using segments_ne_nil key)
    fun s hs => (hall s hs).not_dot
  refine ⟨hsegments, ?_, ?_⟩
  · rw [hsegments, List.length_map]
    omega
  · rwa [hsegments]

theorem IsSignatureKey.signatureKey_eq (h : IsSignatureKey key) : signatureKey key = .ok key := by
  refine signatureKey_eq_ok_iff.2 ⟨?_, segments key, mapM_name_eq h.names, intercalate_segments key⟩
  have := h.length
  omega

/-! ### Tables -/

section Tables

variable {α ε : Type} {entry : ε → Except Fault (String × α)} {entries : List ε}
  {table : List (String × α)} {P : String × α → Prop}

/-- The table of entries that are checked one after another. -/
def tableOf (entry : ε → Except Fault (String × α)) (entries : List ε) :
    Except Fault (List (String × α)) :=
  entries.foldlM (fun done e => do
    let (k, v) ← entry e
    return Assoc.put k v done) []

theorem tableOf_eq_ok_iff : tableOf entry entries = .ok table ↔
    ∃ checked, entries.mapM entry = .ok checked ∧ Assoc.ofEntries checked = table := by
  have hfold (done : List (String × α)) :
      entries.foldlM (fun done e => do
          let (k, v) ← entry e
          return Assoc.put k v done) done = .ok table ↔
        ∃ checked, entries.mapM entry = .ok checked ∧
          checked.foldl (fun l e => Assoc.put e.1 e.2 l) done = table := by
    induction entries generalizing done with
    | nil => simp only [List.foldlM_nil, List.mapM_nil, pure_eq_ok_iff, exists_eq_left', List.foldl_nil]
    | cons e entries ih =>
      simp only [List.foldlM_cons, List.mapM_cons, bind_eq_ok_iff, pure_eq_ok_iff, ih]
      constructor
      · rintro ⟨_, ⟨kv, hkv, rfl⟩, checked, hchecked, rfl⟩
        exact ⟨kv :: checked, ⟨kv, hkv, checked, hchecked, rfl⟩, rfl⟩
      · rintro ⟨_, ⟨kv, hkv, checked, hchecked, rfl⟩, rfl⟩
        exact ⟨_, ⟨kv, hkv, rfl⟩, checked, hchecked, rfl⟩
  exact hfold []

/-- Each key of a checked table is there once, and each entry has passed its check. -/
theorem tableOf_checked (h : tableOf entry entries = .ok table)
    (hentry : ∀ e kv, entry e = .ok kv → P kv) : (table.map (·.1)).Nodup ∧ ∀ e ∈ table, P e := by
  obtain ⟨checked, hchecked, rfl⟩ := tableOf_eq_ok_iff.1 h
  refine ⟨Assoc.nodup_ofEntries checked, fun kv hkv => ?_⟩
  exact forall_of_mapM hchecked hentry kv (Assoc.mem_of_mem_ofEntries hkv)

/-- A table whose entries check to themselves does so too. -/
theorem tableOf_eq {entry : String × α → Except Fault (String × α)} (hn : (table.map (·.1)).Nodup)
    (h : ∀ e ∈ table, entry e = .ok e) : tableOf entry table = .ok table :=
  tableOf_eq_ok_iff.2
    ⟨table, mapM_eq_ok_iff.2 (List.forall₂_same.2 h), Assoc.ofEntries_eq_self hn⟩

end Tables

/-- An entry of the required fields with its names cleaned. -/
def requiredEntry (e : String × List String) : Except Fault (String × List String) := do
  let builder ← name "Builder name" e.1
  let fields ← e.2.mapM (name "Field name")
  return (builder, fields)

/-- An entry of the signatures with its key and its builder cleaned. -/
def signatureEntry (e : String × String) : Except Fault (String × String) := do
  let key ← signatureKey e.1
  let builder ← name "Builder name" e.2
  return (key, builder)

theorem requiredTable_eq (entries : List (String × List String)) :
    requiredTable entries = tableOf requiredEntry entries := by
  simp only [requiredTable, tableOf, requiredEntry, bind_assoc, pure_bind]

theorem signatureTable_eq (entries : List (String × String)) :
    signatureTable entries = tableOf signatureEntry entries := by
  simp only [signatureTable, tableOf, signatureEntry, bind_assoc, pure_bind]

/-- A builder and its required fields as checked settings hold them. -/
def IsRequired (e : String × List String) : Prop := IsName e.1 ∧ ∀ field ∈ e.2, IsName field

/-- A signature as checked settings hold it. -/
def IsSignature (e : String × String) : Prop := IsSignatureKey e.1 ∧ IsName e.2

theorem isRequired_of_requiredEntry {e e' : String × List String} (h : requiredEntry e = .ok e') :
    IsRequired e' := by
  simp only [requiredEntry, bind_eq_ok_iff, pure_eq_ok_iff] at h
  obtain ⟨builder, hbuilder, fields, hfields, rfl⟩ := h
  exact ⟨(name_eq_ok_iff.1 hbuilder).2, (mapM_name_eq_ok_iff.1 hfields).2⟩

theorem IsRequired.requiredEntry_eq {e : String × List String} (h : IsRequired e) :
    requiredEntry e = .ok e := by
  simp only [requiredEntry, bind_eq_ok_iff, pure_eq_ok_iff]
  exact ⟨e.1, h.1.name_eq _, e.2, mapM_name_eq h.2, rfl⟩

theorem isSignature_of_signatureEntry {e e' : String × String} (h : signatureEntry e = .ok e') :
    IsSignature e' := by
  simp only [signatureEntry, bind_eq_ok_iff, pure_eq_ok_iff] at h
  obtain ⟨key, hkey, builder, hbuilder, rfl⟩ := h
  exact ⟨(segments_of_signatureKey hkey).2, (name_eq_ok_iff.1 hbuilder).2⟩

theorem IsSignature.signatureEntry_eq {e : String × String} (h : IsSignature e) :
    signatureEntry e = .ok e := by
  simp only [signatureEntry, bind_eq_ok_iff, pure_eq_ok_iff]
  exact ⟨e.1, h.1.signatureKey_eq, e.2, h.2.name_eq _, rfl⟩

/-! ### Raw settings -/

/-- Settings written as raw ones, all fields of them. -/
def toRaw (settings : Settings) : List (String × RawValue) :=
  [("builder_crate", .string settings.builderCrate),
   ("builder_module", .string settings.builderModule),
   ("strict_receiver_types", .bool settings.strictReceivers),
   ("multiline", .bool settings.multiline),
   ("placeholder", .string settings.placeholder),
   ("required_fields", .table (settings.requiredFields.map fun e => (e.1, .list (e.2.map .string)))),
   ("closure_signatures", .table (settings.closureSignatures.map fun e => (e.1, .string e.2))),
   ("exclude", .list (settings.exclude.map .string))]

/-- Settings whose names are names, in tables that have each key once. -/
structure Clean (settings : Settings) : Prop where
  crate : IsName settings.builderCrate
  scope : IsName settings.builderModule
  required : ∀ e ∈ settings.requiredFields, IsRequired e
  signatures : ∀ e ∈ settings.closureSignatures, IsSignature e
  requiredKeys : (settings.requiredFields.map (·.1)).Nodup
  signatureKeys : (settings.closureSignatures.map (·.1)).Nodup

section Raw

variable {α β : Type} {path : List Step}

theorem both_eq_ok_iff {a : Checked α} {b : Checked β} {x : α × β} :
    both a b = .ok x ↔ a = .ok x.1 ∧ b = .ok x.2 := by
  unfold both
  split
  · simp only [Except.ok.injEq, Prod.ext_iff]
  all_goals simp

theorem map_eq_ok_iff {ε : Type} {f : α → β} {x : Except ε α} {b : β} :
    x.map f = .ok b ↔ ∃ a, x = .ok a ∧ f a = b := by
  cases x with
  | error e => exact ⟨nofun, fun ⟨_, h, _⟩ => nomatch h⟩
  | ok a =>
    refine ⟨fun h => ⟨a, rfl, Except.ok.inj h⟩, fun ⟨a', ha, h⟩ => ?_⟩
    obtain rfl := Except.ok.inj ha
    exact congrArg Except.ok h

/-- Items that a check accepts as they were written. -/
theorem list_eq_ok {item : List Step → RawValue → Checked α} {write : α → RawValue}
    (h : ∀ path a, item path (write a) = .ok a) (as : List α) (path : List Step) :
    list item path (.list (as.map write)) = .ok as := by
  have hfrom (i : Nat) : itemsFrom item path i (as.map write) = .ok as := by
    induction as generalizing i with
    | nil => rfl
    | cons a as ih => rw [List.map_cons, itemsFrom, h, ih (i + 1)]; rfl
  exact hfrom 0

theorem table_eq_ok {value : List Step → RawValue → Checked α} {write : α → RawValue}
    (h : ∀ path a, value path (write a) = .ok a) (entries : List (String × α)) (path : List Step) :
    table value path (.table (entries.map fun e => (e.1, write e.2))) = .ok entries := by
  have hfields : fields value path (entries.map fun e => (e.1, write e.2)) = .ok entries := by
    induction entries with
    | nil => rfl
    | cons e entries ih => rw [List.map_cons, fields, h, ih]; rfl
  exact hfields

variable {raw : List (String × RawValue)} {settings : Settings} {fallback b : β}
  {check : List Step → RawValue → Checked α} {rule : α → Except Fault β}

/-- A field is its default, or what its rule makes of what was checked. -/
theorem field_eq_ok_iff : field raw key fallback check rule = .ok b ↔
    Assoc.get? key raw = none ∧ fallback = b ∨
      ∃ v a, Assoc.get? key raw = some v ∧ check [.key key] v = .ok a ∧ rule a = .ok b := by
  unfold field
  split
  · next hnone => simp [hnone]
  · next v hv =>
    simp only [hv, bind_eq_ok_iff, reduceCtorEq, false_and, false_or, Option.some.injEq]
    constructor
    · rintro ⟨a, ha, h⟩
      split at h
      · next b' hb =>
        obtain rfl := Except.ok.inj h
        exact ⟨v, a, rfl, ha, hb⟩
      · cases h
    · rintro ⟨_, a, rfl, ha, hb⟩
      exact ⟨a, ha, by rw [hb]⟩

/-- A field keeps what holds of its default and of all that its rule makes. -/
theorem field_holds {P : β → Prop} (h : field raw key fallback check rule = .ok b) (hf : P fallback)
    (hrule : ∀ a b, rule a = .ok b → P b) : P b := by
  rcases field_eq_ok_iff.1 h with ⟨-, rfl⟩ | ⟨_, a, -, -, hb⟩
  · exact hf
  · exact hrule a b hb

/-- The fields of checked settings, one by one. -/
theorem check_eq_ok_iff : Settings.check raw = .ok settings ↔
    field raw "builder_crate" "serenity" string (name "Builder namespace segment") =
        .ok settings.builderCrate ∧
      field raw "builder_module" "builder" string (name "Builder namespace segment") =
        .ok settings.builderModule ∧
      field raw "strict_receiver_types" true bool any = .ok settings.strictReceivers ∧
      field raw "multiline" false bool any = .ok settings.multiline ∧
      field raw "placeholder" "todo!()" string any = .ok settings.placeholder ∧
      field raw "required_fields" [] (table (list string)) requiredTable =
        .ok settings.requiredFields ∧
      field raw "closure_signatures" [] (table string) signatureTable =
        .ok settings.closureSignatures ∧
      field raw "exclude" [] (list string) any = .ok settings.exclude := by
  simp only [Settings.check, map_eq_ok_iff, both_eq_ok_iff]
  constructor
  · rintro ⟨_, h, rfl⟩
    exact h
  · intro h
    exact ⟨⟨_, _, _, _, _, _, _, _⟩, h, rfl⟩

end Raw

section Check

variable {raw : List (String × RawValue)} {settings : Settings}

theorem clean_of_check (h : check raw = .ok settings) : settings.Clean := by
  obtain ⟨hcrate, hscope, -, -, -, hrequired, hsignatures, -⟩ := check_eq_ok_iff.1 h
  have hname {what text s : String} (h : name what text = .ok s) : IsName s := (name_eq_ok_iff.1 h).2
  have hserenity : name "" "serenity" = .ok "serenity" := by decide +kernel
  have hbuilder : name "" "builder" = .ok "builder" := by decide +kernel
  obtain ⟨hrequiredKeys, hrequired⟩ :=
    field_holds (P := fun t => (t.map (·.1)).Nodup ∧ ∀ e ∈ t, IsRequired e) hrequired
      ⟨List.nodup_nil, nofun⟩ fun entries _ h =>
        tableOf_checked (requiredTable_eq entries ▸ h) fun _ _ => isRequired_of_requiredEntry
  obtain ⟨hsignatureKeys, hsignatures⟩ :=
    field_holds (P := fun t => (t.map (·.1)).Nodup ∧ ∀ e ∈ t, IsSignature e) hsignatures
      ⟨List.nodup_nil, nofun⟩ fun entries _ h =>
        tableOf_checked (signatureTable_eq entries ▸ h) fun _ _ => isSignature_of_signatureEntry
  exact ⟨field_holds hcrate (hname hserenity) fun _ _ => hname,
    field_holds hscope (hname hbuilder) fun _ _ => hname,
    hrequired, hsignatures, hrequiredKeys, hsignatureKeys⟩

theorem Clean.check_toRaw (h : settings.Clean) : check settings.toRaw = .ok settings := by
  have hfield {α β : Type} {key : String} {fallback b : β} {a : α}
      {check : List Step → RawValue → Checked α} {rule : α → Except Fault β} (v : RawValue)
      (hget : Assoc.get? key settings.toRaw = some v) (hcheck : check [.key key] v = .ok a)
      (hrule : rule a = .ok b) : field settings.toRaw key fallback check rule = .ok b :=
    field_eq_ok_iff.2 (.inr ⟨v, a, hget, hcheck, hrule⟩)
  have hstring (path : List Step) (s : String) : string path (.string s) = .ok s := rfl
  have hnames (path : List Step) (names : List String) :
      list string path (.list (names.map .string)) = .ok names := list_eq_ok hstring names path
  have hrequired : requiredTable settings.requiredFields = .ok settings.requiredFields := by
    rw [requiredTable_eq]
    exact tableOf_eq h.requiredKeys fun e he => (h.required e he).requiredEntry_eq
  have hsignatures : signatureTable settings.closureSignatures = .ok settings.closureSignatures := by
    rw [signatureTable_eq]
    exact tableOf_eq h.signatureKeys fun e he => (h.signatures e he).signatureEntry_eq
  rw [check_eq_ok_iff]
  refine ⟨?_, ?_, ?_, ?_, ?_, ?_, ?_, ?_⟩
  · exact hfield (.string settings.builderCrate) rfl rfl (h.crate.name_eq _)
  · exact hfield (.string settings.builderModule) rfl rfl (h.scope.name_eq _)
  · exact hfield (.bool settings.strictReceivers) rfl rfl rfl
  · exact hfield (.bool settings.multiline) rfl rfl rfl
  · exact hfield (.string settings.placeholder) rfl rfl rfl
  · exact hfield (.table (settings.requiredFields.map fun e => (e.1, .list (e.2.map .string)))) rfl
      (table_eq_ok hnames _ _) hrequired
  · exact hfield (.table (settings.closureSignatures.map fun e => (e.1, .string e.2))) rfl
      (table_eq_ok hstring _ _) hsignatures
  · exact hfield (.list (settings.exclude.map .string)) rfl (hnames _ _) rfl

/-- Checked settings are clean, and written back as raw settings they check to themselves. -/
theorem check_checked (h : check raw = .ok settings) :
    settings.Clean ∧ check settings.toRaw = .ok settings :=
  ⟨clean_of_check h, (clean_of_check h).check_toRaw⟩

/-- Raw settings with blanks around names, and with keys that become equal. -/
def untidyRaw : List (String × RawValue) :=
  [("builder_crate", .string " poise\n"),
   ("required_fields",
    .table [("Poll ", .list [.string "title"]), ("Vote", .list []), ("Poll", .list [.string " url "])]),
   ("closure_signatures",
    .table [("send", .string "Draft"), (" Poll . add\t", .string "Answer"), (" send ", .string " Letter")])]

def tidySettings : Settings :=
  { builderCrate := "poise"
    requiredFields := [("Poll", ["url"]), ("Vote", [])]
    closureSignatures := [("send", "Letter"), ("Poll.add", "Answer")] }

theorem check_checked_untidy : check untidyRaw = .ok tidySettings ∧ tidySettings.Clean ∧
    check tidySettings.toRaw = .ok tidySettings := by
  have h : check untidyRaw = .ok tidySettings := by decide +kernel
  exact ⟨h, check_checked h⟩

end Check

end Settings

end BuilderMigration
