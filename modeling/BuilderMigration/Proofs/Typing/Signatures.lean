import BuilderMigration.Proofs.Settings.Checked
import BuilderMigration.Typing.Signatures

/-! Configured signatures. The last one for a method, called on a builder or on a value that is none, says
what a closure passed to it configures, and where there is none the built-in signatures do. -/

namespace BuilderMigration

/-! ### Signatures as they are written -/

namespace Settings

/-- The signatures in raw settings, as they are written. -/
def writtenSignatures (raw : List (String × RawValue)) : List (String × String) :=
  match Assoc.get? "closure_signatures" raw with
  | some (.table entries) => entries.filterMap fun e =>
    match e.2 with
    | .string builder => some (e.1, builder)
    | _ => none
  | _ => []

/-- The receiver and the method that the parts of a key name. -/
def named : List String → Option String × String
  | [receiver, method] => (some receiver, method)
  | parts => (none, parts.headD "")

theorem mem_of_named {parts : List String} {receiver method : String}
    (h : named parts = (some receiver, method)) : receiver ∈ parts := by
  unfold named at h
  split at h
  · obtain rfl := Option.some.inj (Prod.mk.inj h).1
    exact List.mem_cons_self
  · cases h

/-- The receiver and the method that a written key stands for, without the blanks around them. -/
def target (key : String) : Option String × String := named ((segments key).map Text.trim)

/-- The signatures in raw settings, in their order: a receiver, a method and a builder each. -/
def configured (raw : List (String × RawValue)) : List ((Option String × String) × String) :=
  (writtenSignatures raw).map fun e => (target e.1, Text.trim e.2)

theorem fields_string_eq_ok {path : List Step} {fs : List (String × RawValue)}
    {entries : List (String × String)} (h : fields string path fs = .ok entries) :
    fs.filterMap (fun e =>
      match e.2 with
      | .string builder => some (e.1, builder)
      | _ => none) = entries := by
  induction fs generalizing entries with
  | nil => exact Except.ok.inj h
  | cons e fs ih =>
    obtain ⟨k, v⟩ := e
    rw [fields, map_eq_ok_iff] at h
    obtain ⟨⟨s, rest⟩, hboth, rfl⟩ := h
    obtain ⟨hs, hrest⟩ := both_eq_ok_iff.1 hboth
    cases v with
    | string s' =>
      obtain rfl := Except.ok.inj hs
      rw [List.filterMap_cons, ih hrest]
    | _ => cases hs

end Settings

namespace Signatures

variable {t : Signatures} {key k method : String} {receiver : Option String}

/-! ### Keys -/

theorem takeWhile_append_of_notMem {cs : List Char} (h : '.' ∉ cs) (rest : List Char) :
    (cs ++ rest).takeWhile (· ≠ '.') = cs ++ rest.takeWhile (· ≠ '.') := by
  refine List.takeWhile_append_of_pos fun c hc => ?_
  rw [decide_eq_true_eq]
  rintro rfl
  exact h hc

theorem splitKey_of_notMem (h : '.' ∉ key.toList) : splitKey key = (none, key) := by
  have hwhole : key.toList.takeWhile (· ≠ '.') = key.toList := by
    simpa using takeWhile_append_of_notMem h []
  simp only [splitKey, hwhole, List.drop_length]

theorem splitKey_append {receiver : String} (h : '.' ∉ receiver.toList) (method : String) :
    splitKey (receiver ++ "." ++ method) = (some receiver, method) := by
  have htext : (receiver ++ "." ++ method).toList = receiver.toList ++ '.' :: method.toList := by
    rw [String.toList_append, String.toList_append, List.append_assoc]
    rfl
  have hhead : (receiver.toList ++ '.' :: method.toList).takeWhile (· ≠ '.') = receiver.toList :=
    (takeWhile_append_of_notMem h _).trans (List.append_nil _)
  simp only [splitKey, htext, hhead, List.drop_left, String.ofList_toList]

/-- A key is told by the receiver and the method that it names. -/
theorem splitKey_injective (h : splitKey key = splitKey k) : key = k := by
  have hjoin (key : String) : (splitKey key).1.elim "" (· ++ ".") ++ (splitKey key).2 = key := by
    by_cases hdot : '.' ∈ key.toList
    · obtain ⟨receiver, method, hkey, hreceiver⟩ := List.eq_append_cons_of_mem hdot
      have hsplit : key = String.ofList receiver ++ "." ++ String.ofList method := by
        rw [← String.toList_inj, hkey, String.toList_append, String.toList_append, List.append_assoc]
        simp
      rw [hsplit, splitKey_append (by simpa using hreceiver)]
      rfl
    · rw [splitKey_of_notMem hdot]
      exact String.empty_append
  rw [← hjoin key, h, hjoin k]

/-- A key of checked settings is split into its parts. -/
theorem splitKey_of_isSignatureKey (h : Settings.IsSignatureKey key) :
    splitKey key = Settings.named (Settings.segments key) := by
  have hjoin := Settings.intercalate_segments key
  have hdot : ∀ s ∈ Settings.segments key, '.' ∉ s.toList := fun s hs => (h.names s hs).not_dot
  rcases h.length with hlength | hlength
  · obtain ⟨method, hmethod⟩ := List.length_eq_one_iff.1 hlength
    rw [hmethod, String.intercalate_singleton] at hjoin
    rw [hmethod, ← hjoin]
    exact splitKey_of_notMem (hdot method (by simp [hmethod]))
  · obtain ⟨receiver, method, hparts⟩ := List.length_eq_two.1 hlength
    rw [hparts] at hjoin
    rw [hparts, ← hjoin]
    exact splitKey_append (hdot receiver (by simp [hparts])) method

/-! ### Entries -/

/-- What is held for a receiver and a method. -/
def held? (t : Signatures) : Option String × String → Option String
  | (some receiver, method) => Assoc.get? (receiver, method) t.nested
  | (none, method) => Assoc.get? method t.entryPoints

/-- What a key and its builder say. -/
def entryOf (e : String × String) : (Option String × String) × String := (splitKey e.1, e.2)

theorem held?_add (t : Signatures) (e : String × String) (x : Option String × String) :
    (t.add e).held? x = if splitKey e.1 = x then some e.2 else t.held? x := by
  obtain ⟨receiver', method'⟩ := x
  unfold add
  split
  · next receiver method hkey =>
    rw [hkey]
    cases receiver' <;> simp [held?, Assoc.get?_put]
  · next method hkey =>
    rw [hkey]
    cases receiver' <;> simp [held?, Assoc.get?_put]

theorem fallbacks_add (t : Signatures) (e : String × String) : (t.add e).fallbacks = t.fallbacks := by
  unfold add
  split <;> rfl

theorem held?_foldl_add (entries : List (String × String)) (t : Signatures)
    (x : Option String × String) :
    (entries.foldl add t).held? x =
      (Assoc.get? x (entries.map entryOf).reverse).or (t.held? x) := by
  induction entries generalizing t with
  | nil => rfl
  | cons e entries ih =>
    rw [List.foldl_cons, ih, held?_add, List.map_cons, List.reverse_cons, Assoc.get?_append,
      Option.or_assoc, entryOf, Assoc.get?, Assoc.get?]
    split <;> rfl

theorem fallbacks_foldl_add (entries : List (String × String)) (t : Signatures) :
    (entries.foldl add t).fallbacks = t.fallbacks := by
  induction entries generalizing t with
  | nil => rfl
  | cons e entries ih => rw [List.foldl_cons, ih, fallbacks_add]

theorem fallbacks_ofSettings (settings : Settings) :
    (ofSettings settings).fallbacks = builtin.fallbacks := fallbacks_foldl_add _ _

theorem lookup_builder (t : Signatures) (method builder : String) (known : Bool) :
    t.lookup method (some builder) known =
      (t.held? (some builder, method)).or (t.held? (some anyBuilder, method)) := by
  rw [lookup, held?, held?]
  cases Assoc.get? (builder, method) t.nested <;> rfl

theorem lookup_none (t : Signatures) (method : String) (known : Bool) :
    t.lookup method none known =
      (t.held? (none, method)).or (if known then none else Assoc.get? method t.fallbacks) := by
  rw [lookup, held?]
  cases Assoc.get? method t.entryPoints <;> rfl

end Signatures

namespace Settings

variable {raw : List (String × RawValue)} {settings : Settings}

/-- Checked settings hold the signatures of the raw ones, each with its names cleaned. -/
theorem closureSignatures_of_check (h : check raw = .ok settings) :
    ∃ checked, (writtenSignatures raw).mapM signatureEntry = .ok checked ∧
      settings.closureSignatures = Assoc.ofEntries checked := by
  obtain ⟨-, -, -, -, -, -, hfield, -⟩ := check_eq_ok_iff.1 h
  rcases field_eq_ok_iff.1 hfield with ⟨hnone, hempty⟩ | ⟨v, entries, hv, hentries, htable⟩
  · refine ⟨[], ?_, hempty.symm⟩
    rw [writtenSignatures, hnone]
    rfl
  · cases v with
    | table fs =>
      rw [writtenSignatures, hv]
      dsimp only
      rw [fields_string_eq_ok hentries]
      rw [signatureTable_eq] at htable
      obtain ⟨checked, hchecked, heq⟩ := tableOf_eq_ok_iff.1 htable
      exact ⟨checked, hchecked, heq.symm⟩
    | _ => cases hentries

/-- What a cleaned entry says is what was meant by it as it was written. -/
theorem entryOf_of_signatureEntry {e e' : String × String} (h : signatureEntry e = .ok e') :
    Signatures.entryOf e' = (target e.1, Text.trim e.2) := by
  simp only [signatureEntry, bind_eq_ok_iff, pure_eq_ok_iff] at h
  obtain ⟨key, hkey, builder, hbuilder, rfl⟩ := h
  obtain ⟨hsegments, hname⟩ := segments_of_signatureKey hkey
  rw [Signatures.entryOf, Signatures.splitKey_of_isSignatureKey hname, hsegments,
    (name_eq_ok_iff.1 hbuilder).1, target]

theorem configured_of_check (h : check raw = .ok settings) :
    settings.closureSignatures.map Signatures.entryOf = Assoc.ofEntries (configured raw) := by
  obtain ⟨checked, hchecked, htable⟩ := closureSignatures_of_check h
  have hmap : checked.map Signatures.entryOf = configured raw := by
    have hall := mapM_eq_ok_iff.1 hchecked
    rw [configured]
    generalize writtenSignatures raw = written at hall
    clear hchecked htable
    induction hall with
    | nil => rfl
    | cons he _ ih => rw [List.map_cons, List.map_cons, ih, entryOf_of_signatureEntry he]
  rw [htable, ← hmap]
  exact Assoc.map_ofEntries (fun _ _ => Signatures.splitKey_injective) checked

end Settings

namespace Signatures

variable {raw : List (String × RawValue)} {settings : Settings}

/-- An entry is the last one configured for its receiver and method, or the one built in. -/
theorem held?_ofSettings (h : Settings.check raw = .ok settings) (x : Option String × String) :
    (ofSettings settings).held? x =
      (Assoc.get? x (Settings.configured raw).reverse).or (builtin.held? x) := by
  have hn := Assoc.nodup_ofEntries (Settings.configured raw)
  rw [ofSettings, held?_foldl_add, Settings.configured_of_check h, Assoc.get?_reverse hn,
    Assoc.get?_ofEntries]

/-- No signature is configured for every builder, which is no name. -/
theorem get?_anyBuilder (h : Settings.check raw = .ok settings) (method : String) :
    Assoc.get? (some anyBuilder, method) (Settings.configured raw).reverse = none := by
  rw [← Assoc.get?_ofEntries, ← Settings.configured_of_check h, Option.eq_none_iff_forall_ne_some]
  intro builder hget
  obtain ⟨e, he, hentry⟩ := List.mem_map.1 (Assoc.mem_of_get? hget)
  have hkey := ((Settings.clean_of_check h).signatures e he).1
  have hsplit : splitKey e.1 = (some anyBuilder, method) := congrArg Prod.fst hentry
  have hmem := Settings.mem_of_named ((splitKey_of_isSignatureKey hkey).symm.trans hsplit)
  exact absurd ((hkey.names _ hmem).chars '*' (by decide +kernel)) (by decide)

/-- What is looked up is the last entry configured for a receiver and a method, or what is built in. -/
theorem lookup_ofSettings (h : Settings.check raw = .ok settings) (method : String)
    (receiver : Option String) (known : Bool) :
    (ofSettings settings).lookup method receiver known =
      (Assoc.get? (receiver, method) (Settings.configured raw).reverse).or
        (builtin.lookup method receiver known) := by
  cases receiver with
  | none =>
    rw [lookup_none, lookup_none, held?_ofSettings h, fallbacks_ofSettings, Option.or_assoc]
  | some builder =>
    rw [lookup_builder, lookup_builder, held?_ofSettings h, held?_ofSettings h, get?_anyBuilder h,
      Option.none_or, Option.or_assoc]

/-- A signature configured for a method, on a builder or on a value that is none, says what a closure
passed to the method configures there, if it is the last one of its kind: whatever is known of the value,
and whatever is built in. Where none is configured, all is as it is built in. -/
theorem lookup_configured (h : Settings.check raw = .ok settings) (receiver : Option String)
    (method : String) :
    (∀ before after builder,
        Settings.configured raw = before ++ ((receiver, method), builder) :: after →
          (receiver, method) ∉ after.map (·.1) →
            ∀ known, (ofSettings settings).lookup method receiver known = some builder) ∧
      ((receiver, method) ∉ (Settings.configured raw).map (·.1) →
        ∀ known, (ofSettings settings).lookup method receiver known =
          builtin.lookup method receiver known) := by
  constructor
  · intro before after builder hconfigured hlast known
    have hafter : Assoc.get? (receiver, method) after.reverse = none :=
      Assoc.get?_eq_none (by simpa using hlast)
    rw [lookup_ofSettings h, hconfigured, List.reverse_append, List.reverse_cons, Assoc.get?_append,
      Assoc.get?_append, hafter, Assoc.get?, if_pos rfl]
    rfl
  · intro hnone known
    have hget : Assoc.get? (receiver, method) (Settings.configured raw).reverse = none :=
      Assoc.get?_eq_none (by simpa using hnone)
    rw [lookup_ofSettings h, hget, Option.none_or]

/-- A method is configured twice, in two spellings, and another one on a builder; both are built in. -/
def overridingRaw : List (String × RawValue) :=
  [("closure_signatures",
    .table [("send_message", .string "Draft"), ("CreateMessage. embed", .string " Card"),
      (" send_message ", .string "Letter")])]

def overridingSettings : Settings :=
  { closureSignatures := [("send_message", "Letter"), ("CreateMessage.embed", "Card")] }

theorem lookup_configured_overriding :
    Settings.check overridingRaw = .ok overridingSettings ∧
      (ofSettings overridingSettings).lookup "send_message" none true = some "Letter" ∧
        (ofSettings overridingSettings).lookup "embed" (some "CreateMessage") false = some "Card" ∧
          (ofSettings overridingSettings).lookup "embed" (some "CreateEmbed") true =
            builtin.lookup "embed" (some "CreateEmbed") true := by
  have h : Settings.check overridingRaw = .ok overridingSettings := by decide +kernel
  have hconfigured : Settings.configured overridingRaw =
      [((none, "send_message"), "Draft"), ((some "CreateMessage", "embed"), "Card"),
        ((none, "send_message"), "Letter")] := by decide +kernel
  have hmethod := (lookup_configured h none "send_message").1 [_, _] [] "Letter" hconfigured (by simp)
  have hnested := (lookup_configured h (some "CreateMessage") "embed").1 [_] [_] "Card" hconfigured
    (by decide)
  have hother := (lookup_configured h (some "CreateEmbed") "embed").2 (by rw [hconfigured]; decide)
  exact ⟨h, hmethod true, hnested false, hother true⟩

end Signatures

end BuilderMigration
