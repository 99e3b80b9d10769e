import BuilderMigration.Proofs.Grammar.Delimited
import BuilderMigration.Proofs.Printing.Annotations

/-! How far generic arguments are passed over. They end at the bracket that closes them, unless a bracket that
closes, the last one or one within, stands in one token with an equals sign behind it: such a token closes
nothing for the reader, which misses a bracket and runs on behind the arguments. -/

namespace BuilderMigration

open Parse

variable {t u : Token} {ts us rest : List Token} {m n : Nat} {last : Int}

/-! ### Tokens that are spelt alike -/

theorem isPunct_of_spelling (h : t.spelling = u.spelling) (v : String) : t.isPunct v = u.isPunct v := by
  obtain ⟨hkind, hvalue⟩ := Prod.mk.inj h
  rw [Token.isPunct, Token.isPunct, hkind, hvalue]

theorem opens?_of_spelling (h : t.spelling = u.spelling) : t.opens? = u.opens? := by
  simp only [Token.opens?, isPunct_of_spelling h]

theorem closes?_of_spelling (h : t.spelling = u.spelling) : t.closes? = u.closes? := by
  simp only [Token.closes?, isPunct_of_spelling h]

theorem exists_of_spelling_between
    (h : us.map Token.spelling = (t :: (ts ++ u :: rest)).map Token.spelling) :
    ∃ t' ts' u' rest', us = t' :: (ts' ++ u' :: rest') ∧ t'.spelling = t.spelling ∧
      ts'.map Token.spelling = ts.map Token.spelling ∧ u'.spelling = u.spelling ∧
        rest'.map Token.spelling = rest.map Token.spelling := by
  rw [List.map_cons, List.map_append, List.map_cons] at h
  obtain ⟨t', us, rfl, ht, hus⟩ := List.map_eq_cons_iff.1 h
  obtain ⟨ts', vs, rfl, hts, hvs⟩ := List.map_eq_append_iff.1 hus
  obtain ⟨u', rest', rfl, hu, hrest⟩ := List.map_eq_cons_iff.1 hvs
  exact ⟨t', ts', u', rest', rfl, ht, hts, hu, hrest⟩

theorem BalancedTokens.respelt (h : BalancedTokens ts)
    (hus : us.map Token.spelling = ts.map Token.spelling) : BalancedTokens us := by
  induction h generalizing us with
  | nil =>
    obtain rfl := List.map_eq_nil_iff.1 hus
    exact .nil
  | plain ho hc _ ih =>
    obtain ⟨u, us, rfl, hu, hus⟩ := List.map_eq_cons_iff.1 hus
    exact .plain ((opens?_of_spelling hu).trans ho) ((closes?_of_spelling hu).trans hc) (ih hus)
  | group ho hc _ _ ihi ihs =>
    obtain ⟨t', ts', u', us', rfl, ht, hts, hu, hus⟩ := exists_of_spelling_between hus
    exact .group ((opens?_of_spelling ht).trans ho) ((closes?_of_spelling hu).trans hc) (ihi hts) (ihs hus)

theorem TokenGroup.exists_respelt (G : TokenGroup)
    (h : us.map Token.spelling = G.tokens.map Token.spelling) : ∃ G' : TokenGroup, G'.tokens = us := by
  obtain ⟨t, ts, u, rest, rfl, ht, hts, hu, hrest⟩ := exists_of_spelling_between h
  obtain rfl := List.map_eq_nil_iff.1 hrest
  exact ⟨⟨G.kind, t, ts, u, (opens?_of_spelling ht).trans G.opens,
    (closes?_of_spelling hu).trans G.closes, G.balanced.respelt hts⟩, rfl⟩

/-! ### Balanced angle brackets -/

/-- The bracket that closes generic arguments, by itself or in one token with an equals sign behind it. -/
@[simp] def angleClose : (fused : Bool) → String
  | false => ">"
  | true => ">="

/-- The delimiters of groups and the marks with an angle bracket that may be one of generic arguments. -/
def brackets : List String := ["(", ")", "[", "]", "\x7b", "\x7d", "<", "<=", ">", ">="]

/-- Tokens in which the angle brackets outside of groups are balanced. `glued` of the brackets that close
stand in one token with an equals sign; none that opens does. -/
inductive Angled : (glued : Nat) → List Token → Prop
  | nil : Angled 0 []
  | plain {n : Nat} {t : Token} {ts : List Token} (hno : ∀ v ∈ brackets, t.isPunct v = false)
      (hs : Angled n ts) : Angled n (t :: ts)
  | group {n : Nat} {ts : List Token} (G : TokenGroup) (hs : Angled n ts) : Angled n (G.tokens ++ ts)
  | angles {m n : Nat} {fused : Bool} {t u : Token} {ts us : List Token} (ho : t.isPunct "<" = true)
      (hc : u.isPunct (angleClose fused) = true) (hi : Angled m ts) (hs : Angled n us) :
      Angled (m + fused.toNat + n) (t :: (ts ++ u :: us))

theorem Angled.append (h : Angled m ts) (hs : Angled n us) : Angled (m + n) (ts ++ us) := by
  induction h with
  | nil => rwa [Nat.zero_add]
  | plain hno _ ih => exact .plain hno ih
  | group G _ ih =>
    rw [List.append_assoc]
    exact .group G ih
  | angles ho hc hi _ _ ih =>
    rw [List.cons_append, List.append_assoc, List.cons_append, Nat.add_assoc]
    exact .angles ho hc hi ih

theorem Angled.respelt (h : Angled n ts) (hus : us.map Token.spelling = ts.map Token.spelling) :
    Angled n us := by
  induction h generalizing us with
  | nil =>
    obtain rfl := List.map_eq_nil_iff.1 hus
    exact .nil
  | plain hno _ ih =>
    obtain ⟨u, us, rfl, hu, hus⟩ := List.map_eq_cons_iff.1 hus
    exact .plain (fun v hv => (isPunct_of_spelling hu v).trans (hno v hv)) (ih hus)
  | group G _ ih =>
    rw [List.map_append] at hus
    obtain ⟨vs, us, rfl, hvs, hrest⟩ := List.map_eq_append_iff.1 hus
    obtain ⟨G', rfl⟩ := G.exists_respelt hvs
    exact .group G' (ih hrest)
  | angles ho hc _ _ ihi ihs =>
    obtain ⟨t', ts', u', us', rfl, ht, hts, hu, hus⟩ := exists_of_spelling_between hus
    exact .angles ((isPunct_of_spelling ht _).trans ho) ((isPunct_of_spelling hu _).trans hc) (ihi hts)
      (ihs hus)

/-- Generic arguments in angle brackets. The last token may hold an equals sign besides the bracket, and
`within` of the tokens that close others inside do. -/
structure AngleGroup where
  opener : Token
  inner : List Token
  closer : Token
  within : Nat
  fused : Bool
  opens : opener.isPunct "<" = true
  closes : closer.isPunct (angleClose fused) = true
  angled : Angled within inner

namespace AngleGroup

def tokens (A : AngleGroup) : List Token := A.opener :: (A.inner ++ [A.closer])

/-- How many brackets that close stand in one token with an equals sign. -/
def glued (A : AngleGroup) : Nat := A.within + A.fused.toNat

/-- What is left behind the bracket that closes, with the equals sign that stands in one token with it. -/
def behind (A : AngleGroup) (rest : List Token) : Cursor :=
  if A.fused then
    ⟨{ A.closer with value := "=", lo := A.closer.lo + 1, column := A.closer.column + 1 } :: rest,
      A.closer.lo + 1⟩
  else ⟨rest, A.closer.hi⟩

/-- Whether generic arguments are passed over through the bracket that closes them, and no further. -/
def SkipsExactly (A : AngleGroup) : Prop :=
  ∀ rest last, skipGenerics ⟨A.tokens ++ rest, last⟩ = .ok ((), A.behind rest)

theorem angled_tokens (A : AngleGroup) : Angled A.glued A.tokens := by
  have h := Angled.angles A.opens A.closes A.angled .nil
  rwa [Nat.add_zero] at h

theorem exists_respelt (A : AngleGroup) (h : us.map Token.spelling = A.tokens.map Token.spelling) :
    ∃ A' : AngleGroup, A'.tokens = us ∧ A'.glued = A.glued := by
  obtain ⟨t, ts, u, rest, rfl, ht, hts, hu, hrest⟩ := exists_of_spelling_between h
  obtain rfl := List.map_eq_nil_iff.1 hrest
  exact ⟨⟨t, ts, u, A.within, A.fused, (isPunct_of_spelling ht _).trans A.opens,
    (isPunct_of_spelling hu _).trans A.closes, A.angled.respelt hts⟩, rfl, rfl⟩

end AngleGroup

/-! ### Passing over generic arguments -/

namespace Parse

variable {σ : Type} {judge : σ → Token → Verdict σ} {ended : Option Unfinished} {d : Delimiter}
  {ds : List Delimiter} {s : σ}

/-- Within an open group balanced tokens are passed over. -/
theorem sweepFrom_balanced (h : BalancedTokens ts) (us : List Token) :
    sweepFrom judge ended (d :: ds) s last (ts ++ us) = sweepFrom judge ended (d :: ds) s last us := by
  have hlast (e : Delimiter) (es : List Delimiter) (last last' : Int) (us : List Token) :
      sweepFrom judge ended (e :: es) s last us = sweepFrom judge ended (e :: es) s last' us := by
    cases us <;> rfl
  induction h generalizing d ds last us with
  | nil => rfl
  | @plain t ts ho hc _ ih =>
    rw [List.cons_append, sweepFrom, ho, hc]
    exact (ih us).trans (hlast ..)
  | @group e o u ts vs ho hc _ _ ihi ihs =>
    rw [List.cons_append, List.append_assoc, List.cons_append, sweepFrom, ho]
    dsimp only
    rw [ihi, sweepFrom, Token.opens?_of_closes? hc, hc]
    dsimp only
    rw [if_pos rfl, ihs, hlast]

/-- A group whose opening delimiter is passed over is passed over as a whole. -/
theorem sweepFrom_group (G : TokenGroup) {s' : σ} (h : judge s G.opener = .pass s') (us : List Token) :
    sweepFrom judge ended [] s last (G.tokens ++ us) = sweepFrom judge ended [] s' G.closer.hi us := by
  rw [TokenGroup.tokens, List.cons_append, List.append_assoc, List.singleton_append, sweepFrom, h]
  simp only [G.opens, Option.toList_some]
  rw [sweepFrom_balanced G.balanced, sweepFrom, Token.opens?_of_closes? G.closes, G.closes]
  exact if_pos rfl

end Parse

namespace Grammar

/-- Passes over what is left of generic arguments, `depth` of which are open beside the first. -/
def skipAngles (depth : Nat) : Parse Unit := do
  sweep angleVerdict (some .genericArguments) depth
  let _ ← next

theorem skipGenerics_eq_skipAngles : skipGenerics = expect "<" >>= fun _ => skipAngles 0 := rfl

theorem skipAngles_apply (depth : Nat) (c : Cursor) : skipAngles depth c =
    match sweepFrom angleVerdict (some .genericArguments) [] depth c.last c.rest with
    | .ok c' => next c' >>= fun r => .ok ((), r.2)
    | .error e => .error (.rejected e) := by
  rw [skipAngles, bind_apply, sweep_apply]
  cases sweepFrom angleVerdict (some .genericArguments) [] depth c.last c.rest <;> rfl

/-- What was read last does not count. -/
theorem skipAngles_last (depth : Nat) (last last' : Int) (ts : List Token) :
    skipAngles depth ⟨ts, last⟩ = skipAngles depth ⟨ts, last'⟩ := by
  rw [skipAngles_apply, skipAngles_apply]
  cases ts with
  | nil => rfl
  | cons t ts =>
    simp only [sweepFrom]
    cases angleVerdict depth t <;> rfl

theorem skipAngles_nil (depth : Nat) (last : Int) :
    skipAngles depth ⟨[], last⟩ = .error (.rejected (.atEnd .genericArguments)) := rfl

theorem skipAngles_pass {depth depth' : Nat} (h : angleVerdict depth t = .pass depth')
    (ho : t.opens? = none) : skipAngles depth ⟨t :: ts, last⟩ = skipAngles depth' ⟨ts, last⟩ := by
  rw [skipAngles_last depth' last t.hi, skipAngles_apply, skipAngles_apply, sweepFrom, h]
  simp only [ho, Option.toList_none]

theorem skipAngles_halt {depth : Nat} (h : angleVerdict depth t = .halt) :
    skipAngles depth ⟨t :: ts, last⟩ = .ok ((), ⟨ts, t.hi⟩) := by
  rw [skipAngles_apply, sweepFrom, h]
  rfl

theorem isPunct_ne {v w : String} (h : t.isPunct v = true) (hne : v ≠ w) : t.isPunct w = false := by
  rw [Token.isPunct, Bool.and_eq_true, beq_iff_eq, beq_iff_eq] at h
  simp [Token.isPunct, h.2, hne]

theorem opens?_of_isPunct {v : String} (h : t.isPunct v = true) (hv : v ∉ ["(", "[", "\x7b"]) :
    t.opens? = none := by
  have hne (w : String) (hw : w ∈ ["(", "[", "\x7b"]) : t.isPunct w = false :=
    isPunct_ne h fun he => hv (he ▸ hw)
  simp [Token.opens?, hne "(" (by decide), hne "[" (by decide), hne "\x7b" (by decide)]

theorem skipAngles_group (G : TokenGroup) (depth : Nat) :
    skipAngles depth ⟨G.tokens ++ ts, last⟩ = skipAngles depth ⟨ts, last⟩ := by
  have hno (v : String) (hv : v ∉ ["(", "[", "\x7b"]) : G.opener.isPunct v = false := by
    by_contra h
    rw [Bool.not_eq_false] at h
    nomatch (opens?_of_isPunct h hv).symm.trans G.opens
  have hpass : angleVerdict depth G.opener = .pass depth := by
    simp [angleVerdict, hno "<" (by decide), hno ">" (by decide)]
  rw [skipAngles_last depth last G.closer.hi ts, skipAngles_apply, skipAngles_apply,
    sweepFrom_group G hpass]

/-- A bracket that closes ends one of the generic arguments that are open beside the first, unless it stands
in one token with an equals sign. -/
theorem angleVerdict_close {fused : Bool} (h : t.isPunct (angleClose fused) = true) (depth : Nat) :
    angleVerdict (depth + 1) t = .pass (depth + fused.toNat) := by
  have hless : t.isPunct "<" = false := isPunct_ne h (by cases fused <;> decide)
  cases fused with
  | false =>
    have hgreater : t.isPunct ">" = true := h
    rw [angleVerdict, if_neg (by simp [hless]), if_pos hgreater]
    rfl
  | true =>
    rw [angleVerdict, if_neg (by simp [hless]), if_neg (by simp [isPunct_ne h (w := ">") (by decide)])]
    rfl

/-- Balanced brackets are passed over, but each that stands in one token with an equals sign leaves generic
arguments open. -/
theorem skipAngles_angled (h : Angled n ts) (depth : Nat) (us : List Token) :
    skipAngles depth ⟨ts ++ us, last⟩ = skipAngles (depth + n) ⟨us, last⟩ := by
  induction h generalizing depth us with
  | nil => rfl
  | @plain _ t _ hno _ ih =>
    have hopens : t.opens? = none := by
      simp [Token.opens?, hno "(" (by decide), hno "[" (by decide), hno "\x7b" (by decide)]
    have hpass : angleVerdict depth t = .pass depth := by
      simp [angleVerdict, hno "<" (by decide), hno ">" (by decide)]
    rw [List.cons_append, skipAngles_pass hpass hopens, ih]
  | group G _ ih => rw [List.append_assoc, skipAngles_group, ih]
  | @angles m n fused t u ts vs ho hc _ _ ihi ihs =>
    have hopen : angleVerdict depth t = .pass (depth + 1) := by simp [angleVerdict, ho]
    have hclose : angleVerdict (depth + 1 + m) u = .pass (depth + m + fused.toNat) := by
      rw [Nat.add_right_comm]
      exact angleVerdict_close hc (depth + m)
    rw [List.cons_append, skipAngles_pass hopen (opens?_of_isPunct ho (by decide)), List.append_assoc,
      ihi, List.cons_append,
      skipAngles_pass hclose (opens?_of_isPunct hc (by cases fused <;> decide)), ihs]
    congr 1
    omega

variable {A : AngleGroup}

theorem skipGenerics_tokens (A : AngleGroup) (rest : List Token) (last : Int) :
    skipGenerics ⟨A.tokens ++ rest, last⟩ = skipAngles A.within ⟨A.closer :: rest, A.opener.hi⟩ := by
  have his : A.opener.is "<" = true := by
    have h := A.opens
    rw [Token.isPunct, Bool.and_eq_true] at h
    simp [Token.is, h.1, h.2]
  rw [AngleGroup.tokens, List.cons_append, List.append_assoc, List.singleton_append,
    skipGenerics_eq_skipAngles, bind_of_ok (expect_cons his _ _), skipAngles_angled A.angled, Nat.zero_add]

/-- With no bracket in one token with an equals sign, generic arguments are passed over exactly. -/
theorem skipGenerics_exact (h : A.glued = 0) (rest : List Token) (last : Int) :
    skipGenerics ⟨A.tokens ++ rest, last⟩ = .ok ((), A.behind rest) := by
  obtain ⟨hwithin, hfused⟩ : A.within = 0 ∧ A.fused = false := by simpa [AngleGroup.glued] using h
  have hgreater : A.closer.isPunct ">" = true := by simpa [hfused] using A.closes
  have hhalt : angleVerdict 0 A.closer = .halt := by
    simp [angleVerdict, isPunct_ne hgreater (w := "<") (by decide), hgreater]
  rw [skipGenerics_tokens, hwithin, skipAngles_halt hhalt]
  simp [AngleGroup.behind, hfused]

/-- Of the brackets in one token with an equals sign one is missing behind the generic arguments, and for each
more of them another. -/
theorem skipGenerics_glued {k : Nat} (h : A.glued = k + 1) (rest : List Token) (last : Int) :
    skipGenerics ⟨A.tokens ++ rest, last⟩ = skipAngles k ⟨rest, A.opener.hi⟩ := by
  have hopens : A.closer.opens? = none := opens?_of_isPunct A.closes (by cases A.fused <;> decide)
  have hpass : angleVerdict A.within A.closer = .pass k := by
    cases hwithin : A.within with
    | zero =>
      -- the last bracket is the one that is missing
      have hfused : A.fused = true := by
        cases hf : A.fused with
        | true => rfl
        | false => simp [AngleGroup.glued, hwithin, hf] at h
      obtain rfl : k = 0 := by simpa [AngleGroup.glued, hwithin, hfused] using h.symm
      have hc : A.closer.isPunct ">=" = true := by simpa [hfused] using A.closes
      simp [angleVerdict, isPunct_ne hc (w := "<") (by decide), isPunct_ne hc (w := ">") (by decide)]
    | succ w =>
      obtain rfl : k = w + A.fused.toNat := by
        rw [AngleGroup.glued, hwithin] at h
        omega
      exact angleVerdict_close A.closes w
  rw [skipGenerics_tokens, skipAngles_pass hpass hopens]

theorem skipsExactly_iff (A : AngleGroup) : A.SkipsExactly ↔ A.glued = 0 := by
  refine ⟨fun h => ?_, fun h => skipGenerics_exact h⟩
  cases hglued : A.glued with
  | zero => rfl
  | succ k =>
    -- with nothing behind the arguments the missing bracket is not found
    have hall := h [] 0
    rw [skipGenerics_glued hglued, skipAngles_nil] at hall
    cases hall

end Grammar

end BuilderMigration
