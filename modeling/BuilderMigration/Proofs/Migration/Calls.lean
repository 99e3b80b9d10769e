import BuilderMigration.Proofs.Migration.Replay
import BuilderMigration.Proofs.Printing.Spelling
import BuilderMigration.Proofs.Rewrite.Abandoned
import BuilderMigration.Proofs.Rewrite.Places

/-! How the calls of a builder are written. Each call that is kept stands in the replacement with its
method and its arguments, and an argument that is no closure has its source text. The method is the value
of a token: of a raw name the marker is lost, and generic arguments are lost altogether. -/

namespace BuilderMigration

open Rewrite

variable {settings : Settings} {rules : Rules} {k : Int} {code path method text : String} {m : Module}
  {ts : List Token} {b c : List Char} {lo : Int} {span receiver : Span} {args : List Span}
  {t : CallTokens} {l : Link} {e : Expr}

/-! ### Heads -/

/-- A token that is no name has its text as its value. -/
theorem Lexes.hi_eq (h : Lexes c lo b ts) : ∀ t ∈ ts, t.kind ≠ .ident → t.hi = t.lo + t.value.length := by
  induction h with
  | done => exact nofun
  | skip _ _ _ ih => exact ih
  | @token lo kind p cs ts _ _ _ ih =>
    refine List.forall_mem_cons.2 ⟨fun hkind => ?_, ih⟩
    have htext := tokenText_of_ne hkind (String.ofList p)
    rw [String.toList_ofList] at htext
    dsimp only
    rw [htext, String.length_ofList]

/-- The tokens of a dot with a plain name behind it. -/
def headTokens (method : String) : List Token :=
  [⟨.punct, ".", 0, 1, 0, 0⟩, ⟨.ident, method, 1, 1 + method.length, 0, 0⟩]

theorem readsBefore_head (h : IsWord method) :
    ReadsBefore '(' ("." ++ method) (headTokens method) := by
  refine ⟨headTokens method, fun rest => ?_, rfl⟩
  obtain ⟨c, cs, hcs, hc⟩ := h.exists_head
  have hdot : c ≠ '.' := by
    rintro rfl
    cases hc
  have haside : Aside ('(' :: rest) := by
    intro d hd
    obtain rfl := Option.mem_some_iff.1 hd
    decide
  have hname : Lexeme.piece (method.toList ++ ([] ++ '(' :: rest)) = .token .ident method.toList.length :=
    Lexeme.piece_word (by rwa [IsWord, ← String.length_toList] at h) haside
  have hone : Lexeme.piece (['.'] ++ (method.toList ++ '(' :: rest)) = .token .punct ['.'].length := by
    rw [hcs]
    exact Lexeme.piece_dot hdot _
  have hmethod : Lexes ('(' :: rest) 1 (method.toList ++ []) _ :=
    .token hname (hcs ▸ List.cons_ne_nil c cs) .done
  rw [List.append_nil] at hmethod
  have hall : Lexes ('(' :: rest) 0 (['.'] ++ method.toList) _ :=
    .token hone (List.cons_ne_nil _ _) hmethod
  rw [h.alone.2] at hall
  rw [String.toList_append]
  exact hall

theorem CallTokens.Of.mem (ht : t.Of ts span receiver method args) : t.dot ∈ ts ∧ t.name ∈ ts := by
  obtain ⟨before, trail, after, rfl, -⟩ := ht.here
  simp [tokens]

theorem CallTokens.Of.isWord (ht : t.Of ts span receiver method args)
    (hts : tokensOf code 1 = .ok ts) : IsWord method :=
  ht.value ▸ (lexes_of_tokensOf hts).isWord t.name.bare (List.mem_map_of_mem ht.mem.2) ht.kind

/-- The dot of a call is that mark and nothing else. -/
theorem CallTokens.Of.form_dot (ht : t.Of ts span receiver method args)
    (hts : tokensOf code 1 = .ok ts) : t.dot.form = (.punct, ".", 1) := by
  have hlex := lexes_of_tokensOf hts
  have hmem : t.dot.bare ∈ ts.map Token.bare := List.mem_map_of_mem ht.mem.1
  have hdot := ht.dot
  simp only [Token.is, Bool.and_eq_true, Bool.or_eq_true, beq_iff_eq] at hdot
  obtain ⟨hkind, hvalue⟩ := hdot
  have hpunct : t.dot.kind = .punct := by
    refine hkind.resolve_right fun hident => ?_
    have hword : IsWord t.dot.value := hlex.isWord t.dot.bare hmem hident
    rw [hvalue] at hword
    exact absurd hword (by decide)
  have hhi : t.dot.hi = t.dot.lo + t.dot.value.length := hlex.hi_eq t.dot.bare hmem
    (by simp [Token.bare, hpunct])
  have hlength : t.dot.hi - t.dot.lo = 1 := by
    rw [hhi, hvalue]
    change t.dot.lo + 1 - t.dot.lo = 1
    omega
  rw [Token.form, hpunct, hvalue, hlength]

/-- In front of its arguments a call is read to the tokens of the source just if its name is not raw and no
generic arguments stand behind it. -/
theorem CallTokens.Of.readsBefore_iff (ht : t.Of ts span receiver method args)
    (hts : tokensOf code 1 = .ok ts) :
    ReadsBefore '(' ("." ++ method) (t.dot :: t.name :: t.generics) ↔
      t.name.hi = t.name.lo + method.length ∧ t.generics = [] := by
  have hdot := ht.form_dot hts
  have hname : t.name.form = (.ident, method, t.name.hi - t.name.lo) := by
    rw [Token.form, ht.kind, ht.value]
  rw [(readsBefore_head (ht.isWord hts)).iff_form, List.map_cons, List.map_cons, hdot, hname]
  simp only [headTokens, Token.form, List.map_cons, List.map_nil, List.cons.injEq, Prod.mk.injEq,
    Int.sub_zero, true_and, List.nil_eq, List.map_eq_nil_iff]
  refine and_congr_left fun _ => ?_
  omega

/-! ### Arguments -/

/-- The text that a span of a file stands for. -/
def sourceText (code : String) (s : Span) : String :=
  String.ofList (Text.slice code.toList (s.lo - 1).toNat (s.hi - 1).toNat)

namespace Workshop

variable {w : Workshop}

/-- The text of an argument. -/
def argText (w : Workshop) (rules : Rules) (k : Int) (e : Expr) : String :=
  (w.arg (w.ready rules (classifyArg w.settings e))).value k

theorem written_eq (w : Workshop) (rules : Rules) (k : Int) (i : Invocation) :
    w.written rules k (i.call w.settings) =
      String.intercalate ", " (i.args.map (w.argText rules k)) := by
  have hready : w.readyArgs rules (i.args.map (classifyArg w.settings)) =
      i.args.map fun e => w.ready rules (classifyArg w.settings e) := by
    induction i.args with
    | nil => rfl
    | cons e es ih => rw [List.map_cons, readyArgs, ih, List.map_cons]
  have hargs : ComesTo k (w.argList (w.readyArgs rules (i.args.map (classifyArg w.settings))))
      (.ok (String.intercalate ", " ((w.readyArgs rules (i.args.map (classifyArg w.settings))).map
        fun a => (w.arg a).value k))) _ :=
    (ComesTo.mapM fun a ha => (determined_arg (determined_readyArgs w rules _ a ha)).comesTo
      (w.total_arg a) k).bind_pure (String.intercalate ", ")
  rw [hready, List.map_map, ← hready] at hargs
  exact hargs.value_eq

/-- An argument that is no builder has its source text. -/
theorem argText_eq (settings : Settings) (rules : Rules) (k : Int) (path : String)
    (he : builderClosure? settings e = none) (hts : tokensOf code 1 = .ok ts)
    (hs : e.span.Within code.length) (hp : e.span.Proper ts) :
    (Plan.alone settings rules path code).workshop.argText rules k e = sourceText code e.span := by
  obtain ⟨text, -, hsnippet, htrim, -⟩ := SourceMap.snippet_tells path hts hs hp
  have htext : text = sourceText code e.span := by
    have hle := hs.le
    rw [← String.length_toList] at hle
    rw [SourceMap.snippet?_eq (SourceMap.file?_within hs) hs.written hs.lt hle] at hsnippet
    exact (Option.some.inj hsnippet).symm
  have hresolve : (Plan.alone settings rules path code).workshop.resolve? e.span k = some text := by
    rw [resolve?, Expansions.walk_of_written _ hs.written]
    exact hsnippet
  have hready : (Plan.alone settings rules path code).workshop.ready rules (classifyArg settings e) =
      .literal e.span e.segments? := by
    rw [classifyArg, he]
    rfl
  have hvalue : (Plan.alone settings rules path code).workshop.argText rules k e =
      ((Plan.alone settings rules path code).workshop.snippet e.span).value k :=
    congrArg (fun a => (arg _ a).value k) hready
  rw [hvalue, (comesTo_snippet hresolve).value_eq, htrim, htext]

end Workshop

/-! ### Calls as they stand in the source -/

/-- The text of a call from its dot on. -/
def Workshop.linkText (w : Workshop) (rules : Rules) (k : Int) (l : Link) : String :=
  w.callText rules k (l.call w.settings)

/-- A text is a call as it stands in the source: up to its arguments it has the tokens of the call, and
the arguments stand in parentheses in their order, those that are no builders with their source text. -/
structure Link.AsWritten (l : Link) (w : Workshop) (rules : Rules) (k : Int) (code : String)
    (t : CallTokens) (text : String) : Prop where
  head : ∃ head, ReadsBefore '(' head (t.dot :: t.name :: t.generics) ∧
    text = head ++ "(" ++ String.intercalate ", " (l.args.map (w.argText rules k)) ++ ")"
  inOrder : (l.args.map Expr.span).Pairwise fun a b => a.hi ≤ b.lo
  literal : ∀ e ∈ l.args, builderClosure? w.settings e = none →
    w.argText rules k e = sourceText code e.span

/-- A call is read from some tokens of a file. -/
abbrev Link.ReadFrom (l : Link) (ts : List Token) (t : CallTokens) : Prop :=
  t.Of ts l.span l.receiver l.method (l.args.map Expr.span)

/-- A call of a file is written as it stands in the source just if its name is not raw and no generic
arguments stand behind it. -/
theorem Link.asWritten_iff (settings : Settings) (rules : Rules) (k : Int) (path : String)
    (hts : tokensOf code 1 = .ok ts) (ht : l.ReadFrom ts t)
    (horder : (l.args.map Expr.span).Pairwise fun a b => a.hi ≤ b.lo)
    (hargs : ∀ e ∈ l.args, e.span.Proper ts ∧ e.span.Within code.length) :
    let w := (Plan.alone settings rules path code).workshop
    l.AsWritten w rules k code t (w.linkText rules k l) ↔
      t.name.hi = t.name.lo + l.method.length ∧ t.generics = [] := by
  intro w
  have htext : w.linkText rules k l = "." ++ l.method ++ "(" ++
      String.intercalate ", " (l.args.map (w.argText rules k)) ++ ")" := by
    rw [← w.written_eq rules k l.toInvocation]
    rfl
  rw [← ht.readsBefore_iff hts]
  constructor
  · rintro ⟨⟨head, hhead, heq⟩, -, -⟩
    rw [htext] at heq
    simp only [String.append_left_inj] at heq
    exact heq ▸ hhead
  · intro hhead
    exact ⟨⟨_, hhead, htext⟩, horder, fun e he hnone =>
      Workshop.argText_eq settings rules k path hnone hts (hargs e he).2 (hargs e he).1⟩

/-- A call that stands below a node of a file is read from some tokens, and its arguments stand in the file
one behind the other. -/
theorem Link.In.placed {n : Node} (hl : l.In n) (hread : readModule code 1 path = .ok m)
    (hn : n ∈ (m.resolved settings).tree.preorder) (hts : tokensOf code 1 = .ok ts) :
    (∃ t, l.ReadFrom ts t) ∧ (l.args.map Expr.span).Pairwise (fun a b => a.hi ≤ b.lo) ∧
      ∀ e ∈ l.args, e.span.Proper ts ∧ e.span.Within code.length := by
  obtain ⟨receiver, hreceiver, hmem⟩ := hl
  obtain ⟨-, -, us, hus, hlaid⟩ := readModule_laid hread (by omega)
  obtain ⟨vs, hvs, hsourced⟩ := readModule_sourced hread (by omega)
  obtain rfl := Except.ok.inj (hts.symm.trans hus)
  obtain rfl := Except.ok.inj (hts.symm.trans hvs)
  have hlaid := m.resolved_laid settings hlaid
  have hall := Node.mem_preorder_trans (x := .module (m.resolved settings)) hn hmem
  have hbelow := Module.expr_below hall
  refine ⟨?_, ?_, fun e he => ?_⟩
  · have hcall := Module.resolved_sourced settings hsourced _ hall
    rw [Node.Sourced, hreceiver] at hcall
    exact hcall
  · have hnests := (hlaid.nests (Module.children_trees _) _ hbelow).2
    have horder := (List.pairwise_cons.1 hnests.inOrder).2
    rw [List.pairwise_map] at horder ⊢
    exact horder
  · exact hlaid.within_below (Module.children_trees _) hbelow (Node.mem_preorder_of_child
      (List.mem_cons_of_mem _ (List.mem_map_of_mem he)) (Node.mem_preorder_self (.expr e)))

/-- The calls that are kept of a builder stand in its replacement in their order. Each is written as it
stands in the source just if its name is not raw and no generic arguments stand behind it. -/
theorem Node.calls_asWritten_iff {n : Node} {work : Rewrite String} {d : Draft}
    (hread : readModule code 1 path = .ok m) (hn : n ∈ (m.resolved settings).tree.preorder)
    (hwork : n.builder? (.alone settings rules path code) = some work)
    (hrun : work { ctxt := n.span.ctxt } = (.ok text, d)) :
    let w := (Plan.alone settings rules path code).workshop
    let calls := n.keptLinks settings rules
    ∃ ts, tokensOf code 1 = .ok ts ∧
      Carries (calls.map (w.linkText rules n.span.ctxt)) text ∧
      ∀ l ∈ calls, (∃ t, l.ReadFrom ts t) ∧ ∀ t, l.ReadFrom ts t →
        (l.AsWritten w rules n.span.ctxt code t (w.linkText rules n.span.ctxt l) ↔
          t.name.hi = t.name.lo + l.method.length ∧ t.generics = []) := by
  intro w calls
  obtain ⟨-, -, ts, hts, -⟩ := readModule_laid hread (by omega)
  refine ⟨ts, hts, Node.carries_keptLinks hwork hrun, fun l hl => ?_⟩
  obtain ⟨htokens, horder, hargs⟩ := (n.keptLinks_in settings rules l hl).placed hread hn hts
  exact ⟨htokens, fun t ht => Link.asWritten_iff settings rules _ path hts ht horder hargs⟩

/-! ### A raw name and generic arguments -/

/-- A call in its place. -/
def Link.place (l : Link) : String × Span × Span × List Span :=
  (l.method, l.span, l.receiver, l.args.map Expr.span)

theorem Link.readFrom_of_place (h : l.place = (method, span, receiver, args))
    (ht : t.Of ts span receiver method args) : l.ReadFrom ts t := by
  simp only [place, Prod.mk.injEq] at h
  obtain ⟨rfl, rfl, rfl, rfl⟩ := h
  exact ht

/-- What becomes of a builder: where the calls stand that are kept of it, and the text that is written,
with the notes on it. -/
structure Written where
  calls : List (String × Span × Span × List Span)
  text : Option String
  notes : List Note
  deriving DecidableEq

/-- What becomes of the builder that a node is. -/
def Node.written? (p : Plan) (n : Node) : Option Written :=
  (n.builder? p).map fun work =>
    let (result, d) := work { ctxt := n.span.ctxt }
    ⟨(n.keptLinks p.workshop.settings p.rules).map Link.place, result.toOption, d.notes⟩

theorem exists_written {places : List (String × Span × Span × List Span)}
    (h : ((readModule code 1 path).toOption.bind fun m =>
      (m.resolved settings).tree.preorder.findSome?
        (Node.written? (.alone settings rules path code))) = some ⟨places, some text, []⟩) :
    ∃ m n work d, readModule code 1 path = .ok m ∧ n ∈ (m.resolved settings).tree.preorder ∧
      n.builder? (.alone settings rules path code) = some work ∧
      work { ctxt := n.span.ctxt } = (.ok text, d) ∧ d.notes = [] ∧
      (n.keptLinks settings rules).map Link.place = places := by
  obtain ⟨m, hread, n, hn, hwritten⟩ := exists_node h
  obtain ⟨work, hwork, hall⟩ := Option.map_eq_some_iff.1 hwritten
  generalize hrun : work { ctxt := n.span.ctxt } = run at hall
  obtain ⟨result, d⟩ := run
  simp only [Written.mk.injEq] at hall
  obtain ⟨hplaces, htext, hnotes⟩ := hall
  cases result with
  | error v => cases htext
  | ok text' =>
    obtain rfl := Option.some.inj htext
    exact ⟨m, n, work, d, hread, hn, hwork, hrun, hnotes, hplaces⟩

/-- A closure with a call of generic arguments and one of a raw name. -/
def markedCode : String :=
  "use serenity::builder::CreateMessage; " ++
    "fn f() \x7b g(|m: &mut CreateMessage| m.add::<T>(1).r#type(2)); \x7d"

/-- The call with generic arguments. -/
def genericCall : CallTokens where
  dot := firstLine .punct "." 75
  name := firstLine .ident "add" 76
  generics := [firstLine .punct "::" 79, firstLine .punct "<" 81, firstLine .ident "T" 82,
    firstLine .punct ">" 83]
  opening := firstLine .punct "(" 84
  inner := [firstLine .number "1" 85]
  closing := firstLine .punct ")" 86

/-- The call of the raw name. -/
def rawCall : CallTokens where
  dot := firstLine .punct "." 87
  name := ⟨.ident, "type", 88, 94, 1, 88⟩
  generics := []
  opening := firstLine .punct "(" 94
  inner := [firstLine .number "2" 95]
  closing := firstLine .punct ")" 96

theorem genericCall_of (hts : tokensOf markedCode 1 = .ok ts) :
    genericCall.Of ts ⟨74, 87, 0⟩ ⟨74, 75, 0⟩ "add" [⟨85, 86, 0⟩] where
  here := ⟨(tokenize markedCode 1).tokens.take 22, [], (tokenize markedCode 1).tokens.drop 31,
    (tokensOf_eq_ok hts).trans (by decide +kernel), by decide +kernel, .nil⟩
  dot := rfl
  kind := rfl
  value := rfl
  generics := .inr ⟨_, _, _, rfl, rfl, rfl⟩
  opening := rfl
  closing := rfl
  ends := rfl
  args := by decide

theorem rawCall_of (hts : tokensOf markedCode 1 = .ok ts) :
    rawCall.Of ts ⟨74, 97, 0⟩ ⟨74, 87, 0⟩ "type" [⟨95, 96, 0⟩] where
  here := ⟨(tokenize markedCode 1).tokens.take 31, [], (tokenize markedCode 1).tokens.drop 36,
    (tokensOf_eq_ok hts).trans (by decide +kernel), by decide +kernel, .nil⟩
  dot := rfl
  kind := rfl
  value := rfl
  generics := .nil
  opening := rfl
  closing := rfl
  ends := rfl
  args := by decide

/-- The generic arguments and the marker of the raw name are lost, without a note. -/
theorem not_calls_asWritten :
    let w := (Plan.alone {} {} noFile markedCode).workshop
    ∃ m n work d ts l l', readModule markedCode 1 noFile = .ok m ∧
      n ∈ (m.resolved {}).tree.preorder ∧ n.builder? (.alone {} {} noFile markedCode) = some work ∧
      work { ctxt := n.span.ctxt } = (.ok "CreateMessage::new().add(1).type(2)", d) ∧ d.notes = [] ∧
      tokensOf markedCode 1 = .ok ts ∧ n.keptLinks {} {} = [l, l'] ∧
      l.ReadFrom ts genericCall ∧ ¬ l.AsWritten w {} n.span.ctxt markedCode genericCall
        (w.linkText {} n.span.ctxt l) ∧
      l'.ReadFrom ts rawCall ∧ ¬ l'.AsWritten w {} n.span.ctxt markedCode rawCall
        (w.linkText {} n.span.ctxt l') := by
  have hlook : ((readModule markedCode 1 noFile).toOption.bind fun m =>
      (m.resolved {}).tree.preorder.findSome? (Node.written? (.alone {} {} noFile markedCode))) =
        some ⟨[("add", ⟨74, 87, 0⟩, ⟨74, 75, 0⟩, [⟨85, 86, 0⟩]),
          ("type", ⟨74, 97, 0⟩, ⟨74, 87, 0⟩, [⟨95, 96, 0⟩])],
          some "CreateMessage::new().add(1).type(2)", []⟩ := by
    decide +kernel
  obtain ⟨m, n, work, d, hread, hn, hwork, hrun, hnotes, hplaces⟩ := exists_written hlook
  obtain ⟨-, -, ts, hts, -⟩ := readModule_laid hread (by omega)
  obtain ⟨l, rest, hlinks, hl, hrest⟩ := List.map_eq_cons_iff.1 hplaces
  obtain ⟨l', rfl, hl'⟩ := List.map_eq_singleton_iff.1 hrest
  have hgeneric := Link.readFrom_of_place hl (genericCall_of hts)
  have hraw := Link.readFrom_of_place hl' (rawCall_of hts)
  have hin := n.keptLinks_in {} {}
  rw [hlinks, List.forall_mem_cons, List.forall_mem_singleton] at hin
  obtain ⟨-, horder, hargs⟩ := hin.1.placed hread hn hts
  obtain ⟨-, horder', hargs'⟩ := hin.2.placed hread hn hts
  refine ⟨m, n, work, d, ts, l, l', hread, hn, hwork, hrun, hnotes, hts, hlinks, hgeneric, fun h => ?_,
    hraw, fun h => ?_⟩
  · have hplain := (Link.asWritten_iff {} {} _ noFile hts hgeneric horder hargs).1 h
    exact absurd hplain.2 (List.cons_ne_nil _ _)
  · have hplain := (Link.asWritten_iff {} {} _ noFile hts hraw horder' hargs').1 h
    rw [← hraw.value] at hplain
    exact absurd hplain.1 (by decide)

/-- A closure with two calls of plain names. -/
def unmarkedCode : String :=
  "use serenity::builder::CreateMessage; " ++
    "fn f() \x7b g(|m: &mut CreateMessage| m.content(e).nonce(2)); \x7d"

/-- The second of them. -/
def nonceCall : CallTokens where
  dot := firstLine .punct "." 86
  name := firstLine .ident "nonce" 87
  generics := []
  opening := firstLine .punct "(" 92
  inner := [firstLine .number "2" 93]
  closing := firstLine .punct ")" 94

theorem nonceCall_of (hts : tokensOf unmarkedCode 1 = .ok ts) :
    nonceCall.Of ts ⟨74, 95, 0⟩ ⟨74, 86, 0⟩ "nonce" [⟨93, 94, 0⟩] where
  here := ⟨(tokenize unmarkedCode 1).tokens.take 27, [], (tokenize unmarkedCode 1).tokens.drop 32,
    (tokensOf_eq_ok hts).trans (by decide +kernel), by decide +kernel, .nil⟩
  dot := rfl
  kind := rfl
  value := rfl
  generics := .nil
  opening := rfl
  closing := rfl
  ends := rfl
  args := by decide

theorem calls_asWritten_nonce :
    let w := (Plan.alone {} {} noFile unmarkedCode).workshop
    let text := "CreateMessage::new().content(e).nonce(2)"
    ∃ m n work d ts l l', readModule unmarkedCode 1 noFile = .ok m ∧
      n ∈ (m.resolved {}).tree.preorder ∧ n.builder? (.alone {} {} noFile unmarkedCode) = some work ∧
      work { ctxt := n.span.ctxt } = (.ok text, d) ∧ d.notes = [] ∧
      tokensOf unmarkedCode 1 = .ok ts ∧ n.keptLinks {} {} = [l, l'] ∧
      Carries ([l, l'].map (w.linkText {} n.span.ctxt)) text ∧ l'.ReadFrom ts nonceCall ∧
      l'.AsWritten w {} n.span.ctxt unmarkedCode nonceCall (w.linkText {} n.span.ctxt l') := by
  intro w text
  have hlook : ((readModule unmarkedCode 1 noFile).toOption.bind fun m =>
      (m.resolved {}).tree.preorder.findSome? (Node.written? (.alone {} {} noFile unmarkedCode))) =
        some ⟨[("content", ⟨74, 86, 0⟩, ⟨74, 75, 0⟩, [⟨84, 85, 0⟩]),
          ("nonce", ⟨74, 95, 0⟩, ⟨74, 86, 0⟩, [⟨93, 94, 0⟩])], some text, []⟩ := by
    decide +kernel
  obtain ⟨m, n, work, d, hread, hn, hwork, hrun, hnotes, hplaces⟩ := exists_written hlook
  obtain ⟨ts, hts, hcarries, hall⟩ := Node.calls_asWritten_iff hread hn hwork hrun
  obtain ⟨l, rest, hlinks, -, hrest⟩ := List.map_eq_cons_iff.1 hplaces
  obtain ⟨l', rfl, hl'⟩ := List.map_eq_singleton_iff.1 hrest
  have hnonce := Link.readFrom_of_place hl' (nonceCall_of hts)
  have hmethod : (nonceCall.name.hi : Int) = nonceCall.name.lo + l'.method.length := by
    rw [← hnonce.value]
    decide
  rw [hlinks] at hcarries hall
  exact ⟨m, n, work, d, ts, l, l', hread, hn, hwork, hrun, hnotes, hts, hlinks, hcarries, hnonce,
    ((hall l' (List.mem_cons_of_mem _ List.mem_cons_self)).2 nonceCall hnonce).2 ⟨hmethod, rfl⟩⟩

end BuilderMigration
