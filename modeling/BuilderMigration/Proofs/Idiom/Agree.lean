import BuilderMigration.Typing.Resolve
import BuilderMigration.Proofs.Idiom.Recognition

/-! Types and recognition depend on few of the settings: types on where the builders are defined and on
the signatures, recognition besides on whether receivers have to be known. -/

namespace BuilderMigration

/-! ### Types -/

/-- Settings with the builders in one place and with the same signatures. -/
structure Settings.TypesAlike (settings settings' : Settings) : Prop where
  builderCrate : settings.builderCrate = settings'.builderCrate
  builderModule : settings.builderModule = settings'.builderModule
  closureSignatures : settings.closureSignatures = settings'.closureSignatures

theorem Settings.TypesAlike.builder? {settings settings' : Settings}
    (h : settings.TypesAlike settings') (ty : Ty) : ty.builder? settings = ty.builder? settings' := by
  simp only [Ty.builder?, h.builderCrate, h.builderModule]

/-- Names that stand for the same types. -/
structure Names.Agree (n n' : Names) : Prop where
  settings : n.settings.TypesAlike n'.settings
  signatures : n.signatures = n'.signatures
  imports : n.imports = n'.imports
  globs : n.globs = n'.globs

namespace Names.Agree

variable {n n' : Names}

theorem builderModule (h : n.Agree n') : n.builderModule = n'.builderModule := by
  simp only [Names.builderModule, h.settings.builderCrate, h.settings.builderModule]

theorem resolvePath (h : n.Agree n') (segments : List String) :
    n.resolvePath segments = n'.resolvePath segments := by
  cases segments with
  | nil => rfl
  | cons head rest =>
    simp only [Names.resolvePath, Names.imported?, h.imports, h.signatures, h.globs, h.builderModule]

mutual

theorem resolve (h : n.Agree n') : ∀ ty : Ty, n.resolve ty = n'.resolve ty
  | .ref inner mutable => by rw [Names.resolve, Names.resolve, h.resolve inner]
  | .tuple elems => by rw [Names.resolve, Names.resolve, h.resolveAll elems]
  | .path segments => by rw [Names.resolve, Names.resolve, h.resolvePath]
  | .adt path => rfl
  | .prim name => rfl
  | .param name => rfl
  | .other text => rfl

theorem resolveAll (h : n.Agree n') : ∀ tys : List Ty, n.resolveAll tys = n'.resolveAll tys
  | [] => rfl
  | ty :: tys => by rw [Names.resolveAll, Names.resolveAll, h.resolve ty, h.resolveAll tys]

end

theorem fnParams (h : n.Agree n') (params : List Param) :
    n.fnParams params = n'.fnParams params := by
  simp only [Names.fnParams, funext h.resolve]

theorem closureParams (h : n.Agree n') (builder : Option String) (params : List Param) :
    n.closureParams builder params = n'.closureParams builder params := by
  simp only [Names.closureParams, Names.closureArg, funext h.resolve, h.builderModule]

theorem callType (h : n.Agree n') (receiver : Option Ty) :
    n.callType receiver = n'.callType receiver := by
  cases receiver with
  | none => rfl
  | some ty => simp only [Names.callType, h.settings.builder?]

theorem closureBuilder (h : n.Agree n') (receiver : Option Ty) (method : String) :
    n.closureBuilder receiver method = n'.closureBuilder receiver method := by
  simp only [Names.closureBuilder, h.signatures, funext h.settings.builder?]

mutual

theorem expr (h : n.Agree n') (scope : Scope) : ∀ e : Expr, n.expr scope e = n'.expr scope e
  | .path span ty [] => rfl
  | .path span ty [name] => rfl
  | .path span ty (_ :: _ :: _) => rfl
  | .lit span kind => rfl
  | .methodCall span ty receiver method es => by
    simp only [Names.expr, h.expr scope receiver, h.callType, h.closureBuilder, h.args scope _ es]
  | .closure span params body captures => by
    simp only [Names.expr, h.closureParams, h.expr _ body]
  | .block b => by simp only [Names.expr, h.block scope b]
  | .macroCall span path delimiter es => by simp only [Names.expr, h.exprs scope es]
  | .compound span ty kind parts => by simp only [Names.expr, h.exprs scope parts]

theorem args (h : n.Agree n') (scope : Scope) (builder : Option String) :
    ∀ es : List Expr, n.args scope builder es = n'.args scope builder es
  | [] => rfl
  | e :: es => by
    have he := h.expr scope e
    cases e with
    | closure span params body captures =>
      simp only [Names.args, h.closureParams, h.expr _ body, h.args scope builder es]
    | _ => simp only [Names.args, he, h.args scope builder es]

theorem exprs (h : n.Agree n') (scope : Scope) : ∀ es : List Expr, n.exprs scope es = n'.exprs scope es
  | [] => rfl
  | e :: es => by simp only [Names.exprs, h.expr scope e, h.exprs scope es]

theorem block (h : n.Agree n') (scope : Scope) : ∀ b : Block, n.block scope b = n'.block scope b
  | .mk span kind ss none => by simp only [Names.block, h.stmts scope ss]
  | .mk span kind ss (some e) => by simp only [Names.block, h.stmts scope ss, h.expr _ e]

theorem stmts (h : n.Agree n') (scope : Scope) : ∀ ss : List Stmt, n.stmts scope ss = n'.stmts scope ss
  | [] => rfl
  | .letStmt span pattern declared none none :: ss => by
    simp only [Names.stmts, funext h.resolve, h.stmts _ ss]
  | .letStmt span pattern declared (some e) none :: ss => by
    simp only [Names.stmts, funext h.resolve, h.expr scope e, h.stmts _ ss]
  | .letStmt span pattern declared none (some b) :: ss => by
    simp only [Names.stmts, funext h.resolve, h.block scope b, h.stmts _ ss]
  | .letStmt span pattern declared (some e) (some b) :: ss => by
    simp only [Names.stmts, funext h.resolve, h.expr scope e, h.block scope b, h.stmts _ ss]
  | .semi span e :: ss => by simp only [Names.stmts, h.expr scope e, h.stmts scope ss]
  | .expr span e :: ss => by simp only [Names.stmts, h.expr scope e, h.stmts scope ss]
  | .item span i :: ss => by simp only [Names.stmts, h.item i, h.stmts scope ss]

theorem item (h : n.Agree n') : ∀ i : Item, n.item i = n'.item i
  | .fn span name params none => by simp only [Names.item, h.fnParams]
  | .fn span name params (some body) => by simp only [Names.item, h.fnParams, h.block _ body]
  | .use span imports globs => rfl
  | .container span kind is => by simp only [Names.item, h.items is]
  | .other span => rfl

theorem items (h : n.Agree n') : ∀ is : List Item, n.items is = n'.items is
  | [] => rfl
  | i :: is => by simp only [Names.items, h.item i, h.items is]

end

end Names.Agree

/-- Settings of one kind give a file the same types. -/
theorem Module.resolved_congr {settings settings' : Settings} (h : settings.TypesAlike settings')
    (m : Module) : m.resolved settings = m.resolved settings' := by
  have hn : (Names.ofModule settings m).Agree (Names.ofModule settings' m) := by
    refine ⟨h, ?_, rfl, rfl⟩
    simp only [Names.ofModule, Signatures.ofSettings, h.closureSignatures]
  rw [Module.resolved, Module.resolved, hn.items]

/-! ### Recognition -/

variable {settings settings' : Settings}

theorem builderBinding?_congr (h : settings.TypesAlike settings') (params : List Param) :
    builderBinding? settings params = builderBinding? settings' params := by
  have hmut (ty : Ty) : ty.mutBuilder? settings = ty.mutBuilder? settings' := by
    cases ty with
    | ref inner mutable => cases mutable <;> simp only [Ty.mutBuilder?, h.builder?]
    | _ => rfl
  simp only [builderBinding?, hmut]

theorem chainStart?_congr (h : settings.TypesAlike settings') (strict : Bool) (e : Expr) :
    chainStart? settings strict e = chainStart? settings' strict e := by
  simp only [chainStart?, h.builder?]

/-- An expression in which the same is recognised under both settings. -/
def Expr.RecognisedAlike (settings settings' : Settings) (e : Expr) : Prop :=
  (∀ strict, chain? settings strict e = chain? settings' strict e) ∧
    builderClosure? settings e = builderClosure? settings' e

namespace Expr.RecognisedAlike

theorem classifyAll {es : List Expr} (h : ∀ e ∈ es, e.RecognisedAlike settings settings') :
    classifyAll settings es = BuilderMigration.classifyAll settings' es := by
  rw [classifyAll_eq_map, classifyAll_eq_map]
  refine List.map_congr_left fun e he => ?_
  rw [classifyArg, (h e he).2, classifyArg]

theorem stmtChain? {s : Stmt} (h : ∀ span e, s = .semi span e → e.RecognisedAlike settings settings')
    (strict : Bool) : stmtChain? settings strict s = BuilderMigration.stmtChain? settings' strict s := by
  cases s with
  | semi span e => exact (h span e rfl).1 strict
  | _ => rfl

theorem preludes {ss : List Stmt} (binding : String)
    (h : ∀ span e, .semi span e ∈ ss → e.RecognisedAlike settings settings') :
    preludes settings binding ss = BuilderMigration.preludes settings' binding ss := by
  rw [preludes_eq_map, preludes_eq_map]
  refine List.map_congr_left fun s hs => ?_
  rw [preludeOf, stmtChain? fun span e he => h span e (he ▸ hs), preludeOf]

theorem closureTail? {e : Expr} (h : e.RecognisedAlike settings settings')
    (hs : settings.strictReceivers = settings'.strictReceivers) (binding : String) :
    closureTail? settings binding e = BuilderMigration.closureTail? settings' binding e := by
  cases e with
  | methodCall => exact (h.1 _).trans (by rw [hs]; rfl)
  | _ => rfl

end Expr.RecognisedAlike

/-- The same is recognised in every expression. -/
theorem Expr.recognisedAlike (h : settings.TypesAlike settings')
    (hs : settings.strictReceivers = settings'.strictReceivers) (e : Expr) :
    e.RecognisedAlike settings settings' := by
  induction e using Expr.recognition_induction with
  | methodCall span ty receiver method args hr hargs =>
    refine ⟨fun strict => ?_, rfl⟩
    rw [chain?_methodCall, chain?_methodCall, hr.1, chainStart?_congr h,
      Expr.RecognisedAlike.classifyAll hargs]
  | closure span params body captures hstmts htail =>
    refine ⟨fun strict => rfl, ?_⟩
    rw [builderClosure?_closure, builderClosure?_closure, builderBinding?_congr h]
    refine congrArg _ (funext fun b => ?_)
    rw [htail.closureTail? hs, Expr.RecognisedAlike.preludes b.1 hstmts]
  | other e hcall hclosure =>
    cases e with
    | methodCall => exact (hcall _ _ _ _ _ rfl).elim
    | closure => exact (hclosure _ _ _ _ rfl).elim
    | _ => exact ⟨fun _ => rfl, rfl⟩

end BuilderMigration
