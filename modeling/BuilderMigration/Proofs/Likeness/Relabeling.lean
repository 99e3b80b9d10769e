import BuilderMigration.Proofs.Shift.Tree

/-! Trees with other names and at other places: every name that is written in them becomes what one
function says, and every position what another one says. What is known of types stays as it is. -/

namespace BuilderMigration

/-- What becomes of names, and of positions. -/
structure Relabeling where
  name : String → String
  place : Int → Int

namespace Relabeling

def span (r : Relabeling) (s : Span) : Span := ⟨r.place s.lo, r.place s.hi, s.ctxt⟩

mutual

/-- A type as it is written: its paths have other names. -/
def ty (r : Relabeling) : Ty → Ty
  | .ref inner mutable => .ref (r.ty inner) mutable
  | .path segments => .path (segments.map r.name)
  | .tuple elems => .tuple (r.tys elems)
  | .adt path => .adt path
  | .prim name => .prim name
  | .param name => .param name
  | .other text => .other text

def tys (r : Relabeling) : List Ty → List Ty
  | [] => []
  | t :: ts => r.ty t :: r.tys ts

end

def pattern (r : Relabeling) : Pattern → Pattern
  | .binding span name mutable => .binding (r.span span) (r.name name) mutable
  | .other span => .other (r.span span)

def param (r : Relabeling) (p : Param) : Param :=
  { p with span := r.span p.span, pattern := r.pattern p.pattern, declared := p.declared.map r.ty }

def use (r : Relabeling) (i : Import) : Import := ⟨i.path.map r.name, r.name i.name⟩

mutual

def expr (r : Relabeling) : Expr → Expr
  | .path span ty segments => .path (r.span span) ty (segments.map r.name)
  | .lit span kind => .lit (r.span span) kind
  | .methodCall span ty receiver method args =>
    .methodCall (r.span span) ty (r.expr receiver) (r.name method) (r.exprs args)
  | .closure span params body captures =>
    .closure (r.span span) (params.map r.param) (r.expr body) captures
  | .block b => .block (r.block b)
  | .macroCall span path delimiter args =>
    .macroCall (r.span span) (path.map r.name) delimiter (r.exprs args)
  | .compound span ty kind parts => .compound (r.span span) ty kind (r.exprs parts)

def block (r : Relabeling) : Block → Block
  | .mk span kind stmts tail =>
    .mk (r.span span) kind (r.stmts stmts) (match tail with | none => none | some e => some (r.expr e))

def stmt (r : Relabeling) : Stmt → Stmt
  | .letStmt span pattern declared init otherwise =>
    .letStmt (r.span span) (r.pattern pattern) (declared.map r.ty)
      (match init with | none => none | some e => some (r.expr e))
      (match otherwise with | none => none | some b => some (r.block b))
  | .semi span e => .semi (r.span span) (r.expr e)
  | .expr span e => .expr (r.span span) (r.expr e)
  | .item span i => .item (r.span span) (r.item i)

def item (r : Relabeling) : Item → Item
  | .fn span name params body =>
    .fn (r.span span) (r.name name) (params.map r.param)
      (match body with | none => none | some b => some (r.block b))
  | .use span imports globs =>
    .use (r.span span) (imports.map r.use) (globs.map (List.map r.name))
  | .container span kind items => .container (r.span span) kind (r.items items)
  | .other span => .other (r.span span)

def exprs (r : Relabeling) : List Expr → List Expr
  | [] => []
  | e :: es => r.expr e :: r.exprs es

def stmts (r : Relabeling) : List Stmt → List Stmt
  | [] => []
  | s :: ss => r.stmt s :: r.stmts ss

def items (r : Relabeling) : List Item → List Item
  | [] => []
  | i :: is => r.item i :: r.items is

end

variable (r : Relabeling)

/-! ### Trees of lists -/

theorem tys_eq_map (ts : List Ty) : r.tys ts = ts.map r.ty := by
  induction ts with
  | nil => rfl
  | cons t ts ih => rw [tys, ih, List.map_cons]

theorem exprs_eq_map (es : List Expr) : r.exprs es = es.map r.expr := by
  induction es with
  | nil => rfl
  | cons e es ih => rw [exprs, ih, List.map_cons]

theorem stmts_eq_map (ss : List Stmt) : r.stmts ss = ss.map r.stmt := by
  induction ss with
  | nil => rfl
  | cons s ss ih => rw [stmts, ih, List.map_cons]

theorem items_eq_map (is : List Item) : r.items is = is.map r.item := by
  induction is with
  | nil => rfl
  | cons i is ih => rw [items, ih, List.map_cons]

theorem block_mk (span : Span) (kind : BlockKind) (stmts : List Stmt) (tail : Option Expr) :
    r.block (.mk span kind stmts tail) =
      .mk (r.span span) kind (stmts.map r.stmt) (tail.map r.expr) := by
  cases tail <;> simp [block, stmts_eq_map]

theorem stmt_letStmt (span : Span) (pattern : Pattern) (declared : Option Ty) (init : Option Expr)
    (otherwise : Option Block) :
    r.stmt (.letStmt span pattern declared init otherwise) =
      .letStmt (r.span span) (r.pattern pattern) (declared.map r.ty) (init.map r.expr)
        (otherwise.map r.block) := by
  cases init <;> cases otherwise <;> simp [stmt]

theorem item_fn (span : Span) (name : String) (params : List Param) (body : Option Block) :
    r.item (.fn span name params body) =
      .fn (r.span span) (r.name name) (params.map r.param) (body.map r.block) := by
  cases body <;> simp [item]

/-! ### What a relabeled node is -/

@[simp] theorem span_block (b : Block) : (r.block b).span = r.span b.span := by
  cases b with
  | mk span kind stmts tail => rfl

@[simp] theorem span_expr (e : Expr) : (r.expr e).span = r.span e.span := by
  cases e with
  | block b => exact r.span_block b
  | _ => rfl

@[simp] theorem span_item (i : Item) : (r.item i).span = r.span i.span := by
  cases i <;> rfl

@[simp] theorem isBlockLike_expr (e : Expr) : (r.expr e).isBlockLike = e.isBlockLike := by
  cases e <;> rfl

/-- Positions that are kept in order. -/
theorem span_through (h : ∀ p q, p ≤ q → r.place p ≤ r.place q) (s t : Span) :
    (r.span s).through (r.span t) = r.span (s.through t) := by
  have hmax : max (r.place s.hi) (r.place t.hi) = r.place (max s.hi t.hi) := by
    rcases Int.le_total s.hi t.hi with hle | hle
    · rw [Int.max_eq_right hle, Int.max_eq_right (h _ _ hle)]
    · rw [Int.max_eq_left hle, Int.max_eq_left (h _ _ hle)]
  simp only [Span.through, span, hmax]

/-! ### Moving a tree -/

/-- The same names, all positions `k` further on. -/
def moving (k : Int) : Relabeling := ⟨id, (· + k)⟩

variable {k : Int}

mutual

theorem ty_moving : ∀ t : Ty, (moving k).ty t = t
  | .ref inner mutable => by rw [ty, ty_moving inner]
  | .path segments => congrArg Ty.path (List.map_id segments)
  | .tuple elems => by rw [ty, tys_moving elems]
  | .adt _ | .prim _ | .param _ | .other _ => rfl

theorem tys_moving : ∀ ts : List Ty, (moving k).tys ts = ts
  | [] => rfl
  | t :: ts => by rw [tys, ty_moving t, tys_moving ts]

end

theorem map_ty_moving (declared : Option Ty) : declared.map (moving k).ty = declared := by
  cases declared with
  | none => rfl
  | some t => rw [Option.map_some, ty_moving]

theorem pattern_moving (p : Pattern) : (moving k).pattern p = p.shift k := by
  cases p <;> rfl

theorem param_moving (p : Param) : (moving k).param p = p.shift k := by
  simp only [param, map_ty_moving, pattern_moving]
  rfl

theorem use_moving (i : Import) : (moving k).use i = i := by
  rw [use, moving, List.map_id]
  rfl

theorem params_moving (ps : List Param) : ps.map (moving k).param = ps.map (·.shift k) :=
  List.map_congr_left fun p _ => param_moving p

mutual

theorem expr_moving (k : Int) : ∀ e : Expr, (moving k).expr e = e.shift k
  | .path span ty segments => congrArg (Expr.path (span.shift k) ty) (List.map_id segments)
  | .lit _ _ => rfl
  | .methodCall span ty receiver method args => by
    rw [expr, Expr.shift, expr_moving k receiver, exprs_moving k args]
    rfl
  | .closure span params body captures => by
    rw [expr, Expr.shift, expr_moving k body, params_moving]
    rfl
  | .block b => by rw [expr, Expr.shift, block_moving k b]
  | .macroCall span path delimiter args => by
    rw [expr, Expr.shift, exprs_moving k args, moving, List.map_id]
    rfl
  | .compound span ty kind parts => by
    rw [expr, Expr.shift, exprs_moving k parts]
    rfl

theorem block_moving (k : Int) : ∀ b : Block, (moving k).block b = b.shift k
  | .mk span kind stmts none => by
    rw [block, Block.shift, stmts_moving k stmts]
    rfl
  | .mk span kind stmts (some e) => by
    rw [block, Block.shift, stmts_moving k stmts]
    rw [expr_moving k e]
    rfl

theorem stmt_moving (k : Int) : ∀ s : Stmt, (moving k).stmt s = s.shift k
  | .letStmt span pattern declared none none => by
    rw [stmt, Stmt.shift, map_ty_moving, pattern_moving]
    rfl
  | .letStmt span pattern declared none (some b) => by
    rw [stmt, Stmt.shift, map_ty_moving, pattern_moving]
    rw [block_moving k b]
    rfl
  | .letStmt span pattern declared (some e) none => by
    rw [stmt, Stmt.shift, map_ty_moving, pattern_moving]
    rw [expr_moving k e]
    rfl
  | .letStmt span pattern declared (some e) (some b) => by
    rw [stmt, Stmt.shift, map_ty_moving, pattern_moving]
    rw [expr_moving k e, block_moving k b]
    rfl
  | .semi span e => by
    rw [stmt, Stmt.shift, expr_moving k e]
    rfl
  | .expr span e => by
    rw [stmt, Stmt.shift, expr_moving k e]
    rfl
  | .item span i => by
    rw [stmt, Stmt.shift, item_moving k i]
    rfl

theorem item_moving (k : Int) : ∀ i : Item, (moving k).item i = i.shift k
  | .fn span name params none => by
    rw [item, Item.shift, params_moving]
    rfl
  | .fn span name params (some b) => by
    rw [item, Item.shift, params_moving]
    rw [block_moving k b]
    rfl
  | .use span imports globs => by
    have himports : imports.map (moving k).use = imports :=
      (List.map_congr_left fun i _ => use_moving i).trans (List.map_id imports)
    have hglobs : globs.map (List.map (moving k).name) = globs :=
      (List.map_congr_left fun path _ => List.map_id path).trans (List.map_id globs)
    rw [item, Item.shift, himports, hglobs]
    rfl
  | .container span kind items => by
    rw [item, Item.shift, items_moving k items]
    rfl
  | .other _ => rfl

theorem exprs_moving (k : Int) : ∀ es : List Expr, (moving k).exprs es = shiftExprs k es
  | [] => rfl
  | e :: es => by rw [exprs, shiftExprs, expr_moving k e, exprs_moving k es]

theorem stmts_moving (k : Int) : ∀ ss : List Stmt, (moving k).stmts ss = shiftStmts k ss
  | [] => rfl
  | s :: ss => by rw [stmts, shiftStmts, stmt_moving k s, stmts_moving k ss]

theorem items_moving (k : Int) : ∀ is : List Item, (moving k).items is = shiftItems k is
  | [] => rfl
  | i :: is => by rw [items, shiftItems, item_moving k i, items_moving k is]

end

/-! ### One relabeling behind another -/

def comp (r s : Relabeling) : Relabeling := ⟨r.name ∘ s.name, r.place ∘ s.place⟩

variable (s : Relabeling)

theorem path_comp (path : List String) :
    path.map (r.comp s).name = (path.map s.name).map r.name := by
  rw [List.map_map]
  rfl

mutual

theorem ty_comp : ∀ t : Ty, (r.comp s).ty t = r.ty (s.ty t)
  | .ref inner mutable => by rw [ty, ty, ty, ty_comp inner]
  | .path segments => congrArg Ty.path (r.path_comp s segments)
  | .tuple elems => by rw [ty, ty, ty, tys_comp elems]
  | .adt _ | .prim _ | .param _ | .other _ => rfl

theorem tys_comp : ∀ ts : List Ty, (r.comp s).tys ts = r.tys (s.tys ts)
  | [] => rfl
  | t :: ts => by rw [tys, tys, tys, ty_comp t, tys_comp ts]

end

theorem map_ty_comp (declared : Option Ty) :
    declared.map (r.comp s).ty = (declared.map s.ty).map r.ty := by
  cases declared with
  | none => rfl
  | some t => exact congrArg some (r.ty_comp s t)

theorem pattern_comp (p : Pattern) : (r.comp s).pattern p = r.pattern (s.pattern p) := by
  cases p <;> rfl

theorem params_comp (ps : List Param) :
    ps.map (r.comp s).param = (ps.map s.param).map r.param := by
  rw [List.map_map]
  refine List.map_congr_left fun p _ => ?_
  simp only [Function.comp_apply, param, map_ty_comp, pattern_comp]
  rfl

mutual

theorem expr_comp : ∀ e : Expr, (r.comp s).expr e = r.expr (s.expr e)
  | .path span ty segments => congrArg (Expr.path _ ty) (r.path_comp s segments)
  | .lit _ _ => rfl
  | .methodCall span ty receiver method args => by
    rw [expr, expr, expr, expr_comp receiver, exprs_comp args]
    rfl
  | .closure span params body captures => by
    rw [expr, expr, expr, expr_comp body, params_comp]
    rfl
  | .block b => by rw [expr, expr, expr, block_comp b]
  | .macroCall span path delimiter args => by
    rw [expr, expr, expr, exprs_comp args, path_comp]
    rfl
  | .compound span ty kind parts => by
    rw [expr, expr, expr, exprs_comp parts]
    rfl

theorem block_comp : ∀ b : Block, (r.comp s).block b = r.block (s.block b)
  | .mk span kind stmts none => by
    rw [block, block, block, stmts_comp stmts]
    rfl
  | .mk span kind stmts (some e) => by
    rw [block, block, block, stmts_comp stmts]
    rw [expr_comp e]
    rfl

theorem stmt_comp : ∀ t : Stmt, (r.comp s).stmt t = r.stmt (s.stmt t)
  | .letStmt span pattern declared none none => by
    rw [stmt, stmt, stmt, map_ty_comp, pattern_comp]
    rfl
  | .letStmt span pattern declared none (some b) => by
    rw [stmt, stmt, stmt, map_ty_comp, pattern_comp]
    rw [block_comp b]
    rfl
  | .letStmt span pattern declared (some e) none => by
    rw [stmt, stmt, stmt, map_ty_comp, pattern_comp]
    rw [expr_comp e]
    rfl
  | .letStmt span pattern declared (some e) (some b) => by
    rw [stmt, stmt, stmt, map_ty_comp, pattern_comp]
    rw [expr_comp e, block_comp b]
    rfl
  | .semi span e => by
    rw [stmt, stmt, stmt, expr_comp e]
    rfl
  | .expr span e => by
    rw [stmt, stmt, stmt, expr_comp e]
    rfl
  | .item span i => by
    rw [stmt, stmt, stmt, item_comp i]
    rfl

theorem item_comp : ∀ i : Item, (r.comp s).item i = r.item (s.item i)
  | .fn span name params none => by
    rw [item, item, item, params_comp]
    rfl
  | .fn span name params (some b) => by
    rw [item, item, item, params_comp]
    rw [block_comp b]
    rfl
  | .use span imports globs => by
    have himports : imports.map (r.comp s).use = (imports.map s.use).map r.use := by
      rw [List.map_map]
      exact List.map_congr_left fun i _ => by rw [use, path_comp]; rfl
    have hglobs : globs.map (List.map (r.comp s).name) =
        (globs.map (List.map s.name)).map (List.map r.name) := by
      rw [List.map_map]
      exact List.map_congr_left fun path _ => r.path_comp s path
    rw [item, item, item, himports, hglobs]
    rfl
  | .container span kind items => by
    rw [item, item, item, items_comp items]
    rfl
  | .other _ => rfl

theorem exprs_comp : ∀ es : List Expr, (r.comp s).exprs es = r.exprs (s.exprs es)
  | [] => rfl
  | e :: es => by rw [exprs, exprs, exprs, expr_comp e, exprs_comp es]

theorem stmts_comp : ∀ ss : List Stmt, (r.comp s).stmts ss = r.stmts (s.stmts ss)
  | [] => rfl
  | t :: ss => by rw [stmts, stmts, stmts, stmt_comp t, stmts_comp ss]

theorem items_comp : ∀ is : List Item, (r.comp s).items is = r.items (s.items is)
  | [] => rfl
  | i :: is => by rw [items, items, items, item_comp i, items_comp is]

end

end Relabeling

end BuilderMigration
